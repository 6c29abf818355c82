import SourceStyle.Proofs.Upkeep

/-!
Tokens that stand side by side. Rules bring tokens together that layout or a separator kept apart;
they never bring together two tokens that would read as one, save a name of the empty type and
what follows it, and an operator that ends in a slash and a comment.
-/

namespace SourceStyle

namespace Token

def isPunctuation : Token → Bool
  | opening _ | closing _ | separator _ => true
  | _ => false

/-- Tokens that go on with no other token: layout, brackets, separators and comments. -/
def isBreak (token : Token) : Bool :=
  token.isLayout || token.isPunctuation || token.isComment

/-- What a token leaves to the token right after it. `point` is a point right after a number. -/
inductive Trail where
  | free
  | line
  | name
  | number
  | quotes
  | operator
  | point
deriving DecidableEq, Repr

namespace Trail

/-- The characters that would go on with the token before. -/
def goesOn : Trail → Char → Bool
  | free, _ | line, _ => false
  | name, c | number, c => Lexer.isIdentifierTail c
  | quotes, c => c == '"'
  | operator, c => Lexer.isOperatorChar c
  | point, c => Lexer.isOperatorChar c || c.isDigit

def accepts (trail : Trail) (token : Token) : Bool :=
  if trail = .line then token.isLinebreak
  else token.isBreak || !token.chars.head?.any trail.goesOn

/-- What a token leaves by itself. The name of the empty type is let off here. -/
def of : Token → Trail
  | .identifier text => if text = "Void" ∨ text.toList.head? = some '\x60' then free else name
  | .number _ => number
  | .stringLiteral text => if text = "\"\"" then quotes else free
  | .operator text => if text.toList.head?.any Lexer.isOperatorChar then operator else free
  | .lineComment _ => line
  | _ => free

def after (trail : Trail) (token : Token) : Trail :=
  if trail = .number ∧ token = .operator "." then point else of token

end Trail

/-- A watch for tokens that go on with the one before them. -/
def soundWatch : Watch Trail where
  accepts trail token := trail.accepts token = true
  next := Trail.after

/-- No token goes on with the one before it. -/
def SoundFrom (trail : Trail) (tokens : List Token) : Prop :=
  soundWatch.Passes trail tokens

theorem accepts_linebreak (trail : Trail) (ending : Linebreak) :
    trail.accepts (.linebreak ending) = true := by
  unfold Trail.accepts
  split <;> rfl

theorem accepts_of_isBreak {trail : Trail} (ht : trail ≠ .line) {token : Token}
    (h : token.isBreak = true) : trail.accepts token = true := by
  rw [Trail.accepts, if_neg ht, h, Bool.true_or]

/-- A comment may come after anything but a line comment. -/
theorem accepts_of_isComment (trail : Trail) {token : Token} (h : token.isComment = true) :
    trail.accepts token = decide (trail ≠ .line) := by
  unfold Trail.accepts
  split
  · rw [decide_eq_false (not_not.2 ‹_›)]
    cases token <;> first | rfl | cases h
  · rw [isBreak, h, Bool.or_true, Bool.true_or, decide_eq_true ‹_›]

theorem isBreak_of_isLayout {token : Token} (h : token.isLayout = true) : token.isBreak = true := by
  rw [isBreak, h, Bool.true_or, Bool.true_or]

theorem free_accepts (token : Token) : Trail.free.accepts token = true := by
  cases h : token.chars.head? <;> simp [Trail.accepts, Trail.goesOn, h]

@[simp] theorem free_after (token : Token) : Trail.free.after token = Trail.of token := by
  rw [Trail.after, if_neg fun h => by cases h.1]

theorem after_of_isBreak (trail : Trail) {token : Token} (h : token.isBreak = true) :
    trail.after token = Trail.of token := by
  rw [Trail.after, if_neg]
  rintro ⟨-, rfl⟩
  cases h

theorem of_isLayout {token : Token} (h : token.isLayout = true) : Trail.of token = .free := by
  cases token <;> simp_all [Trail.of, isLayout, isWhitespace, isLinebreak]

/-- Only a line comment leaves the need of a line terminator. -/
theorem after_ne_line (trail : Trail) {token : Token} (h : ∀ text, token ≠ .lineComment text) :
    trail.after token ≠ .line := by
  unfold Trail.after
  split
  · nofun
  · unfold Trail.of
    split
    · split <;> nofun
    · nofun
    · split <;> nofun
    · split <;> nofun
    · exact absurd rfl (h _)
    · nofun

theorem after_isLayout (trail : Trail) {token : Token} (h : token.isLayout = true) :
    trail.after token = .free := by
  rw [after_of_isBreak trail (isBreak_of_isLayout h), of_isLayout h]

@[simp] theorem after_whitespace (trail : Trail) (space : String) :
    trail.after (.whitespace space) = .free := after_isLayout trail rfl

@[simp] theorem after_linebreak (trail : Trail) (ending : Linebreak) :
    trail.after (.linebreak ending) = .free := after_isLayout trail rfl

@[simp] theorem after_opening (trail : Trail) (bracket : Bracket) :
    trail.after (.opening bracket) = .free := after_of_isBreak trail rfl

@[simp] theorem after_closing (trail : Trail) (bracket : Bracket) :
    trail.after (.closing bracket) = .free := after_of_isBreak trail rfl

@[simp] theorem after_separator (trail : Trail) (mark : Separator) :
    trail.after (.separator mark) = .free := after_of_isBreak trail rfl

theorem foldl_after_gap {gap : List Token} (hg : ∀ token ∈ gap, token.isLayout = true)
    (trail : Trail) : gap.foldl Trail.after trail = trail ∨ gap.foldl Trail.after trail = .free := by
  induction gap generalizing trail with
  | nil => exact .inl rfl
  | cons token gap ih =>
      obtain ⟨ht, hg⟩ := List.forall_mem_cons.1 hg
      rw [List.foldl_cons, after_isLayout trail ht]
      exact .inr ((ih hg .free).elim id id)

section
variable {trail : Trail} {first second : List Token}

theorem soundFrom_cons {token : Token} :
    SoundFrom trail (token :: first) ↔
      trail.accepts token = true ∧ SoundFrom (trail.after token) first := Iff.rfl

theorem SoundFrom.tail {token : Token} (h : SoundFrom trail (token :: first)) :
    SoundFrom (trail.after token) first := h.2

theorem soundFrom_append :
    SoundFrom trail (first ++ second) ↔
      soundWatch.Reads trail first ∧ SoundFrom (first.foldl Trail.after trail) second :=
  Watch.passes_append

theorem SoundFrom.operator (h : SoundFrom .point first) : SoundFrom .operator first := by
  cases first with
  | nil => trivial
  | cons token rest =>
      obtain ⟨ha, hr⟩ := soundFrom_cons.1 h
      refine soundFrom_cons.2 ⟨?_, hr⟩
      unfold Trail.accepts at ha ⊢
      cases hc : token.chars.head? <;> simp_all [Trail.goesOn]
      grind

/-- A token by itself asks no more than after what came before it. -/
theorem SoundFrom.of {token : Token} (h : SoundFrom (trail.after token) first) :
    SoundFrom (Trail.of token) first := by
  rw [Trail.after] at h
  split at h
  · rename_i hp
    have ho : Trail.of (.operator ".") = .operator := by decide
    rw [hp.2, ho]
    exact h.operator
  · exact h

/-- Nothing before is the best that can stand before. -/
theorem SoundFrom.free (h : SoundFrom trail first) : SoundFrom .free first := by
  cases first with
  | nil => trivial
  | cons token rest =>
      refine soundFrom_cons.2 ⟨free_accepts token, ?_⟩
      rw [free_after]
      exact h.tail.of

theorem SoundFrom.suffix (h : SoundFrom trail (first ++ second)) : SoundFrom .free second :=
  (soundFrom_append.1 h).2.free

theorem SoundFrom.skipSpace (h : SoundFrom trail first) : SoundFrom .free (skipSpace first) := by
  rw [← takeWhile_append_skipSpace first] at h
  exact h.suffix

/-- Only the first token sees what stands before. -/
theorem SoundFrom.ofHead (h : SoundFrom .free first)
    (hh : ∀ token ∈ first.head?, trail.accepts token = true ∧ trail.after token = Trail.of token) :
    SoundFrom trail first := by
  cases first with
  | nil => trivial
  | cons token rest =>
      obtain ⟨ha, hf⟩ := hh token rfl
      obtain ⟨-, hr⟩ := soundFrom_cons.1 h
      refine soundFrom_cons.2 ⟨ha, ?_⟩
      rwa [hf, ← free_after]

/-- Where no token goes on with another, anything may stand before. -/
theorem SoundFrom.ofBreak (h : SoundFrom .free first) (ht : trail ≠ .line)
    (hb : ∀ token ∈ first.head?, token.isBreak = true) : SoundFrom trail first :=
  h.ofHead fun token hm => ⟨accepts_of_isBreak ht (hb token hm), after_of_isBreak trail (hb token hm)⟩

end

theorem soundWatch_ignores : soundWatch.Ignores isLayout .free :=
  fun token h => ⟨free_accepts token, after_isLayout .free h⟩

theorem soundWatch_steady : soundWatch.Steady := by
  intro trail ending
  have hn : soundWatch.next trail (.linebreak ending) = .free := after_linebreak trail ending
  rw [hn]
  exact soundWatch_ignores

end Token
end SourceStyle
