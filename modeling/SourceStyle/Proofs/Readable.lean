import SourceStyle.Proofs.Beginnings
import SourceStyle.Proofs.Upkeep

/-!
Tokens that read as themselves. Rules make no other tokens, except that numbers written with the
letters of other scripts may fall apart in the other letter case.
-/

namespace SourceStyle

namespace Lexer

/-- The characters are the inside of a block comment and its end, with `depth` more comments open.
-/
def Closed (depth : Nat) (body : List Char) : Prop :=
  ∃ lexeme, blockComment? depth body = some lexeme ∧ lexeme.rest = []

theorem not_closed_nil (depth : Nat) : ¬Closed depth [] := by
  rintro ⟨lexeme, h, -⟩
  cases h

theorem closed_map {result : Option Lexeme} {taken : List Char} {lines : Nat} :
    (∃ lexeme, result.map (Lexeme.after taken lines) = some lexeme ∧ lexeme.rest = []) ↔
      ∃ lexeme, result = some lexeme ∧ lexeme.rest = [] := by
  constructor
  · rintro ⟨lexeme, h, hr⟩
    obtain ⟨inner, hi, rfl⟩ := Option.map_eq_some_iff.1 h
    exact ⟨inner, hi, hr⟩
  · rintro ⟨inner, rfl, hr⟩
    exact ⟨_, rfl, hr⟩

section
variable {depth : Nat} {rest : List Char}

theorem closed_open : Closed depth ('/' :: '*' :: rest) ↔ Closed (depth + 1) rest := by
  rw [Closed, blockComment?]
  exact closed_map

theorem closed_last : Closed 0 ('*' :: '/' :: rest) ↔ rest = [] := by
  rw [Closed, blockComment?]
  constructor
  · rintro ⟨lexeme, ⟨⟩, hr⟩
    exact hr
  · rintro rfl
    exact ⟨_, rfl, rfl⟩

theorem closed_close : Closed (depth + 1) ('*' :: '/' :: rest) ↔ Closed depth rest := by
  rw [Closed, blockComment?]
  exact closed_map

theorem closed_cons {c : Char} (hopen : c = '/' → rest.head? ≠ some '*')
    (hclose : c = '*' → rest.head? ≠ some '/') :
    Closed depth (c :: rest) ↔ Closed depth rest := by
  rw [Closed, blockComment?_cons hopen hclose]
  exact closed_map

theorem closed_space {c : Char} (h : isSpace c = true ∨ isLineEnd c = true) :
    Closed depth (c :: rest) ↔ Closed depth rest := by
  refine closed_cons ?_ ?_ <;> rintro rfl <;> simp [isSpace, isLineEnd] at h

theorem closed_spaces {spaces : List Char} (h : ∀ c ∈ spaces, isSpace c = true) :
    Closed depth (spaces ++ rest) ↔ Closed depth rest := by
  induction spaces with
  | nil => rfl
  | cons c spaces ih =>
      obtain ⟨hc, hs⟩ := List.forall_mem_cons.1 h
      rw [List.cons_append, closed_space (.inl hc), ih hs]

theorem closed_terminator (ending : Linebreak) :
    Closed depth (ending.chars ++ rest) ↔ Closed depth rest := by
  cases ending with
  | cr => exact closed_space (.inr rfl)
  | lf => exact closed_space (.inr rfl)
  | crlf => exact (closed_space (.inr rfl)).trans (closed_space (.inr rfl))

end

theorem head?_respell {c : Char} (hc : ¬(c = '\r' ∨ c = '\n')) (ending : Linebreak)
    {text : List Char} (h : (ending.respell text).head? = some c) : text.head? = some c := by
  have he : ∀ rest, (ending.chars ++ rest).head? = some c → c = '\r' ∨ c = '\n' := by
    intro rest hh
    cases ending <;> simp only [Linebreak.chars, List.cons_append, List.head?_cons,
      Option.some.injEq] at hh <;> subst hh <;> simp
  fun_cases Linebreak.respell ending text with
  | case1 => exact h
  | case2 rest =>
      rw [Linebreak.respell] at h
      exact absurd (he _ h) hc
  | case3 d rest hn hd =>
      rw [Linebreak.respell, if_pos hd] at h
      · exact absurd (he _ h) hc
      · exact hn
  | case4 d rest hn hd =>
      rwa [Linebreak.respell_cons_of_not hd] at h

theorem Closed.respell {depth : Nat} {text : List Char} (h : Closed depth text)
    (ending : Linebreak) : Closed depth (ending.respell text) := by
  fun_induction blockComment? depth text with
  | case1 => exact absurd h (not_closed_nil _)
  | case2 depth rest ih =>
      rw [Linebreak.respell_cons_of_not (by decide), Linebreak.respell_cons_of_not (by decide),
        closed_open]
      exact ih (closed_open.1 h)
  | case3 rest =>
      rw [closed_last] at h
      subst h
      exact closed_last.2 rfl
  | case4 rest outer ih =>
      rw [Linebreak.respell_cons_of_not (by decide), Linebreak.respell_cons_of_not (by decide),
        closed_close]
      exact ih (closed_close.1 h)
  | case5 depth c rest hopen hclose ih =>
      have ho := head?_ne_of_unpaired hopen
      have hl := head?_ne_of_unpaired hclose
      have hr := ih ((closed_cons ho hl).1 h)
      by_cases hc : c = '\r' ∨ c = '\n'
      · rcases hc with rfl | rfl
        · rw [Linebreak.respell_cr_cons]
          split
          · exact hr
          · exact (closed_terminator ending).2 hr
        · rw [Linebreak.respell_lf_cons]
          exact (closed_terminator ending).2 hr
      · rw [Linebreak.respell_cons_of_not hc, closed_cons]
        · exact hr
        · exact fun he hh => ho he (head?_respell (by decide) ending hh)
        · exact fun he hh => hl he (head?_respell (by decide) ending hh)

end Lexer

namespace Rule

open Lexer

theorem reindentComment_of_space {c : Char} (h : isSpace c = true) (indentation rest : List Char) :
    reindentComment indentation (c :: rest) = c :: reindentComment indentation rest := by
  rw [reindentComment, if_neg]
  rintro ⟨rfl, -⟩
  cases h

theorem closed_reindent_dropWhile (indentation : List Char) {depth : Nat} (text : List Char) :
    Closed depth (reindentComment indentation (text.dropWhile isSpace)) ↔
      Closed depth (reindentComment indentation text) := by
  induction text with
  | nil => rfl
  | cons c rest ih =>
      by_cases hc : isSpace c = true
      · rw [List.dropWhile_cons_of_pos hc, ih, reindentComment_of_space hc,
          closed_space (.inl hc)]
      · rw [List.dropWhile_cons_of_neg hc]

theorem closed_reindentComment {indentation : List Char}
    (hi : ∀ c ∈ indentation, isSpace c = true) {depth : Nat} {text : List Char}
    (h : Closed depth text) : Closed depth (reindentComment indentation text) := by
  have hp : ∀ {c : Char} (rest : List Char), c ≠ '\n' →
      reindentComment indentation (c :: rest) = c :: reindentComment indentation rest := by
    intro c rest hc
    rw [reindentComment, if_neg fun hn => hc hn.1]
  fun_induction blockComment? depth text with
  | case1 => exact absurd h (not_closed_nil _)
  | case2 depth rest ih =>
      rw [hp _ (by decide), hp _ (by decide), closed_open]
      exact ih (closed_open.1 h)
  | case3 rest =>
      rw [closed_last] at h
      subst h
      rw [hp _ (by decide), hp _ (by decide), reindentComment, closed_last]
  | case4 rest outer ih =>
      rw [hp _ (by decide), hp _ (by decide), closed_close]
      exact ih (closed_close.1 h)
  | case5 depth c rest hopen hclose ih =>
      have ho := head?_ne_of_unpaired hopen
      have hl := head?_ne_of_unpaired hclose
      have hr := ih ((closed_cons ho hl).1 h)
      rw [reindentComment]
      split
      · rename_i hn
        rw [hn.1, closed_space (.inr rfl), closed_spaces hi, closed_space (.inl rfl),
          closed_reindent_dropWhile]
        exact hr
      · rw [closed_cons]
        · exact hr
        · rwa [head?_reindentComment]
        · rwa [head?_reindentComment]

end Rule

namespace Lexer

theorem next_slash (rest : List Char) : next '/' rest = afterSlash rest := rfl

theorem scans_blockComment {text : String} :
    Scans (.blockComment text) [] ↔ ∃ body, text.toList = '/' :: '*' :: body ∧ Closed 0 body := by
  constructor
  · intro h
    obtain ⟨body, hb⟩ := h.begins
    obtain ⟨lines, hn⟩ := (scans_iff hb []).1 h
    rw [next_slash, List.append_nil, afterSlash] at hn
    split at hn
    · rename_i lexeme hl
      injection hn with hn
      injection hn with _ hr
      exact ⟨body, hb, lexeme, hl, hr⟩
    · cases hn
  · rintro ⟨body, hb, lexeme, hl, hr⟩
    have hc := blockComment?_append hl
    rw [hr, List.append_nil] at hc
    refine ⟨'/', '*' :: body, lexeme.lines, hb, ?_⟩
    rw [next_slash, List.append_nil, afterSlash, hl]
    simp only [hc, hr, ← hb, String.ofList_toList]

theorem scans_lineComment {text : String} :
    Scans (.lineComment text) [] ↔
      ∃ more, text.toList = '/' :: '/' :: more ∧ ∀ c ∈ more, isLineEnd c = false := by
  constructor
  · exact fun h => h.begins
  · rintro ⟨more, hm, hn⟩
    have hs : Stops (!isLineEnd ·) [] := nofun
    have hi : ∀ c ∈ more, (!isLineEnd c) = true := fun c hc => by rw [hn c hc]; rfl
    refine ⟨'/', '/' :: more, 0, hm, ?_⟩
    rw [next_slash, List.cons_append, afterSlash, hs.takeWhile_append hi, hs.dropWhile_append hi,
      ← hm, String.ofList_toList]

/-- A token that is read where nothing follows it. Of a number only its first character counts. -/
def Readable : Token → Prop
  | .number text => Begins (.number text) text.toList
  | token => Scans token []

theorem Scans.readable {token : Token} {after : List Char} (h : Scans token after) :
    Readable token := by
  unfold Readable
  split
  · exact h.begins
  · exact (h.iff_ends []).2 (ends_nil token)

theorem Readable.begins {token : Token} (h : Readable token) : Begins token token.chars := by
  unfold Readable at h
  split at h
  · exact h
  · exact h.begins

theorem Readable.scans {token : Token} (h : Readable token) (hn : ∀ text, token ≠ .number text) :
    Scans token [] := by
  unfold Readable at h
  split at h
  · exact absurd rfl (hn _)
  · exact h

theorem readable_terminator (ending : Linebreak) : Readable (.linebreak ending) := by
  cases ending with
  | cr => exact ⟨'\r', [], 1, by simp [Linebreak.chars], rfl⟩
  | lf => exact ⟨'\n', [], 1, by simp [Linebreak.chars], rfl⟩
  | crlf => exact ⟨'\r', ['\n'], 1, by simp [Linebreak.chars], rfl⟩

theorem readable_space {c : Char} {rest : List Char}
    (h : ∀ d ∈ c :: rest, isSpace d = true) :
    Readable (.whitespace (String.ofList (c :: rest))) := by
  obtain ⟨hc, hr⟩ := List.forall_mem_cons.1 h
  have hs : Stops isSpace [] := nofun
  refine ⟨c, rest, 0, String.toList_ofList, ?_⟩
  rw [next, if_pos hc, hs.takeWhile_append hr, hs.dropWhile_append hr]

theorem readable_respellToken (ending : Linebreak) {token : Token} (h : Readable token) :
    Readable (Rule.respellToken ending token) := by
  cases token with
  | linebreak => exact readable_terminator ending
  | blockComment text =>
      obtain ⟨body, hb, hc⟩ := scans_blockComment.1 h
      refine scans_blockComment.2 ⟨ending.respell body, ?_, hc.respell ending⟩
      rw [String.toList_ofList, hb, Linebreak.respell_cons_of_not (by decide),
        Linebreak.respell_cons_of_not (by decide)]
  | _ => exact h

theorem readable_reindentToken {indentation : List Char}
    (hi : ∀ c ∈ indentation, isSpace c = true) {token : Token} (h : Readable token) :
    Readable (Rule.reindentToken indentation token) := by
  cases token with
  | blockComment text =>
      obtain ⟨body, hb, hc⟩ := scans_blockComment.1 h
      refine scans_blockComment.2 ⟨_, ?_, Rule.closed_reindentComment hi hc⟩
      rw [String.toList_ofList, hb, Rule.reindentComment, if_neg (by simp), Rule.reindentComment,
        if_neg (by simp)]
  | _ => exact h

theorem readable_recaseHex (options : Options) {token : Token} (h : Readable token) :
    Readable (Rule.recaseHex options token) := by
  rcases Rule.recaseHex_cases options token with he | ⟨x, digits, -, -, he⟩
  · rwa [he]
  · rw [he]
    exact ⟨'0', _, String.toList_ofList, rfl⟩

theorem trimEnd_cons {c : Char} (h : Text.isBlank c = false) (rest : List Char) :
    Text.trimEnd (c :: rest) = c :: Text.trimEnd rest := by
  rw [Text.trimEnd, Text.trimEnd, List.reverse_cons, List.dropWhile_append]
  split
  · rename_i he
    rw [List.isEmpty_iff.1 he, List.dropWhile_cons_of_neg (by simp [h])]
    rfl
  · rw [List.reverse_append]
    rfl

theorem mem_of_mem_trimEnd {c : Char} {text : List Char} (h : c ∈ Text.trimEnd text) : c ∈ text := by
  rw [Text.trimEnd, List.mem_reverse] at h
  exact List.mem_reverse.1 ((List.dropWhile_sublist Text.isBlank).subset h)

theorem readable_trimEnd {text : String} (h : Readable (.lineComment text)) :
    Readable (.lineComment (String.ofList (Text.trimEnd text.toList))) := by
  obtain ⟨more, hm, hn⟩ := scans_lineComment.1 h
  refine scans_lineComment.2 ⟨Text.trimEnd more, ?_, fun c hc => hn c (mem_of_mem_trimEnd hc)⟩
  rw [String.toList_ofList, hm, trimEnd_cons (by decide), trimEnd_cons (by decide)]

/-- Rules put in readable tokens and keep tokens readable. -/
theorem kept_readable (options : Options) : Rule.Kept options Readable where
  terminator := readable_terminator options.linebreak
  space _ _ h := readable_space h
  comma := ⟨',', [], 0, rfl, rfl⟩
  name := ⟨'V', ['o', 'i', 'd'], 0, rfl, rfl⟩
  opening := ⟨'(', [], 0, rfl, rfl⟩
  closing := ⟨')', [], 0, rfl, rfl⟩
  respelled _ h := readable_respellToken options.linebreak h
  recased _ h := readable_recaseHex options h
  reindented _ _ h := readable_reindentToken Rule.isSpace_of_mem_levels h
  trimmed _ h := readable_trimEnd h

end Lexer
end SourceStyle
