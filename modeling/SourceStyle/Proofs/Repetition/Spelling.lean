import SourceStyle.Proofs.Essence
import SourceStyle.Proofs.LetterCase
import SourceStyle.Proofs.Spaces

/-!
Line terminators and digits stay in their spelling. Tokens that a rule has respelled are left alone
by it, whatever later rules do.
-/

namespace SourceStyle

namespace Linebreak

theorem mem_respell {ending : Linebreak} {text : List Char} {c : Char}
    (h : c ∈ ending.respell text) : c ∈ ending.chars ∨ ¬(c = '\r' ∨ c = '\n') := by
  fun_induction respell ending text with
  | case1 => cases h
  | case2 rest ih | case3 _ rest _ _ ih =>
      rcases List.mem_append.1 h with h | h
      · exact .inl h
      · exact ih h
  | case4 d rest _ hd ih =>
      rcases List.mem_cons.1 h with rfl | h
      · exact .inr hd
      · exact ih h

theorem respell_space_append {ending : Linebreak} {space : List Char}
    (hs : ∀ c ∈ space, Lexer.isSpace c = true) (rest : List Char) :
    ending.respell (space ++ rest) = space ++ ending.respell rest := by
  induction space with
  | nil => rfl
  | cons c space ih =>
      obtain ⟨hc, hs⟩ := List.forall_mem_cons.1 hs
      have hn : ¬(c = '\r' ∨ c = '\n') := by
        rintro (rfl | rfl) <;> cases hc
      rw [List.cons_append, respell_cons_of_not hn, ih hs, List.cons_append]

theorem head?_respell_eq_star {ending : Linebreak} {text : List Char} :
    (ending.respell text).head? = some '*' ↔ text.head? = some '*' := by
  cases text with
  | nil => rfl
  | cons c rest =>
      by_cases hc : c = '\r' ∨ c = '\n'
      · obtain ⟨d, more, hm, hd⟩ := Essence.respell_terminator ending hc rest
        rw [hm]
        rcases hc with rfl | rfl <;> rcases hd with rfl | rfl <;> simp
      · rw [respell_cons_of_not hc]
        rfl

end Linebreak

namespace Rule

open Token

theorem reindentComment_eq_self {indentation text : List Char} (h : '\n' ∉ text) :
    reindentComment indentation text = text := by
  fun_induction reindentComment indentation text with
  | case1 => rfl
  | case2 c rest hc =>
      obtain ⟨rfl, -⟩ := hc
      exact absurd List.mem_cons_self h
  | case3 c rest _ ih => rw [ih fun hm => h (List.mem_cons_of_mem c hm)]

/-- Indenting the lines of a comment goes with respelling their terminators. -/
theorem reindentComment_respell {ending : Linebreak} (he : ending ≠ .cr) {indentation : List Char}
    (hi : ∀ c ∈ indentation, Lexer.isSpace c = true) {text : List Char} (h : '\r' ∉ text) :
    reindentComment indentation (ending.respell text) =
      ending.respell (reindentComment indentation text) := by
  have hl : ∀ rest, reindentComment indentation (ending.chars ++ rest) =
      if (rest.dropWhile Lexer.isSpace).head? = some '*' then
        ending.chars ++ (indentation ++ ' ' ::
          reindentComment indentation (rest.dropWhile Lexer.isSpace))
      else ending.chars ++ reindentComment indentation rest := by
    intro rest
    cases ending with
    | cr => exact absurd rfl he
    | lf =>
        rw [Linebreak.chars, List.singleton_append, reindentComment]
        simp
    | crlf =>
        rw [Linebreak.chars, List.cons_append, reindentComment, if_neg (by simp),
          List.singleton_append, reindentComment]
        split <;> simp_all
  fun_induction reindentComment indentation text with
  | case1 => simp [Linebreak.respell, reindentComment]
  | case2 c rest hc ih =>
      obtain ⟨rfl, hs⟩ := hc
      have hd : (ending.respell rest).dropWhile Lexer.isSpace =
          ending.respell (rest.dropWhile Lexer.isSpace) := Essence.dropWhile_respell ending rest
      have hm : '\r' ∉ rest.dropWhile Lexer.isSpace := fun hm =>
        h (List.mem_cons_of_mem _ ((List.dropWhile_sublist _).subset hm))
      rw [Linebreak.respell_lf_cons, hl, hd, if_pos (Linebreak.head?_respell_eq_star.2 hs), ih hm,
        Linebreak.respell_lf_cons, Linebreak.respell_space_append hi,
        Linebreak.respell_cons_of_not (by decide)]
  | case3 c rest hc ih =>
      have hm : '\r' ∉ rest := fun hm => h (List.mem_cons_of_mem c hm)
      by_cases hn : c = '\n'
      · subst hn
        rw [Linebreak.respell_lf_cons, hl, Essence.dropWhile_respell,
          if_neg fun hs => hc ⟨rfl, Linebreak.head?_respell_eq_star.1 hs⟩, ih hm,
          Linebreak.respell_lf_cons]
      · have hr : ¬(c = '\r' ∨ c = '\n') := by
          rintro (rfl | rfl)
          · exact h List.mem_cons_self
          · exact hn rfl
        rw [Linebreak.respell_cons_of_not hr, Linebreak.respell_cons_of_not hr, reindentComment,
          if_neg fun hs => hn hs.1, ih hm]

theorem respell_reindentComment {ending : Linebreak} {indentation : List Char}
    (hi : ∀ c ∈ indentation, Lexer.isSpace c = true) {text : List Char}
    (h : ending.respell text = text) :
    ending.respell (reindentComment indentation text) = reindentComment indentation text := by
  by_cases he : ending = .cr
  · subst he
    have hn : '\n' ∉ text := fun hm =>
      absurd (Linebreak.mem_respell (h.symm ▸ hm)) (by decide)
    rwa [reindentComment_eq_self hn]
  · have hn : '\r' ∉ Linebreak.lf.respell text := fun hm =>
      absurd (Linebreak.mem_respell hm) (by decide)
    have hr := reindentComment_respell he hi hn
    rw [Linebreak.respell_respell, h] at hr
    rw [hr, Linebreak.respell_respell]

theorem kept_respelled (options : Options) :
    Kept options fun token => respellToken options.linebreak token = token where
  terminator := rfl
  space _ _ _ := rfl
  comma := rfl
  name := rfl
  opening := rfl
  closing := rfl
  respelled token _ := by
    cases token <;> simp [respellToken, Linebreak.respell_respell]
  recased token h := by
    cases token with
    | number text =>
        rw [recaseHex]
        split <;> rfl
    | _ => exact h
  reindented level token h := by
    cases token with
    | blockComment text =>
        simp only [respellToken, blockComment.injEq] at h
        have hr : options.linebreak.respell text.toList = text.toList := by
          rw [← String.toList_ofList (l := options.linebreak.respell text.toList), h]
        simp only [reindentToken, respellToken, String.toList_ofList,
          respell_reindentComment isSpace_of_mem_levels hr]
    | _ => exact h
  trimmed _ _ := rfl

theorem kept_recased (options : Options) :
    Kept options fun token => recaseHex options token = token where
  terminator := rfl
  space _ _ _ := rfl
  comma := rfl
  name := rfl
  opening := rfl
  closing := rfl
  respelled token h := by cases token <;> first | exact h | rfl
  recased token _ := recaseHex_recaseHex options token
  reindented _ token h := by cases token <;> first | exact h | rfl
  trimmed _ _ := rfl

theorem linebreaks_eq_self {options : Options} {tokens : List Token}
    (h : ∀ token ∈ tokens, respellToken options.linebreak token = token) :
    linebreaks options tokens = tokens := by
  rw [linebreaks, List.map_congr_left h, List.map_id']

theorem hexLiterals_eq_self {options : Options} {tokens : List Token}
    (h : ∀ token ∈ tokens, recaseHex options token = token) :
    hexLiterals options tokens = tokens := by
  rw [hexLiterals, List.map_congr_left h, List.map_id']

end Rule
end SourceStyle
