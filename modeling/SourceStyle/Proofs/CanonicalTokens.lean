import SourceStyle.Proofs.Containment
import SourceStyle.Proofs.Respelling.Text

/-!
The form in which tokens are read. A token ends where the next one begins, so reading leaves no
space beside space, no terminator in two parts and no line comment short of the end of its line.
Apart from terminators, only string literals and block comments hold line ends.
-/

namespace SourceStyle

namespace Token

/-- Tokens in the form in which they are read. -/
structure Canonical (tokens : List Token) : Prop where
  spaces : Merged tokens
  spelled : ∀ ending, .linebreak ending ∈ tokens →
    (linebreak ending).text ∈ ["\n", "\r\n", "\r"]
  uncut : tokens.IsChain fun first second => first = .linebreak .cr → second ≠ .linebreak .lf
  comments : ∀ text, .lineComment text ∈ tokens →
    ['/', '/'] <+: text.toList ∧ ∀ c ∈ text.toList, c ≠ '\r' ∧ c ≠ '\n'
  commentsEndLines : CommentsEndLines tokens
  flat : ∀ token ∈ tokens, token.isLinebreak = false → token.spansLines = false →
    ∀ c ∈ token.chars, c ≠ '\r' ∧ c ≠ '\n'

theorem text_linebreak_mem (ending : Linebreak) :
    (linebreak ending).text ∈ ["\n", "\r\n", "\r"] := by
  cases ending <;> decide

end Token

namespace Lexer

open Token

theorem isLineEnd_eq_false_iff {c : Char} : isLineEnd c = false ↔ c ≠ '\r' ∧ c ≠ '\n' := by
  rw [isLineEnd, Bool.or_eq_false_iff, beq_eq_false_iff_ne, beq_eq_false_iff_ne, and_comm]

section
variable {source : List Char} {tokens : List Token}

/-- Two tokens that are read side by side: the first ends where the second begins. -/
theorem Lexes.isChain {R : Token → Token → Prop} (h : Lexes source tokens)
    (hr : ∀ first second after, Ends first (second.chars ++ after) → Begins second second.chars →
      R first second) : tokens.IsChain R := by
  rw [List.isChain_iff_forall_rel_of_append_cons_cons]
  rintro first second before after rfl
  have hfirst := h.scans
  rw [renderChars_cons] at hfirst
  rw [List.append_cons] at h
  exact hr first second _ ((hfirst.iff_ends _).1 hfirst) h.scans.begins

theorem Lexes.merged (h : Lexes source tokens) : Merged tokens := by
  refine h.isChain fun first second after he hb hw => Bool.eq_false_iff.2 fun hs => ?_
  cases first with
  | whitespace text =>
      cases second with
      | whitespace following =>
          obtain ⟨hn, hspace⟩ := hb
          obtain ⟨c, more, hc⟩ := List.exists_cons_of_ne_nil hn
          rw [hc] at he hspace
          have hstop : isSpace c = false := he c rfl
          rw [hspace c List.mem_cons_self] at hstop
          cases hstop
      | _ => cases hs
  | _ => cases hw

/-- A carriage return is read with the line feed behind it. -/
theorem Lexes.uncut (h : Lexes source tokens) :
    tokens.IsChain fun first second => first = .linebreak .cr → second ≠ .linebreak .lf := by
  refine h.isChain fun first second after he _ => ?_
  rintro rfl rfl
  rw [chars_linebreak] at he
  exact he rfl

/-- A line comment is read up to the end of its line. -/
theorem Lexes.commentsEndLines (h : Lexes source tokens) : CommentsEndLines tokens := by
  refine h.isChain fun first second after he hb hc => ?_
  cases first with
  | lineComment text =>
      obtain ⟨c, more, hm⟩ := List.exists_cons_of_ne_nil (begins_ne_nil hb)
      rw [hm] at he
      have hend : isLineEnd c = true := by simpa using he c rfl
      exact isLinebreak_of_isLineEnd hb (by rw [hm]; rfl) hend
  | _ => cases hc

end

end Lexer

open Lexer Token

/-- Whatever source is read, its tokens are canonical. -/
theorem canonical_of_tokenize {source : String} {tokens : List Token}
    (h : tokenize source = .ok tokens) : Canonical tokens := by
  have hl := tokenize_eq_ok_iff.1 h
  have hflat : ∀ token ∈ tokens, token.isLinebreak = false → token.spansLines = false →
      ∀ c ∈ token.chars, c ≠ '\r' ∧ c ≠ '\n' := by
    refine forall_mem_of_tokenize (fun hn hk hs c hm => ?_) h
    exact isLineEnd_eq_false_iff.1 (flat_of_next hn hk hs c hm)
  refine ⟨hl.merged, fun ending _ => text_linebreak_mem ending, hl.uncut, ?_,
    hl.commentsEndLines, hflat⟩
  intro text hm
  refine ⟨?_, hflat _ hm rfl rfl⟩
  obtain ⟨before, after, rfl⟩ := List.append_of_mem hm
  obtain ⟨more, ht, -⟩ := hl.scans.begins
  exact ⟨more, ht.symm⟩

/-- All terminators side by side, and line ends in a literal and in a comment. -/
def terminatedTokens : List Token :=
  [.identifier "\x60a\x60", .whitespace " \t", .lineComment "//b", .linebreak .cr,
   .linebreak .crlf, .linebreak .lf, .linebreak .cr, .stringLiteral "\"\\\n\"",
   .blockComment "/*\r*/", .operator "\\"]

set_option maxRecDepth 4000 in
theorem canonical_of_tokenize_terminated :
    tokenize "\x60a\x60 \t//b\r\r\n\n\r\"\\\n\"/*\r*/\\" = .ok terminatedTokens ∧
      Canonical terminatedTokens := by
  have h : tokenize "\x60a\x60 \t//b\r\r\n\n\r\"\\\n\"/*\r*/\\" = .ok terminatedTokens := by cbv
  exact ⟨h, canonical_of_tokenize h⟩

end SourceStyle
