import Mathlib
import SourceStyle.Proofs.Essence.Rules

/-!
Rules look at where lines end and not at how. With another terminator in the options and in the
tokens, every rule but the one that indents comments does what it did, in the other spelling.
-/

namespace SourceStyle.Rule

open Token

section
variable {ending : Linebreak}

/-! ### What a respelled token still is -/

@[simp] theorem isWhitespace_respellToken (token : Token) :
    (respellToken ending token).isWhitespace = token.isWhitespace := by
  cases token <;> rfl

@[simp] theorem isLinebreak_respellToken (token : Token) :
    (respellToken ending token).isLinebreak = token.isLinebreak := by
  cases token <;> rfl

@[simp] theorem isComment_respellToken (token : Token) :
    (respellToken ending token).isComment = token.isComment := by
  cases token <;> rfl

@[simp] theorem isClosing_respellToken (token : Token) :
    (respellToken ending token).isClosing = token.isClosing := by
  cases token <;> rfl

@[simp] theorem isTrivia_respellToken (token : Token) :
    (respellToken ending token).isTrivia = token.isTrivia := by
  cases token <;> rfl

theorem respellToken_respellToken (ending first : Linebreak) (token : Token) :
    respellToken ending (respellToken first token) = respellToken ending token := by
  cases token <;> simp [respellToken, Linebreak.respell_respell]

theorem respellToken_eq_iff {code : Token} (hc : code.isTrivia = false) (token : Token) :
    respellToken ending token = code ↔ token = code := by
  cases token with
  | linebreak =>
      refine iff_of_false ?_ ?_ <;>
        rintro rfl <;> cases hc
  | blockComment =>
      refine iff_of_false ?_ ?_ <;>
        rintro rfl <;> cases hc
  | _ => rfl

theorem dropWhile_map_respellToken {p : Token → Bool}
    (hp : ∀ token, p (respellToken ending token) = p token) (tokens : List Token) :
    (tokens.map (respellToken ending)).dropWhile p =
      (tokens.dropWhile p).map (respellToken ending) := by
  have he : p ∘ respellToken ending = p := funext hp
  rw [List.dropWhile_map, he]

theorem takeWhile_map_respellToken {p : Token → Bool}
    (hp : ∀ token, p (respellToken ending token) = p token) (tokens : List Token) :
    (tokens.map (respellToken ending)).takeWhile p =
      (tokens.takeWhile p).map (respellToken ending) := by
  have he : p ∘ respellToken ending = p := funext hp
  rw [List.takeWhile_map, he]

theorem skipSpace_map (tokens : List Token) :
    skipSpace (tokens.map (respellToken ending)) = (skipSpace tokens).map (respellToken ending) :=
  dropWhile_map_respellToken isWhitespace_respellToken tokens

theorem any_head?_map {p : Token → Bool} (hp : ∀ token, p (respellToken ending token) = p token)
    (tokens : List Token) :
    (tokens.map (respellToken ending)).head?.any p = tokens.head?.any p := by
  cases tokens with
  | nil => rfl
  | cons token tokens => exact hp token

/-! ### Semicolons -/

theorem endsStatement_map (tokens : List Token) :
    endsStatement (tokens.map (respellToken ending)) = endsStatement tokens := by
  rw [endsStatement, skipSpace_map, endsStatement]
  cases skipSpace tokens with
  | nil => rfl
  | cons token rest =>
      cases token with
      | closing bracket => cases bracket <;> rfl
      | _ => rfl

theorem semicolonFate_map (options : Options) (nesting : Nat) (tokens : List Token) :
    semicolonFate { options with linebreak := ending } nesting (tokens.map (respellToken ending)) =
      semicolonFate options nesting tokens := by
  rw [semicolonFate, endsStatement_map, semicolonFate]

theorem beginsSplit_map (options : Options) (nesting : Nat) (tokens : List Token) :
    beginsSplit { options with linebreak := ending } nesting (tokens.map (respellToken ending)) =
      beginsSplit options nesting tokens := by
  cases tokens with
  | nil => rfl
  | cons token rest =>
      cases token with
      | separator mark =>
          cases mark with
          | semicolon => exact congrArg (· == .split) (semicolonFate_map options nesting rest)
          | _ => rfl
      | _ => rfl

theorem semicolonsFrom_map (options : Options) (nesting : Nat) (tokens : List Token) :
    semicolonsFrom { options with linebreak := ending } nesting (tokens.map (respellToken ending)) =
      (semicolonsFrom options nesting tokens).map (respellToken ending) := by
  fun_induction semicolonsFrom options nesting tokens with
  | case1 nesting => simp [semicolonsFrom]
  | case2 nesting rest hf ih => simp [semicolonsFrom, respellToken, semicolonFate_map, hf, ih]
  | case3 nesting rest hf ih => simp [semicolonsFrom, respellToken, semicolonFate_map, hf, ih]
  | case4 nesting rest hf ih =>
      simp [semicolonsFrom, respellToken, semicolonFate_map, hf, ← ih, skipSpace_map]
  | case5 nesting text rest hb ih =>
      simp [semicolonsFrom, respellToken, beginsSplit_map, hb, ih]
  | case6 nesting text rest hb ih =>
      simp [semicolonsFrom, respellToken, beginsSplit_map, hb, ih]
  | case7 nesting token rest hs hw ih =>
      cases token <;> simp_all [semicolonsFrom, respellToken, nestingAfter]

/-! ### Headers, ranges, empty types, hexadecimal literals -/

theorem afterHeader?_map (blank commented : Bool) (tokens : List Token) :
    afterHeader? blank commented (tokens.map (respellToken ending)) =
      (afterHeader? blank commented tokens).map (·.map (respellToken ending)) := by
  fun_induction afterHeader? blank commented tokens with
  | case1 blank commented text rest ih => exact ih
  | case2 blank commented first rest ih =>
      simp only [List.map_cons, respellToken, afterHeader?, ih]
      cases afterHeader? true commented rest with
      | some after => rfl
      | none =>
          simp only [Option.map_none, Option.none_or]
          split <;> rfl
  | case3 blank commented text rest ih => exact ih
  | case4 blank commented text rest ih => exact ih
  | case5 tokens blank commented hw hl hc hb =>
      cases tokens with
      | nil => rfl
      | cons token rest => cases token <;> simp_all [afterHeader?, respellToken]

theorem header_map (options : Options) (tokens : List Token) :
    header { options with linebreak := ending } (tokens.map (respellToken ending)) =
      (header options tokens).map (respellToken ending) := by
  simp only [header, afterHeader?_map]
  split
  · cases afterHeader? true false tokens <;> rfl
  · rfl

theorem isOperandEnd_respellToken (token : Token) :
    isOperandEnd (respellToken ending token) = isOperandEnd token := by
  cases token <;> rfl

theorem isOperandStart_respellToken (token : Token) :
    isOperandStart (respellToken ending token) = isOperandStart token := by
  cases token <;> rfl

theorem rangeAhead?_map (ending : Linebreak) (tokens : List Token) :
    rangeAhead? (tokens.map (respellToken ending)) =
      (rangeAhead? tokens).map fun (text, rest) => (text, rest.map (respellToken ending)) := by
  rw [rangeAhead?, skipSpace_map, rangeAhead?]
  cases skipSpace tokens with
  | nil => rfl
  | cons token rest =>
      cases token with
      | operator text =>
          simp only [List.map_cons, respellToken, skipSpace_map,
            any_head?_map isOperandStart_respellToken]
          split <;> rfl
      | _ => rfl

theorem spacedRange_map (options : Options) (text : String) :
    (spacedRange options text).map (respellToken ending) = spacedRange options text := by
  unfold spacedRange
  split <;> rfl

theorem ranges_map (options : Options) (tokens : List Token) :
    ranges { options with linebreak := ending } (tokens.map (respellToken ending)) =
      (ranges options tokens).map (respellToken ending) := by
  fun_induction ranges options tokens with
  | case1 => simp [ranges]
  | case2 token rest he text following hr _ ih =>
      have hm := rangeAhead?_map ending rest
      rw [hr] at hm
      rw [List.map_cons, ranges_of_rangeAhead? ((isOperandEnd_respellToken token).trans he) hm, ih,
        List.map_cons, List.map_append, spacedRange_map]
      rfl
  | case3 token rest he hr ih =>
      have hm := rangeAhead?_map ending rest
      rw [hr] at hm
      rw [List.map_cons, ranges_of_none fun _ => hm, ih, List.map_cons]
  | case4 token rest he ih =>
      rw [List.map_cons, ranges_of_none, ih, List.map_cons]
      rw [isOperandEnd_respellToken]
      exact fun h => absurd h he

theorem afterEmptyResult?_map (ending : Linebreak) (options : Options) (tokens : List Token) :
    afterEmptyResult? { options with linebreak := ending } (tokens.map (respellToken ending)) =
      (afterEmptyResult? options tokens).map (·.map (respellToken ending)) := by
  have ht : afterEmptyTuple? (tokens.map (respellToken ending)) =
      (afterEmptyTuple? tokens).map (·.map (respellToken ending)) := by
    cases tokens with
    | nil => rfl
    | cons token rest =>
        cases token with
        | opening bracket =>
            cases bracket with
            | round =>
                simp only [List.map_cons, respellToken, afterEmptyTuple?, skipSpace_map]
                cases skipSpace rest with
                | nil => rfl
                | cons token after =>
                    cases token with
                    | closing bracket => cases bracket <;> rfl
                    | _ => rfl
            | _ => rfl
        | _ => rfl
  have hn : afterVoidName? (tokens.map (respellToken ending)) =
      (afterVoidName? tokens).map (·.map (respellToken ending)) := by
    cases tokens with
    | nil => rfl
    | cons token rest =>
        cases token with
        | identifier name =>
            simp only [List.map_cons, respellToken, afterVoidName?]
            split <;> rfl
        | _ => rfl
  rw [afterEmptyResult?, ht, hn, afterEmptyResult?]
  split <;> rfl

theorem emptyResult_map (options : Options) :
    (emptyResult options).map (respellToken ending) = emptyResult options := by
  unfold emptyResult
  split <;> rfl

theorem voidTypes_map (options : Options) (tokens : List Token) :
    voidTypes { options with linebreak := ending } (tokens.map (respellToken ending)) =
      (voidTypes options tokens).map (respellToken ending) := by
  have arrow (token : Token) : respellToken ending token = .operator "->" ↔ token = .operator "->" :=
    respellToken_eq_iff rfl token
  fun_induction voidTypes options tokens with
  | case1 => simp [voidTypes]
  | case2 rest after ha _ ih =>
      have hm := afterEmptyResult?_map ending options (skipSpace rest)
      rw [ha, ← skipSpace_map] at hm
      refine (voidTypes_of_afterEmptyResult? hm).trans ?_
      rw [ih, takeWhile_map_respellToken isWhitespace_respellToken]
      simp only [List.map_cons, List.map_append, emptyResult_map]
      rfl
  | case3 rest ha ih =>
      have hm := afterEmptyResult?_map ending options (skipSpace rest)
      rw [ha, ← skipSpace_map] at hm
      rw [List.map_cons, voidTypes_of_none fun _ => hm, ih, List.map_cons]
  | case4 token rest he ih =>
      rw [List.map_cons, voidTypes_of_none, ih, List.map_cons]
      rw [arrow]
      exact fun h => absurd h he

theorem hexLiterals_map (options : Options) (tokens : List Token) :
    hexLiterals { options with linebreak := ending } (tokens.map (respellToken ending)) =
      (hexLiterals options tokens).map (respellToken ending) := by
  simp only [hexLiterals, List.map_map]
  refine List.map_congr_left fun token _ => ?_
  cases token with
  | number text =>
      simp only [Function.comp_apply, respellToken, recaseHex]
      cases hexDigits? text.toList <;> rfl
  | _ => rfl

/-! ### Commas -/

def respellSplit (ending : Linebreak) (split : Scope.Split) : Scope.Split :=
  { split with
    inside := split.inside.map (respellToken ending)
    after := split.after.map (respellToken ending) }

theorem splitAtClose_map (ending : Linebreak) (depth : Nat) (tokens : List Token) :
    Scope.splitAtClose depth (tokens.map (respellToken ending)) =
      (Scope.splitAtClose depth tokens).map (respellSplit ending) := by
  have hc (token : Token) (result : Option Scope.Split) :
      (result.map (respellSplit ending)).map (.cons (respellToken ending token)) =
        (result.map (.cons token)).map (respellSplit ending) := by
    cases result <;> rfl
  fun_induction Scope.splitAtClose depth tokens with
  | case1 => rfl
  | case2 depth bracket rest ih | case4 bracket rest outer ih =>
      rw [← hc, ← ih]
      rfl
  | case3 bracket rest => rfl
  | case5 depth token rest ho hn ih =>
      rw [← hc, ← ih]
      cases token <;> first | rfl | exact absurd rfl (ho _) | exact absurd rfl (hn _)

theorem settleReversed_map (options : Options) (inside : List Token) :
    settleReversed { options with linebreak := ending } (inside.map (respellToken ending)) =
      (settleReversed options inside).map (respellToken ending) := by
  rw [settleReversed, dropWhile_map_respellToken isTrivia_respellToken,
    takeWhile_map_respellToken isTrivia_respellToken, settleReversed]
  cases inside.dropWhile isTrivia with
  | nil => rfl
  | cons token rest =>
      cases token with
      | separator mark =>
          cases mark with
          | comma =>
              simp only [List.map_cons, respellToken]
              split
              · rfl
              · rw [List.map_append]
          | _ => rfl
      | _ =>
          simp only [List.map_cons, respellToken]
          split
          · simp only [List.map_append, List.map_cons, respellToken]
          · rfl

theorem settleComma_map (options : Options) (inside : List Token) :
    settleComma { options with linebreak := ending } (inside.map (respellToken ending)) =
      (settleComma options inside).map (respellToken ending) := by
  have hc : closesOwnLine (inside.map (respellToken ending)) = closesOwnLine inside := by
    rw [closesOwnLine, ← List.map_reverse, skipSpace_map, any_head?_map isLinebreak_respellToken,
      closesOwnLine]
  rw [settleComma, hc, settleComma]
  split
  · rw [← List.map_reverse, settleReversed_map, List.map_reverse]
  · rfl

theorem trailingCommas_map (options : Options) (tokens : List Token) :
    trailingCommas { options with linebreak := ending } (tokens.map (respellToken ending)) =
      (trailingCommas options tokens).map (respellToken ending) := by
  have opens (token : Token) : respellToken ending token = .opening .square ↔ token = .opening .square :=
    respellToken_eq_iff rfl token
  fun_induction trailingCommas options tokens with
  | case1 => simp [trailingCommas]
  | case2 rest split hs _ _ ihInside ihAfter =>
      have hm := splitAtClose_map ending 0 rest
      rw [hs] at hm
      refine (trailingCommas_of_splitAtClose hm).trans ?_
      simp only [respellSplit, ihInside, ihAfter, settleComma_map, List.map_cons, List.map_append]
      rfl
  | case3 rest hs ih =>
      have hm := splitAtClose_map ending 0 rest
      rw [hs] at hm
      rw [List.map_cons, trailingCommas_of_none fun _ => hm, ih, List.map_cons]
  | case4 token rest ho ih =>
      rw [List.map_cons, trailingCommas_of_none, ih, List.map_cons]
      rw [opens]
      exact fun h => absurd h ho

/-! ### Braces -/

theorem endsBlockHeader_respellToken (token : Token) :
    endsBlockHeader (respellToken ending token) = endsBlockHeader token := by
  cases token <;> rfl

theorem misplacedBody?_map (ending : Linebreak) (options : Options) (tokens : List Token) :
    misplacedBody? { options with linebreak := ending } (tokens.map (respellToken ending)) =
      (misplacedBody? options tokens).map (·.map (respellToken ending)) := by
  have he (body : List Token) : endsLine (body.map (respellToken ending)) = endsLine body := by
    rw [endsLine, skipSpace_map, endsLine]
    cases skipSpace body with
    | nil => rfl
    | cons token rest => cases token <;> rfl
  have hs : bodyOnHeaderLine? (tokens.map (respellToken ending)) =
      (bodyOnHeaderLine? tokens).map (·.map (respellToken ending)) := by
    rw [bodyOnHeaderLine?, skipSpace_map, bodyOnHeaderLine?]
    cases skipSpace tokens with
    | nil => rfl
    | cons token body =>
        cases token with
        | opening bracket =>
            cases bracket with
            | curly =>
                simp only [List.map_cons, respellToken, he]
                split <;> rfl
            | _ => rfl
        | _ => rfl
  have hl : bodyOnLaterLine? (tokens.map (respellToken ending)) =
      (bodyOnLaterLine? tokens).map (·.map (respellToken ending)) := by
    have hb : ((tokens.map (respellToken ending)).takeWhile isLayout).any isLinebreak =
        (tokens.takeWhile isLayout).any isLinebreak := by
      rw [takeWhile_map_respellToken (Essence.isLayout_respellToken ending), List.any_map]
      exact congrArg _ (funext isLinebreak_respellToken)
    rw [bodyOnLaterLine?, dropWhile_map_respellToken (Essence.isLayout_respellToken ending), hb,
      bodyOnLaterLine?]
    cases tokens.dropWhile isLayout with
    | nil => rfl
    | cons token body =>
        cases token with
        | opening bracket =>
            cases bracket with
            | curly =>
                simp only [List.map_cons, respellToken]
                split <;> rfl
            | _ => rfl
        | _ => rfl
  rw [misplacedBody?, hs, hl, misplacedBody?]
  split <;> rfl

theorem braceGap_map (options : Options) :
    braceGap { options with linebreak := ending } = respellToken ending (braceGap options) := by
  unfold braceGap
  split <;> rfl

theorem braces_map (options : Options) (tokens : List Token) :
    braces { options with linebreak := ending } (tokens.map (respellToken ending)) =
      (braces options tokens).map (respellToken ending) := by
  fun_induction braces options tokens with
  | case1 => simp [braces]
  | case2 token rest he body hb _ ih =>
      have hm := misplacedBody?_map ending options rest
      rw [hb] at hm
      rw [List.map_cons, braces_of_misplacedBody? ((endsBlockHeader_respellToken token).trans he) hm,
        ih, braceGap_map]
      rfl
  | case3 token rest he hb ih =>
      have hm := misplacedBody?_map ending options rest
      rw [hb] at hm
      rw [List.map_cons, braces_of_none fun _ => hm, ih, List.map_cons]
  | case4 token rest he ih =>
      rw [List.map_cons, braces_of_none, ih, List.map_cons]
      rw [endsBlockHeader_respellToken]
      exact fun h => absurd h he

/-! ### Blank lines -/

theorem skipSpace_map_eq_linebreak (ending : Linebreak) {tokens rest : List Token}
    {first : Linebreak} (h : skipSpace tokens = .linebreak first :: rest) :
    skipSpace (tokens.map (respellToken ending)) =
      .linebreak ending :: rest.map (respellToken ending) := by
  rw [skipSpace_map, h]
  rfl

theorem skipSpace_map_ne_linebreak {tokens : List Token}
    (h : ∀ first rest, skipSpace tokens = .linebreak first :: rest → False) :
    ∀ first rest, skipSpace (tokens.map (respellToken ending)) ≠ .linebreak first :: rest := by
  intro first rest hm
  rw [skipSpace_map] at hm
  cases hs : skipSpace tokens with
  | nil =>
      rw [hs] at hm
      cases hm
  | cons token after =>
      rw [hs, List.map_cons] at hm
      cases token with
      | linebreak => exact h _ _ hs
      | _ => cases (List.cons.inj hm).1

theorem dropBlankLines_map (tokens : List Token) :
    dropBlankLines (tokens.map (respellToken ending)) =
      (dropBlankLines tokens).map (respellToken ending) := by
  fun_induction dropBlankLines tokens with
  | case1 tokens first rest hs _ ih =>
      rw [dropBlankLines_of_skipSpace_eq (skipSpace_map_eq_linebreak ending hs), ih]
  | case2 tokens hn =>
      rw [dropBlankLines]
      split
      · exact absurd ‹_› (skipSpace_map_ne_linebreak hn _ _)
      · rfl

theorem closesBlock_map (tokens : List Token) :
    closesBlock (tokens.map (respellToken ending)) = closesBlock tokens := by
  rw [closesBlock, skipSpace_map, closesBlock]
  cases skipSpace tokens with
  | nil => rfl
  | cons token rest => cases token <;> rfl

theorem trimScopeEdges_map (tokens : List Token) :
    trimScopeEdges (tokens.map (respellToken ending)) =
      (trimScopeEdges tokens).map (respellToken ending) := by
  fun_induction trimScopeEdges tokens with
  | case1 => simp [trimScopeEdges]
  | case2 rest first following hs _ _ ih =>
      have hm := trimScopeEdges_opening (skipSpace_map_eq_linebreak ending hs)
      rw [dropBlankLines_map, ih, takeWhile_map_respellToken isWhitespace_respellToken] at hm
      simp only [List.map_cons, List.map_append]
      exact hm
  | case3 rest hn ih =>
      change trimScopeEdges (.opening .curly :: _) = _
      rw [trimScopeEdges]
      split
      · exact absurd ‹_› (skipSpace_map_ne_linebreak hn _ _)
      · rw [ih]
        rfl
  | case4 first rest _ hc ih =>
      change trimScopeEdges (.linebreak ending :: _) = _
      rw [trimScopeEdges, dropBlankLines_map, closesBlock_map, if_pos hc, ih]
      rfl
  | case5 first rest _ hc ih =>
      change trimScopeEdges (.linebreak ending :: _) = _
      rw [trimScopeEdges, dropBlankLines_map, closesBlock_map, if_neg hc, ih]
      rfl
  | case6 token rest ho hl ih =>
      rw [List.map_cons, trimScopeEdges, ih, List.map_cons]
      · exact fun h => ho ((respellToken_eq_iff rfl token).1 h)
      · intro first h
        cases token <;> first | exact hl _ rfl | cases h

theorem blankLinesAtScopeEdges_map (options : Options) (tokens : List Token) :
    blankLinesAtScopeEdges { options with linebreak := ending } (tokens.map (respellToken ending)) =
      (blankLinesAtScopeEdges options tokens).map (respellToken ending) := by
  rw [blankLinesAtScopeEdges, trimScopeEdges_map, blankLinesAtScopeEdges]
  split <;> rfl

theorem collapseBlankLines_map (tokens : List Token) :
    collapseBlankLines (tokens.map (respellToken ending)) =
      (collapseBlankLines tokens).map (respellToken ending) := by
  fun_induction collapseBlankLines tokens with
  | case1 => simp [collapseBlankLines]
  | case2 first rest second following hs _ _ ih =>
      have hm : collapseBlankLines (.linebreak ending :: rest.map (respellToken ending)) = _ :=
        collapseBlankLines_linebreak (skipSpace_map_eq_linebreak ending hs)
      rw [dropBlankLines_map, ih, takeWhile_map_respellToken isWhitespace_respellToken] at hm
      simp only [List.map_cons, List.map_append]
      exact hm
  | case3 first rest hn ih =>
      change collapseBlankLines (.linebreak ending :: _) = _
      rw [collapseBlankLines]
      split
      · exact absurd ‹_› (skipSpace_map_ne_linebreak hn _ _)
      · rw [ih]
        rfl
  | case4 token rest hl ih =>
      rw [List.map_cons, collapseBlankLines, ih, List.map_cons]
      intro first h
      cases token <;> first | exact hl _ rfl | cases h

theorem dropBlankTail_map (reversed : List Token) :
    dropBlankTail (reversed.map (respellToken ending)) =
      (dropBlankTail reversed).map (respellToken ending) := by
  fun_induction dropBlankTail reversed with
  | case1 reversed first earlier hs second rest hb _ ih =>
      have hm := skipSpace_map_eq_linebreak ending hs
      have hk := skipSpace_map_eq_linebreak ending hb
      rw [dropBlankTail]
      split
      · rename_i he
        rw [hm] at he
        cases he
        split
        · exact ih
        · rename_i hn
          exact absurd hk (hn _ _)
      · rename_i hn
        exact absurd hm (hn _ _)
  | case2 reversed first earlier hs hn =>
      have hm := skipSpace_map_eq_linebreak ending hs
      rw [dropBlankTail]
      split
      · rename_i he
        rw [hm] at he
        cases he
        split
        · exact absurd ‹_› (skipSpace_map_ne_linebreak hn _ _)
        · rfl
      · rfl
  | case3 reversed hn =>
      rw [dropBlankTail]
      split
      · exact absurd ‹_› (skipSpace_map_ne_linebreak hn _ _)
      · rfl

theorem consecutiveBlankLines_map (options : Options) (tokens : List Token) :
    consecutiveBlankLines { options with linebreak := ending } (tokens.map (respellToken ending)) =
      (consecutiveBlankLines options tokens).map (respellToken ending) := by
  rw [consecutiveBlankLines, collapseBlankLines_map, ← List.map_reverse, dropBlankTail_map,
    ← List.map_reverse, consecutiveBlankLines]

/-! ### Declarations -/

theorem codeAfterBody?_map (ending : Linebreak) (tokens : List Token) :
    codeAfterBody? (tokens.map (respellToken ending)) =
      (codeAfterBody? tokens).map fun (_, rest) => (ending, rest.map (respellToken ending)) := by
  have hc (rest : List Token) :
      continuesWithCode (rest.map (respellToken ending)) = continuesWithCode rest := by
    rw [continuesWithCode, skipSpace_map, continuesWithCode]
    cases skipSpace rest with
    | nil => rfl
    | cons token rest => cases token <;> rfl
  rw [codeAfterBody?, skipSpace_map, codeAfterBody?]
  cases skipSpace tokens with
  | nil => rfl
  | cons token rest =>
      cases token with
      | linebreak first =>
          simp only [List.map_cons, respellToken, hc]
          split <;> rfl
      | _ => rfl

theorem LineView.after_respellToken (view : LineView) (token : Token) :
    view.after (respellToken ending token) = view.after token := by
  cases token <;> rfl

theorem bodiesAfter_respellToken (bodies : List Bool) (view : LineView) (token : Token) :
    bodiesAfter bodies view (respellToken ending token) = bodiesAfter bodies view token := by
  cases token <;> rfl

theorem spaceDeclarations_map (options : Options) (bodies : List Bool) (view : LineView)
    (tokens : List Token) :
    spaceDeclarations { options with linebreak := ending } bodies view
        (tokens.map (respellToken ending)) =
      (spaceDeclarations options bodies view tokens).map (respellToken ending) := by
  have closes (token : Token) : respellToken ending token = .closing .curly ↔ token = .closing .curly :=
    respellToken_eq_iff rfl token
  fun_induction spaceDeclarations options bodies view tokens with
  | case1 => simp [spaceDeclarations]
  | case2 bodies view token rest hb first following hc _ ih =>
      obtain ⟨rfl, hb⟩ := hb
      have hm := codeAfterBody?_map ending rest
      rw [hc] at hm
      refine (spaceDeclarations_of_codeAfterBody? hb hm).trans ?_
      rw [ih, takeWhile_map_respellToken isWhitespace_respellToken]
      simp only [List.map_cons, List.map_append]
      rfl
  | case3 bodies view token rest hb hc ih =>
      obtain ⟨rfl, -⟩ := hb
      have hm := codeAfterBody?_map ending rest
      rw [hc] at hm
      rw [List.map_cons, spaceDeclarations_of_none fun _ => hm]
      exact congrArg _ ih
  | case4 bodies view token rest hb ih =>
      rw [List.map_cons, spaceDeclarations_of_none, bodiesAfter_respellToken,
        LineView.after_respellToken, ih, List.map_cons]
      rw [closes]
      exact fun h => absurd h hb

theorem blankLinesBetweenScopes_map (options : Options) (tokens : List Token) :
    blankLinesBetweenScopes { options with linebreak := ending } (tokens.map (respellToken ending)) =
      (blankLinesBetweenScopes options tokens).map (respellToken ending) := by
  rw [blankLinesBetweenScopes, spaceDeclarations_map, blankLinesBetweenScopes]
  split <;> rfl

/-! ### Ends of lines -/

theorem trimLines_map (options : Options) (lineStart : Bool) (tokens : List Token) :
    trimLines { options with linebreak := ending } lineStart (tokens.map (respellToken ending)) =
      (trimLines options lineStart tokens).map (respellToken ending) := by
  have he (rest : List Token) : atLineEnd (rest.map (respellToken ending)) = atLineEnd rest := by
    cases rest with
    | nil => rfl
    | cons token rest => cases token <;> rfl
  fun_induction trimLines options lineStart tokens with
  | case1 => rfl
  | case2 lineStart text rest hc ih =>
      change trimLines _ lineStart (.whitespace text :: _) = _
      rw [trimLines, he, List.isEmpty_map, if_pos hc, ih]
  | case3 lineStart text rest hc ih =>
      change trimLines _ lineStart (.whitespace text :: _) = _
      rw [trimLines, he, List.isEmpty_map, if_neg hc, ih]
      rfl
  | case4 lineStart text rest ih => simp [respellToken, trimLines, ih]
  | case5 lineStart first rest ih => simp [respellToken, trimLines, ih]
  | case6 lineStart token rest hw hc hl ih =>
      cases token <;> simp_all [trimLines, respellToken]

end

/-- Of the rules, all but the one that indents go with respelling. -/
theorem apply_map {rule : Rule} (hr : rule ∈ all) (hi : rule.name ≠ "indent") (options : Options)
    (ending : Linebreak) (tokens : List Token) :
    rule.apply { options with linebreak := ending } (tokens.map (respellToken ending)) =
      (rule.apply options tokens).map (respellToken ending) := by
  cases hr using mem_all_cases with
  | linebreaks =>
      simp only [linebreaks, List.map_map]
      refine List.map_congr_left fun token _ => ?_
      rw [Function.comp_apply, Function.comp_apply, respellToken_respellToken,
        respellToken_respellToken]
  | header => exact header_map options tokens
  | semicolons => exact semicolonsFrom_map options 0 tokens
  | ranges => exact ranges_map options tokens
  | voidTypes => exact voidTypes_map options tokens
  | hexLiterals => exact hexLiterals_map options tokens
  | trailingCommas => exact trailingCommas_map options tokens
  | braces => exact braces_map options tokens
  | blankLinesAtScopeEdges => exact blankLinesAtScopeEdges_map options tokens
  | blankLinesBetweenScopes => exact blankLinesBetweenScopes_map options tokens
  | consecutiveBlankLines => exact consecutiveBlankLines_map options tokens
  | indentation => exact absurd rfl hi
  | trailingWhitespace => exact trimLines_map options true tokens

end SourceStyle.Rule
