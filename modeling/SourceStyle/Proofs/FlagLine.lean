import Mathlib
import SourceStyle.Invocation
import SourceStyle.Proofs.OptionKeys
import SourceStyle.Proofs.Placement
import SourceStyle.Proofs.Vocabulary

/-!
Options shown as a line of flags are read back from it. The flags take every value that is shown but
an indentation wider than they allow, and no options that were resolved or inferred have one.
-/

namespace SourceStyle

def words (line : String) : List String :=
  (line.toList.splitOn ' ').map String.ofList

theorem words_intercalate {parts : List String} (hn : parts ≠ [])
    (hs : ∀ part ∈ parts, ' ' ∉ part.toList) : words (String.intercalate " " parts) = parts := by
  have hl : ∀ part ∈ parts.map String.toList, ' ' ∉ part := List.forall_mem_map.2 hs
  have hm : parts.map String.toList ≠ [] := mt List.map_eq_nil_iff.1 hn
  rw [words, String.toList_intercalate]
  exact (congrArg _ (List.splitOn_intercalate ' ' hl hm)).trans (by simp)

def spread (flags : List (String × String)) : List String :=
  flags.flatMap fun (key, value) => ["--" ++ key, value]

theorem spread_cons (key value : String) (flags : List (String × String)) :
    spread ((key, value) :: flags) = ("--" ++ key) :: value :: spread flags :=
  List.flatMap_cons ..

theorem intercalate_spread (flags : List (String × String)) :
    String.intercalate " " (flags.map fun (key, value) => "--" ++ key ++ " " ++ value) =
      String.intercalate " " (spread flags) := by
  induction flags with
  | nil => rfl
  | cons flag flags ih =>
      obtain ⟨key, value⟩ := flag
      rw [spread_cons, List.map_cons]
      cases flags with
      | nil => simp [spread]
      | cons next flags =>
          rw [String.intercalate_cons_of_ne_nil (by simp), ih,
            String.intercalate_cons_of_ne_nil (by simp), String.intercalate_cons_of_ne_nil (by simp [spread])]
          simp only [String.append_assoc]

theorem words_flagLine (options : Options) :
    words (Invocation.flagLine options) = spread options.flags := by
  rw [Invocation.flagLine, intercalate_spread]
  refine words_intercalate (by simp [spread, Options.flags]) fun part hm => ?_
  obtain ⟨flag, hf, hp⟩ := List.mem_flatMap.1 hm
  obtain ⟨hk, hv⟩ := Options.isPlainWord_of_mem_flags flag hf
  have hk := Options.notMem_of_isPlainWord hk (by decide : Options.isPlainChar ' ' = false)
  have hv := Options.notMem_of_isPlainWord hv (by decide : Options.isPlainChar ' ' = false)
  simp only [List.mem_cons, List.not_mem_nil, or_false] at hp
  rcases hp with rfl | rfl
  · simp [hk]
  · exact hv

namespace CommandLine

theorem isPlain_of_isPlainWord {value : String} (hv : Options.isPlainWord value = true) :
    IsPlain value := by
  obtain ⟨c, rest, he, hc, -⟩ := Options.isPlainWord_eq_true hv
  refine ⟨?_, by simpa [he] using hc⟩
  rintro rfl
  cases he

theorem spread_eq (flags : List (String × String)) :
    spread flags = (partsOf flags [] []).flatMap Part.words := by
  simp [spread, partsOf, List.flatMap_map, Part.words]

namespace Reading

/-- Flags that follow each other with their values are read in order. -/
theorem finish_spread {flags earlier : List (String × String)} {reading : Reading}
    (hs : reading.settle = .ok { flags := earlier })
    (hf : ∀ flag ∈ flags, flag.1 ∈ valueKeys ∧ Options.isPlainWord flag.2 = true)
    (hn : ((earlier ++ flags).map Prod.fst).Nodup) (ha : reading.awaiting = false := by rfl) :
    reading.finish (spread flags) = .ok { flags := earlier ++ flags } := by
  have hp : ∀ part ∈ partsOf flags [] [], part.Regular :=
    regular_of_mem_partsOf (fun flag hm => ⟨(hf flag hm).1, isPlain_of_isPlainWord (hf flag hm).2⟩)
      nofun nofun
  have hk : (partsOf flags [] []).filterMap Part.flag? = flags := by
    rw [filterMap_flag?_partsOf, List.map_nil, List.append_nil]
  have hi : (partsOf flags [] []).filterMap Part.input? = [] := by
    simp [partsOf, Part.input?]
  have h := finish_parts ⟨ha, hs⟩ hp (hk.symm ▸ hn)
  rwa [← spread_eq, hk, hi] at h

end Reading

end CommandLine

namespace Options

theorem keys_flags (options : Options) : options.flags.map Prod.fst =
    ["indent", "allman", "linebreaks", "semicolons", "commas", "comments", "ranges", "empty",
      "trimwhitespace", "insertlines", "removelines", "header", "ifdef", "hexliterals",
      "experimental", "fragment"] := rfl

/-- Whether flags can ask for the indentation. -/
def Narrow (options : Options) : Prop :=
  ∀ width, options.indent = .spaces width → width ≤ 64

theorem isPlainChar_ascii {c : Char} (h : isPlainChar c = true) : c.toNat < 0x80 := by
  simp only [isPlainChar, Char.isLower, Char.isDigit, Bool.or_eq_true, Bool.and_eq_true,
    decide_eq_true_eq, beq_iff_eq] at h
  rcases h with (⟨-, h⟩ | ⟨-, h⟩) | rfl
  · exact lt_of_le_of_lt (UInt32.le_iff_toNat_le.1 h) (by decide)
  · exact lt_of_le_of_lt (UInt32.le_iff_toNat_le.1 h) (by decide)
  · decide

theorem toLower_of_isPlainChar {c : Char} (h : isPlainChar c = true) : c.toLower = c := by
  have hl : isPlainChar c = true → c.toLower = c := Text.of_ascii (isPlainChar_ascii h) (by decide)
  exact hl h

theorem lowered_of_isPlainWord {word : String} (h : isPlainWord word = true) :
    lowered word = word := by
  obtain ⟨-, -, -, -, hp⟩ := isPlainWord_eq_true h
  have hl : word.toList.map Char.toLower = word.toList.map id :=
    List.map_congr_left fun c hm => toLower_of_isPlainChar (hp c hm)
  rw [lowered, Text.lower, Text.lowerAfter_of_ascii fun c hm => isPlainChar_ascii (hp c hm), hl,
    List.map_id, String.ofList_toList]

theorem chosen_plain {α : Type} {value : String} {default choice : α} {Means : String → α → Prop}
    (hp : isPlainWord value = true) (hm : Means value choice) :
    Chosen (some value) default Means choice := by
  obtain ⟨c, rest, he, -, -⟩ := isPlainWord_eq_true hp
  refine ⟨?_, ?_⟩
  · rintro rfl
    cases he
  · rw [lowered_of_isPlainWord hp]
    exact hm

theorem chosen_switch {yes no : String} {on off : List String} {default choice : Bool}
    (hp : isPlainWord yes = true ∧ isPlainWord no = true) (hm : yes ∈ on ∧ no ∈ off) :
    Chosen (some (if choice then yes else no)) default (Switches on off) choice := by
  cases choice with
  | true => exact chosen_plain hp.1 hm.1
  | false => exact chosen_plain hp.2 hm.2

theorem spellsWidth_toString {width : Nat} (h : width ≤ 64) : SpellsWidth (toString width) width := by
  have hl : (toString width).toList = Nat.toDigits 10 width := Nat.toList_repr
  refine ⟨[], Nat.toDigits 10 width, hl, .inl rfl, Nat.toDigits_ne_nil, ?_, ?_, h⟩
  · exact fun c => Nat.isDigit_of_mem_toDigits (by decide) (by decide)
  · exact Nat.ofDigitChars_toDigits (by decide) (by decide)

theorem narrow_of_documented {flag : String → Option String} {options : Options}
    (h : Documented flag options) : options.Narrow := by
  intro width hw
  have hi := h.indent
  rw [hw] at hi
  cases hf : flag "indent" with
  | none =>
      rw [hf] at hi
      obtain rfl : width = 4 := Indent.spaces.inj hi
      decide
  | some value =>
      rw [hf] at hi
      obtain ⟨-, ⟨-, ht⟩ | ⟨other, hs, he⟩⟩ := hi
      · cases ht
      · obtain ⟨-, -, -, -, -, -, -, hle⟩ := hs
        rwa [Indent.spaces.inj he]

/-- The flags of options stand for them if the indentation is narrow enough for its flag. -/
theorem documented_flags {options : Options} (h : options.Narrow) :
    Documented (CommandLine.Arguments.flag? { flags := options.flags }) options := by
  refine ⟨?_, ?_, ?_, ?_, ?_, ?_, ?_, ?_, ?_, ?_, ?_, ?_, ?_, ?_, ?_, ?_⟩
  case refine_1 =>
    refine chosen_plain (isPlainWord_indentValue _) ?_
    cases hi : options.indent with
    | tab => exact .inl ⟨by decide, rfl⟩
    | spaces width => exact .inr ⟨width, spellsWidth_toString (h width hi), rfl⟩
  case refine_6 =>
    change Chosen (some options.linebreak.name) _ _ _
    refine chosen_plain ?_ ?_
    · cases options.linebreak <;> decide
    · cases options.linebreak <;> simp [Names, Linebreak.name]
  case refine_13 =>
    change Chosen (some options.directiveIndent.name) _ _ _
    refine chosen_plain ?_ ?_
    · cases options.directiveIndent <;> decide
    · cases options.directiveIndent <;> simp [Names, DirectiveIndent.name]
  all_goals exact chosen_switch (by decide) (by decide)

end Options

namespace Inference

open Token

theorem plurality_mem {α : Type} [DecidableEq α] (votes : List α) (default : α) :
    plurality votes default ∈ default :: votes := by
  unfold plurality
  dsimp only
  split
  · rename_i leader hl
    have hm : leader ∈ votes.eraseDups := List.mem_of_mem_filter (hl ▸ List.mem_cons_self)
    exact List.mem_cons_of_mem _ (List.mem_eraseDups.1 hm)
  · exact List.mem_cons_self

/-- Whether every vote on the indentation is one that flags can ask for. -/
def Votes.Narrow (votes : Votes) : Prop :=
  ∀ width, .spaces width ∈ votes.indent → width ≤ 64

theorem Votes.Narrow.append {votes more : Votes} (hv : votes.Narrow) (hm : more.Narrow) :
    (votes.append more).Narrow := by
  intro width h
  rcases List.mem_append.1 h with h | h
  · exact hv width h
  · exact hm width h

theorem stepVote?_narrow {outer inner : List Char} {width : Nat}
    (h : stepVote? outer inner = some (.spaces width)) : width ≤ 64 := by
  unfold stepVote? at h
  split at h
  · split at h
    · cases h
    · split at h
      · cases h
      · split at h
        · cases h
          assumption
        · cases h
  · cases h

theorem indentVotes_narrow {lines : List (List Token)} {width : Nat}
    (h : .spaces width ∈ indentVotes lines) : width ≤ 64 := by
  fun_induction indentVotes lines with
  | case1 outer inner rest vote ih =>
      rcases List.mem_append.1 h with hv | hr
      · have hs : vote = some (.spaces width) := Option.mem_toList.1 hv
        unfold vote at hs
        split at hs
        · exact stepVote?_narrow hs
        · cases hs
      · exact ih hr
  | case2 => cases h

theorem observe_narrow (tokens : List Token) : (observe tokens).Narrow :=
  fun _ => indentVotes_narrow

theorem observeSource_narrow (source : String) : (observeSource source).Narrow := by
  unfold observeSource
  split
  · exact observe_narrow _
  · exact nofun

theorem observeFiles_narrow (tree : FileTree) (files : List String) :
    (observeFiles tree files).Narrow := by
  unfold observeFiles
  refine List.foldlRecOn files _ nofun ?_
  intro votes h file _
  split
  · exact h.append (observeSource_narrow _)
  · exact h

theorem options_narrow {votes : Votes} (h : votes.Narrow) : votes.options.Narrow := by
  intro width hw
  have hm := plurality_mem votes.indent (.spaces 4)
  change votes.options.indent ∈ _ at hm
  rw [hw] at hm
  rcases List.mem_cons.1 hm with hd | hv
  · rw [Indent.spaces.inj hd]
    decide
  · exact h width hv

end Inference

/-- Options that flags were resolved to or that source files suggested. -/
inductive Obtained (options : Options) : Prop where
  | resolved (arguments : CommandLine.Arguments) (h : arguments.options = .ok options)
  | inferred (tree : FileTree) (root : String) (count : Nat)
      (h : Inference.inferOptions tree root = .ok (count, options))

theorem Obtained.narrow {options : Options} (h : Obtained options) : options.Narrow := by
  cases h with
  | resolved arguments h => exact Options.narrow_of_documented (Options.resolve_eq_ok.1 h)
  | inferred tree root count h =>
      unfold Inference.inferOptions at h
      split at h
      · cases h
      · cases h
        exact Inference.options_narrow (Inference.observeFiles_narrow tree _)

/-- Options that were resolved or inferred come back from the line of flags that shows them. -/
theorem flagLine_read {options : Options} (h : Obtained options) :
    CommandLine.read (words (Invocation.flagLine options)) =
        .ok { flags := options.flags, inputs := [] } ∧
      CommandLine.Arguments.options { flags := options.flags, inputs := [] } = .ok options := by
  constructor
  · rw [words_flagLine]
    have hk : ∀ key ∈ options.flags.map Prod.fst, key ∈ CommandLine.valueKeys := by
      rw [Options.keys_flags]
      decide
    have hn : (options.flags.map Prod.fst).Nodup := by
      rw [Options.keys_flags]
      decide
    have hf : ∀ flag ∈ options.flags,
        flag.1 ∈ CommandLine.valueKeys ∧ Options.isPlainWord flag.2 = true := by
      intro flag hm
      exact ⟨hk _ (List.mem_map_of_mem hm), (Options.isPlainWord_of_mem_flags flag hm).2⟩
    have hs : CommandLine.Reading.settle {} = .ok { flags := [] } := rfl
    exact CommandLine.read_of_finish (CommandLine.Reading.finish_spread hs hf hn)
  · exact Options.resolve_eq_ok.2 (Options.documented_flags h.narrow)

set_option maxRecDepth 10000 in
theorem flagLine_read_inferred :
    let tree : FileTree :=
      { entries := [(["a.swift"], .file "f \x7b\r\n\tg\r\n\x7d\r\n".toByteArray)] }
    let options : Options :=
      { indent := .tab, linebreak := .crlf, inlineSemicolons := false }
    Inference.inferOptions tree "a.swift" = .ok (1, options) ∧
      CommandLine.read (words (Invocation.flagLine options)) =
        .ok { flags := options.flags, inputs := [] } := by
  intro tree options
  have h : Inference.inferOptions tree "a.swift" = .ok (1, options) := by decide +kernel
  exact ⟨h, (flagLine_read (.inferred tree "a.swift" 1 h)).1⟩

end SourceStyle
