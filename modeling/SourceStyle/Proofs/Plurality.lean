import Mathlib
import SourceStyle.Inference
import SourceStyle.Proofs.Files.Listing

/-!
Inference is an election. Each choice goes to the value with more votes than every other, and stays
at its default if there is none. What files are called and the order in which they are read do not
matter, nor do files that cannot be read as source, except to their number.
-/

namespace SourceStyle

namespace Inference

open Token

/-- A value has more votes than every other. -/
def Leads {α : Type} (votes : α → Nat) (value : α) : Prop :=
  ∀ other, other ≠ value → votes other < votes value

/-- The outcome of a vote: the value that leads, or the default where none does. -/
def Elects {α : Type} (votes : α → Nat) (default outcome : α) : Prop :=
  Leads votes outcome ∨ outcome = default ∧ ∀ value, ¬Leads votes value

theorem Leads.eq {α : Type} {votes : α → Nat} {first second : α} (hf : Leads votes first)
    (hs : Leads votes second) : first = second := by
  by_contra hn
  exact Nat.lt_asymm (hf second (Ne.symm hn)) (hs first hn)

theorem Elects.eq {α : Type} {votes : α → Nat} {default first second : α}
    (hf : Elects votes default first) (hs : Elects votes default second) : first = second := by
  rcases hf with hf | ⟨rfl, hn⟩ <;> rcases hs with hs | ⟨rfl, hm⟩
  · exact hf.eq hs
  · exact absurd hf (hm first)
  · exact absurd hs (hn second)
  · rfl

section
variable {α : Type} [DecidableEq α] {votes : List α} {value default : α}

theorem nodup_eraseDups (votes : List α) : votes.eraseDups.Nodup := by
  match votes with
  | [] => simp
  | first :: rest =>
      rw [List.eraseDups_cons, List.nodup_cons]
      exact ⟨by simp, nodup_eraseDups _⟩
termination_by votes.length
decreasing_by exact Nat.lt_succ_of_le (List.length_filter_le ..)

def leaders (votes : List α) : List α :=
  votes.eraseDups.filter fun v => votes.eraseDups.all fun w => votes.count w ≤ votes.count v

theorem mem_leaders :
    value ∈ leaders votes ↔ value ∈ votes ∧ ∀ other ∈ votes, votes.count other ≤ votes.count value := by
  rw [leaders, List.mem_filter]
  simp

theorem leaders_eq_singleton :
    leaders votes = [value] ↔ value ∈ votes ∧ Leads (votes.count ·) value := by
  constructor
  · intro h
    have hv : ∀ other, other ∈ leaders votes ↔ other = value := by simp [h]
    obtain ⟨hm, hl⟩ := mem_leaders.1 ((hv value).2 rfl)
    refine ⟨hm, fun other hn => ?_⟩
    change votes.count other < votes.count value
    by_cases ho : other ∈ votes
    · refine lt_of_le_of_ne (hl other ho) fun he => hn ((hv other).1 (mem_leaders.2 ⟨ho, ?_⟩))
      rwa [he]
    · rw [List.count_eq_zero.2 ho]
      exact List.count_pos_iff.2 hm
  · rintro ⟨hm, hl⟩
    have hd : (leaders votes).Nodup := (nodup_eraseDups votes).filter _
    refine List.perm_singleton.1 ((List.perm_ext_iff_of_nodup hd (List.nodup_singleton value)).2 ?_)
    intro other
    rw [mem_leaders, List.mem_singleton]
    constructor
    · rintro ⟨-, ho⟩
      by_contra hn
      exact absurd (hl other hn) (Nat.not_lt.2 (ho value hm))
    · rintro rfl
      refine ⟨hm, fun w hw => ?_⟩
      by_cases he : w = other
      · rw [he]
      · exact Nat.le_of_lt (hl w he)

theorem plurality_of_leads (hm : value ∈ votes) (hl : Leads (votes.count ·) value) :
    plurality votes default = value := by
  have h := leaders_eq_singleton.2 ⟨hm, hl⟩
  rw [leaders] at h
  simp only [plurality, h]

theorem plurality_of_not (h : ∀ value ∈ votes, ¬Leads (votes.count ·) value) :
    plurality votes default = default := by
  unfold plurality
  dsimp only
  split
  · rename_i leader he
    obtain ⟨hm, hl⟩ := leaders_eq_singleton.1 he
    exact absurd hl (h leader hm)
  · rfl

theorem elects_plurality (votes : List α) (default : α) :
    Elects (votes.count ·) default (plurality votes default) := by
  by_cases hv : ∃ value ∈ votes, Leads (votes.count ·) value
  · obtain ⟨value, hm, hl⟩ := hv
    rw [plurality_of_leads hm hl]
    exact .inl hl
  · have hn : ∀ value ∈ votes, ¬Leads (votes.count ·) value := fun value hm hl => hv ⟨value, hm, hl⟩
    rw [plurality_of_not hn]
    by_cases hl : Leads (votes.count ·) default
    · exact .inl hl
    · refine .inr ⟨rfl, fun value h => ?_⟩
      have hd : default ≠ value := by
        rintro rfl
        exact hl h
      have hc : votes.count default < votes.count value := h default hd
      exact hn value (List.count_pos_iff.1 (Nat.zero_lt_of_lt hc)) h

end

/-- The tokens of a source file, if it can be read and is source. -/
def sourceTokens? (bytes : ByteArray) : Option (List Token) :=
  (Text.decode? bytes).bind fun source => (tokenize source).toOption

/-- The number of votes for a value on one choice, over all sources. -/
def votesFor {α : Type} [DecidableEq α] (choice : Votes → List α) (sources : List (List Token))
    (value : α) : Nat :=
  (sources.map fun tokens => (choice (observe tokens)).count value).sum

theorem votesFor_perm {α : Type} [DecidableEq α] {choice : Votes → List α}
    {sources others : List (List Token)} (h : sources.Perm others) :
    votesFor choice sources = votesFor choice others := by
  funext value
  exact (h.map _).sum_eq

/-- One of the choices that is voted on: the votes of files together are those of each. -/
structure IsChoice {α : Type} (choice : Votes → List α) : Prop where
  empty : choice {} = []
  append : ∀ votes more, choice (votes.append more) = choice votes ++ choice more

def sourcesOf (tree : FileTree) (files : List String) : List (List Token) :=
  files.filterMap fun file => (tree.readBytes file).toOption.bind sourceTokens?

theorem sourcesOf_perm {tree : FileTree} {files : List String} {contents : List ByteArray}
    (h : (files.map tree.readBytes).Perm (contents.map .ok)) :
    (sourcesOf tree files).Perm (contents.filterMap sourceTokens?) := by
  have hf := h.filterMap fun read => read.toOption.bind sourceTokens?
  rwa [List.filterMap_map, List.filterMap_map] at hf

theorem observeFiles_snoc (tree : FileTree) (files : List String) (file : String) :
    observeFiles tree (files ++ [file]) =
      match tree.readText file with
      | .ok source => (observeFiles tree files).append (observeSource source)
      | .error _ => observeFiles tree files := by
  rw [observeFiles, List.foldl_append]
  rfl

section
variable {α : Type} [DecidableEq α] {choice : Votes → List α}

theorem votesFor_append (first second : List (List Token)) (value : α) :
    votesFor choice (first ++ second) value = votesFor choice first value + votesFor choice second value := by
  rw [votesFor, List.map_append, List.sum_append]
  rfl

theorem count_observeSource (hc : IsChoice choice) (source : String) (value : α) :
    (choice (observeSource source)).count value =
      votesFor choice (tokenize source).toOption.toList value := by
  unfold observeSource
  cases tokenize source with
  | error fault =>
      rw [hc.empty]
      rfl
  | ok tokens => exact (Nat.add_zero _).symm

theorem count_observeFiles (hc : IsChoice choice) (tree : FileTree) (files : List String) (value : α) :
    (choice (observeFiles tree files)).count value = votesFor choice (sourcesOf tree files) value := by
  induction files using List.reverseRecOn with
  | nil =>
      rw [observeFiles, List.foldl_nil, hc.empty]
      rfl
  | append_singleton files file ih =>
      have hs : sourcesOf tree (files ++ [file]) =
          sourcesOf tree files ++ ((tree.readBytes file).toOption.bind sourceTokens?).toList := by
        rw [sourcesOf, List.filterMap_append, List.filterMap_cons]
        cases (tree.readBytes file).toOption.bind sourceTokens? <;> rfl
      rw [observeFiles_snoc, hs, votesFor_append, ← ih, FileTree.readText]
      cases tree.readBytes file with
      | error fault => rfl
      | ok bytes =>
          cases hd : Text.decode? bytes with
          | none => simp [sourceTokens?, hd, Except.toOption, votesFor]
          | some source =>
              simp only [hc.append, List.count_append, count_observeSource hc, sourceTokens?, hd,
                Except.toOption, Option.bind_some]
end

/-- Each choice that is voted on is the outcome of its votes over all sources. -/
structure Elected (sources : List (List Token)) (options : Options) : Prop where
  indent : Elects (votesFor Votes.indent sources) (.spaces 4) options.indent
  linebreak : Elects (votesFor Votes.linebreak sources) .lf options.linebreak
  allmanBraces : Elects (votesFor Votes.allmanBraces sources) false options.allmanBraces
  inlineSemicolons : Elects (votesFor Votes.inlineSemicolons sources) true options.inlineSemicolons
  trailingCommas : Elects (votesFor Votes.trailingCommas sources) true options.trailingCommas
  spacedRanges : Elects (votesFor Votes.spacedRanges sources) true options.spacedRanges
  useVoid : Elects (votesFor Votes.useVoid sources) true options.useVoid
  truncateBlankLines : Elects (votesFor Votes.truncateBlankLines sources) true
    options.truncateBlankLines
  uppercaseHex : Elects (votesFor Votes.uppercaseHex sources) true options.uppercaseHex
  others : options = { ({} : Options) with
    indent := options.indent
    linebreak := options.linebreak
    allmanBraces := options.allmanBraces
    inlineSemicolons := options.inlineSemicolons
    trailingCommas := options.trailingCommas
    spacedRanges := options.spacedRanges
    useVoid := options.useVoid
    truncateBlankLines := options.truncateBlankLines
    uppercaseHex := options.uppercaseHex }

theorem Elected.eq {sources : List (List Token)} {first second : Options}
    (hf : Elected sources first) (hs : Elected sources second) : first = second := by
  rw [hf.others, hs.others, hf.indent.eq hs.indent, hf.linebreak.eq hs.linebreak,
    hf.allmanBraces.eq hs.allmanBraces, hf.inlineSemicolons.eq hs.inlineSemicolons,
    hf.trailingCommas.eq hs.trailingCommas, hf.spacedRanges.eq hs.spacedRanges,
    hf.useVoid.eq hs.useVoid, hf.truncateBlankLines.eq hs.truncateBlankLines,
    hf.uppercaseHex.eq hs.uppercaseHex]

theorem Elected.of_perm {sources others : List (List Token)} {options : Options}
    (hp : sources.Perm others) (h : Elected sources options) : Elected others options := by
  constructor
  case others => exact h.others
  all_goals rw [← votesFor_perm hp]
  exacts [h.indent, h.linebreak, h.allmanBraces, h.inlineSemicolons, h.trailingCommas,
    h.spacedRanges, h.useVoid, h.truncateBlankLines, h.uppercaseHex]

theorem elected_observeFiles (tree : FileTree) (files : List String) :
    Elected (sourcesOf tree files) (observeFiles tree files).options := by
  have he : ∀ {α : Type} [DecidableEq α] {choice : Votes → List α} (_ : IsChoice choice) (default : α),
      Elects (votesFor choice (sourcesOf tree files)) default
        (plurality (choice (observeFiles tree files)) default) := by
    intro α _ choice hc default
    have hv := elects_plurality (choice (observeFiles tree files)) default
    rwa [funext (count_observeFiles hc tree files)] at hv
  constructor
  case others => rfl
  all_goals exact he ⟨rfl, fun _ _ => rfl⟩ _

section
variable {tree : FileTree} {root : String} {place : Location}

theorem exists_inferOptions (hs : tree.Sound) (hr : tree.resolve root = .ok place) :
    ∃ options, inferOptions tree root = .ok ((tree.sourceContents place).length, options) ∧
      Elected ((tree.sourceContents place).filterMap sourceTokens?) options := by
  obtain ⟨files, hf, hp⟩ := FileTree.exists_sourceFiles_perm hs hr
  refine ⟨_, ?_, (elected_observeFiles tree files).of_perm (sourcesOf_perm hp)⟩
  have hl := hp.length_eq
  rw [List.length_map, List.length_map] at hl
  rw [inferOptions, hf, ← hl]

/-- Inferred options are elected by the files that can be read as source, each choice by its own
votes. Files with the same sources among them elect the same options, whatever their names, their
order and the files between that are no source. -/
theorem inferOptions_elected (hs : tree.Sound) (hr : tree.resolve root = .ok place) :
    ∃ options, inferOptions tree root = .ok ((tree.sourceContents place).length, options) ∧
      Elected ((tree.sourceContents place).filterMap sourceTokens?) options ∧
      ∀ other otherRoot otherPlace, other.Sound → other.resolve otherRoot = .ok otherPlace →
        ((other.sourceContents otherPlace).filterMap sourceTokens?).Perm
          ((tree.sourceContents place).filterMap sourceTokens?) →
        inferOptions other otherRoot = .ok ((other.sourceContents otherPlace).length, options) := by
  obtain ⟨options, hi, he⟩ := exists_inferOptions hs hr
  refine ⟨options, hi, he, fun other otherRoot otherPlace hs hr hp => ?_⟩
  obtain ⟨found, hf, hv⟩ := exists_inferOptions hs hr
  rwa [(hv.of_perm hp).eq he] at hf

def ballotTree : FileTree where
  entries := [(["lib"], .directory), (["lib", "a.swift"], .file "0xa\n".toUTF8),
    (["lib", "b.swift"], .file "0xb".toUTF8), (["lib", "c.swift"], .file "\"".toUTF8)]

/-- The sources of these files, under other names. -/
def renamedTree : FileTree where
  entries := [(["z.swift"], .file "0xa\n".toUTF8), (["y"], .directory),
    (["y", "x.swift"], .file "0xb".toUTF8)]

theorem inferOptions_elected_renamed : ∃ options,
    inferOptions ballotTree "lib" = .ok (3, options) ∧ inferOptions renamedTree "." = .ok (2, options) ∧
      options.uppercaseHex = false := by
  have hs : ballotTree.sourceContents ["lib"] =
      ["0xa\n".toUTF8, "0xb".toUTF8, "\"".toUTF8] := by decide +kernel
  have ho : renamedTree.sourceContents [] = ["0xa\n".toUTF8, "0xb".toUTF8] := by decide +kernel
  obtain ⟨options, hi, he, h⟩ := @inferOptions_elected ballotTree "lib" ["lib"] (by decide)
    (by decide +kernel)
  have hr := h renamedTree "." [] (by decide) (by decide +kernel) (by decide +kernel)
  rw [hs] at hi he
  rw [ho] at hr
  refine ⟨options, hi, hr, he.uppercaseHex.eq (.inl ?_)⟩
  unfold Leads
  decide +kernel

end

end Inference

end SourceStyle
