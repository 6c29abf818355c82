import Mathlib
import SourceStyle.Invocation
import SourceStyle.Proofs.Copying

/-!
Where flags stand on a command line. Flags with their values may be put in any order and anywhere
among the inputs: the same arguments are read, and no invocation tells them apart.
-/

namespace SourceStyle

namespace CommandLine

/-- What stands together on a command line: a flag with its value, a flag that takes none, or an
input. -/
inductive Part where
  | flag (key value : String)
  | switch (key : String)
  | input (path : String)
deriving DecidableEq, Repr

/-- A text that is not taken for a flag. -/
def IsPlain (text : String) : Prop :=
  text ≠ "" ∧ text.toList.head? ≠ some '-'

instance (text : String) : Decidable (IsPlain text) :=
  inferInstanceAs (Decidable (_ ∧ _))

namespace Part

def words : Part → List String
  | flag key value => ["--" ++ key, value]
  | switch key => ["--" ++ key]
  | input path => [path]

def flag? : Part → Option (String × String)
  | flag key value => some (key, value)
  | switch key => some (key, "")
  | input _ => none

def input? : Part → Option String
  | flag _ _ | switch _ => none
  | input path => some path

/-- A part with a known key, and with a value or input that is not taken for a flag. -/
def Regular : Part → Prop
  | flag key value => key ∈ valueKeys ∧ IsPlain value
  | switch key => key ∈ switchKeys
  | input path => IsPlain path

end Part

theorem shape_flag {key : String} (hk : key ∈ recognizedKeys) :
    shape ("--" ++ key).toList = .long key.toList none := by
  revert key
  decide

theorem not_mem_valueKeys {key : String} (h : key ∈ switchKeys) : key ∉ valueKeys := by
  intro hv
  have hn := (List.mem_filter.1 hv).2
  rw [List.contains_iff_mem.2 h] at hn
  cases hn

theorem shape_of_isPlain {text : String} (h : IsPlain text) : shape text.toList = .plain := by
  obtain ⟨-, hh⟩ := h
  unfold shape
  split <;> simp_all

namespace Reading

/-- The arguments read so far are settled, or will be by the flag that has its value already. -/
structure Settles (reading : Reading) (arguments : Arguments) : Prop where
  awaiting : reading.awaiting = false
  settle : reading.settle = .ok arguments

theorem addFlag_of_new {arguments : Arguments} {key : String}
    (hn : key ∉ arguments.flags.map Prod.fst) (value : String) :
    addFlag arguments key value = .ok { arguments with flags := arguments.flags ++ [(key, value)] } := by
  have hl : arguments.flags.lookup key = none := by
    refine List.lookup_eq_none_iff.2 fun flag hm => bne_iff_ne.2 fun he => hn ?_
    exact List.mem_map.2 ⟨flag, hm, he.symm⟩
  rw [addFlag, Arguments.flag?, hl]
  rfl

variable {reading : Reading} {arguments : Arguments}

/-- One part is read to its end, and nothing else changes. -/
theorem finish_part {part : Part} (hs : reading.Settles arguments) (hp : part.Regular)
    (hn : ∀ flag ∈ part.flag?, flag.1 ∉ arguments.flags.map Prod.fst) (rest : List String) :
    ∃ next : Reading, reading.finish (part.words ++ rest) = next.finish rest ∧
      next.Settles { flags := arguments.flags ++ part.flag?.toList,
                     inputs := arguments.inputs ++ part.input?.toList } := by
  cases part with
  | flag key value =>
      obtain ⟨hk, hv⟩ := hp
      refine ⟨{ arguments, pending := some (key, value) }, ?_, rfl, ?_⟩
      · have hl : reading.long key none =
            .ok { arguments, pending := some (key, ""), awaiting := true } := by
          rw [long, if_pos (List.contains_iff_mem.2 hk), hs.settle]
          rfl
        rw [Part.words, List.cons_append, finish, shape_flag (mem_recognizedKeys (.inl hk))]
        simp only [Option.map_none, String.ofList_toList, hl]
        change finish _ _ = _
        rw [List.singleton_append, finish, shape_of_isPlain hv]
        rfl
      · rw [Part.input?, Option.toList_none, List.append_nil]
        exact addFlag_of_new (hn (key, value) rfl) value
  | switch key =>
      have hk : ¬valueKeys.contains key = true := mt List.contains_iff_mem.1 (not_mem_valueKeys hp)
      have ha := addFlag_of_new (hn (key, "") rfl) ""
      refine ⟨{ arguments := { arguments with flags := arguments.flags ++ [(key, "")] } }, ?_, rfl, ?_⟩
      · have hl : reading.long key none =
            .ok { arguments := { arguments with flags := arguments.flags ++ [(key, "")] } } := by
          rw [long, if_neg hk, if_pos (List.contains_iff_mem.2 hp), settleAnd, hs.settle]
          change addFlag arguments key "" >>= _ = _
          rw [ha]
          rfl
        rw [Part.words, List.singleton_append, finish, shape_flag (mem_recognizedKeys (.inr hp))]
        simp only [Option.map_none, String.ofList_toList, hl]
        rfl
      · rw [Part.input?, Option.toList_none, List.append_nil]
        rfl
  | input path =>
      refine ⟨{ arguments := { arguments with inputs := arguments.inputs ++ [path] } }, ?_, rfl, ?_⟩
      · have hl : reading.plain path =
            .ok { arguments := { arguments with inputs := arguments.inputs ++ [path] } } := by
          rw [plain, hs.awaiting]
          dsimp only
          rw [hs.settle]
          rfl
        rw [Part.words, List.singleton_append, finish, shape_of_isPlain hp]
        simp only [hl]
        rfl
      · rw [Part.flag?, Option.toList_none, List.append_nil]
        rfl

/-- Parts with different keys are read one after another. -/
theorem finish_parts {parts : List Part} (hs : reading.Settles arguments)
    (hp : ∀ part ∈ parts, part.Regular)
    (hn : ((arguments.flags ++ parts.filterMap Part.flag?).map Prod.fst).Nodup) :
    reading.finish (parts.flatMap Part.words) =
      .ok { flags := arguments.flags ++ parts.filterMap Part.flag?,
            inputs := arguments.inputs ++ parts.filterMap Part.input? } := by
  induction parts generalizing reading arguments with
  | nil =>
      simp only [List.filterMap_nil, List.append_nil]
      exact hs.settle
  | cons part parts ih =>
      obtain ⟨hr, hp⟩ := List.forall_mem_cons.1 hp
      have hc : ∀ {α : Type} (f : Part → Option α),
          (part :: parts).filterMap f = (f part).toList ++ parts.filterMap f := by
        intro α f
        rw [List.filterMap_cons]
        cases f part <;> rfl
      rw [hc, ← List.append_assoc] at hn
      have hnew : ∀ flag ∈ part.flag?, flag.1 ∉ arguments.flags.map Prod.fst := by
        intro flag hm hf
        rw [List.append_assoc, List.map_append, List.nodup_append] at hn
        refine hn.2.2 _ hf _ (List.mem_map_of_mem (List.mem_append_left _ ?_)) rfl
        exact Option.mem_toList.2 hm
      obtain ⟨next, he, hs⟩ := finish_part hs hr hnew (parts.flatMap Part.words)
      rw [List.flatMap_cons, he, ih hs hp hn, hc, hc, List.append_assoc, List.append_assoc]

end Reading

/-- The flags of parts with different keys are fit to be copied. -/
theorem flat_parts {parts : List Part} {inputs : List String} (hp : ∀ part ∈ parts, part.Regular)
    (hn : ((parts.filterMap Part.flag?).map Prod.fst).Nodup) :
    Arguments.Flat { flags := parts.filterMap Part.flag?, inputs } where
  known flag hm := by
    obtain ⟨part, hm, hf⟩ := List.mem_filterMap.1 hm
    have hr := hp part hm
    cases part with
    | flag key value =>
        cases hf
        exact mem_recognizedKeys (.inl hr.1)
    | switch key =>
        cases hf
        exact mem_recognizedKeys (.inr hr)
    | input path => cases hf
  distinct := hn
  valueless key hk value hv := by
    obtain ⟨part, hm, hf⟩ := List.mem_filterMap.1 ((lookup_eq_some_of_nodup hn).1 hv)
    have hr := hp part hm
    cases part with
    | flag other held =>
        cases hf
        exact absurd hr.1 (not_mem_valueKeys hk)
    | switch other =>
        cases hf
        rfl
    | input path => cases hf

end CommandLine

namespace Invocation

open CommandLine

/-- An invocation looks flags up and takes inputs in order, and sees no more of its arguments. -/
theorem runWith_congr (services : Services) (setting : Setting) {first second : Arguments}
    (hf : first.flag? = second.flag?) (hi : first.inputs = second.inputs) :
    runWith services setting first = runWith services setting second := by
  have ho : first.options = second.options := by rw [Arguments.options, hf, Arguments.options]
  have hm : formatMode services setting first = formatMode services setting second := by
    funext options
    simp only [formatMode, outputPath, hf, hi]
  rw [runWith, runWith, ho, hf, hm]

end Invocation

namespace CommandLine

section
variable {flags : List (String × String)} {switches inputs : List String}

/-- The parts of a command line in one order: flags with values, flags without, inputs. -/
def partsOf (flags : List (String × String)) (switches inputs : List String) : List Part :=
  flags.map (fun flag => .flag flag.1 flag.2) ++ switches.map .switch ++ inputs.map .input

theorem filterMap_flag?_partsOf :
    (partsOf flags switches inputs).filterMap Part.flag? = flags ++ switches.map (·, "") := by
  simp [partsOf, List.filterMap_append, List.filterMap_map, Function.comp_def, Part.flag?]

theorem regular_of_mem_partsOf (hf : ∀ flag ∈ flags, flag.1 ∈ valueKeys ∧ IsPlain flag.2)
    (hs : ∀ key ∈ switches, key ∈ switchKeys) (hi : ∀ input ∈ inputs, IsPlain input) :
    ∀ part ∈ partsOf flags switches inputs, part.Regular := by
  refine List.forall_mem_append.2 ⟨List.forall_mem_append.2 ⟨?_, ?_⟩, ?_⟩
  · exact List.forall_mem_map.2 hf
  · exact List.forall_mem_map.2 hs
  · exact List.forall_mem_map.2 hi

/-- Flags that take a value and flags that take none have different keys. -/
theorem nodup_keys (hf : ∀ flag ∈ flags, flag.1 ∈ valueKeys) (hd : (flags.map Prod.fst).Nodup)
    (hs : ∀ key ∈ switches, key ∈ switchKeys) (hn : switches.Nodup) :
    ((flags ++ switches.map (·, "")).map Prod.fst).Nodup := by
  have hm : (switches.map (·, "")).map Prod.fst = switches := by simp [Function.comp_def]
  rw [List.map_append, hm, List.nodup_append]
  refine ⟨hd, hn, fun key hk switch ho he => ?_⟩
  obtain ⟨flag, hm, rfl⟩ := List.mem_map.1 hk
  exact not_mem_valueKeys (hs switch ho) (he ▸ hf flag hm)

/-- Flags with different keys and their values, flags that take none and inputs, put together in any
way that keeps the inputs in order, are read as exactly these flags and inputs. -/
theorem read_interleaving (hf : ∀ flag ∈ flags, flag.1 ∈ valueKeys ∧ IsPlain flag.2)
    (hd : (flags.map Prod.fst).Nodup) (hs : ∀ key ∈ switches, key ∈ switchKeys)
    (hn : switches.Nodup) (hi : ∀ input ∈ inputs, IsPlain input) {parts : List Part}
    (hp : parts.Perm (partsOf flags switches inputs)) (ho : parts.filterMap Part.input? = inputs) :
    ∃ arguments, read (parts.flatMap Part.words) = .ok arguments ∧
      arguments.Same { flags := flags ++ switches.map (·, ""), inputs } ∧
      (∀ key value, arguments.flag? key = some value ↔
        (key, value) ∈ flags ∨ key ∈ switches ∧ value = "") ∧
      ∀ setting, Invocation.run setting arguments =
        Invocation.run setting { flags := flags ++ switches.map (·, ""), inputs } := by
  have hk := nodup_keys (fun flag hm => (hf flag hm).1) hd hs hn
  have hset : (parts.filterMap Part.flag?).Perm (flags ++ switches.map (·, "")) :=
    filterMap_flag?_partsOf ▸ hp.filterMap Part.flag?
  have hx : ((parts.filterMap Part.flag?).map Prod.fst).Nodup := (hset.map _).nodup_iff.2 hk
  have hr : ∀ part ∈ parts, part.Regular :=
    fun part hm => regular_of_mem_partsOf hf hs hi part (hp.mem_iff.1 hm)
  have hread : Reading.finish {} (parts.flatMap Part.words) =
      .ok { flags := parts.filterMap Part.flag?, inputs } := by
    have hy : Reading.finish {} (parts.flatMap Part.words) = _ :=
      Reading.finish_parts ⟨rfl, rfl⟩ hr hx
    rw [ho] at hy
    exact hy
  have hflat : Arguments.Flat { flags := parts.filterMap Part.flag?, inputs } := flat_parts hr hx
  have hsame : (Fields.ofFlags _ inputs).arguments.Same
      { flags := flags ++ switches.map (·, ""), inputs } :=
    ⟨(Fields.same_arguments_ofFlags hflat).flags.trans hset, rfl⟩
  have hflag := Arguments.flag?_of_perm ((hsame.flags.map Prod.fst).nodup_iff.2 hk) hsame.flags
  refine ⟨_, read_of_finish hread, hsame, fun key value => ?_, fun setting => ?_⟩
  · rw [hflag, Arguments.flag?, lookup_eq_some_of_nodup hk]
    simp [eq_comm]
  · exact Invocation.runWith_congr _ setting hflag rfl

theorem read_interleaving_four : ∃ arguments,
    read ["--version", "a.swift", "--cache", "ignore", "--indent", "2", "b.swift", "--help"] =
        .ok arguments ∧
      arguments.Same { flags := [("indent", "2"), ("cache", "ignore"), ("help", ""), ("version", "")],
                       inputs := ["a.swift", "b.swift"] } ∧
      arguments.flag? "indent" = some "2" := by
  obtain ⟨arguments, hr, hs, hf, -⟩ := @read_interleaving [("indent", "2"), ("cache", "ignore")]
    ["help", "version"] ["a.swift", "b.swift"] (by decide) (by decide) (by decide) (by decide)
    (by decide) [.switch "version", .input "a.swift", .flag "cache" "ignore", .flag "indent" "2",
      .input "b.swift", .switch "help"] (by decide) rfl
  exact ⟨arguments, hr, hs, (hf "indent" "2").2 (.inl (by decide))⟩

end

end CommandLine

end SourceStyle
