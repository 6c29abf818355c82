import SourceStyle.CommandLine.Reading
import SourceStyle.Proofs.Vocabulary

/-!
Copying what was read to arguments. Each key gets the value of its own field, so nothing is lost or
mixed up on the way, and a flag has after copying what it had when it was read.
-/

namespace SourceStyle.CommandLine

variable {arguments : Arguments}

theorem mem_recognizedKeys {key : String} (h : key ∈ valueKeys ∨ key ∈ switchKeys) :
    key ∈ recognizedKeys := by
  rcases h with h | h
  · exact List.mem_of_mem_filter h
  · revert key
    decide

/-- The flags that were read: known ones, each once, and none with a value that takes none. -/
structure Arguments.Flat (arguments : Arguments) : Prop where
  known : ∀ flag ∈ arguments.flags, flag.1 ∈ recognizedKeys
  distinct : (arguments.flags.map Prod.fst).Nodup
  valueless : ∀ key ∈ switchKeys, ∀ value, arguments.flag? key = some value → value = ""

/-- The same flags, in whatever order, and the same inputs. -/
structure Arguments.Same (first second : Arguments) : Prop where
  flags : first.flags.Perm second.flags
  inputs : first.inputs = second.inputs

namespace Fields

/-- Filled by name and copied by name, each key has what the flag of that name had. -/
theorem values_ofFlags (h : arguments.Flat) :
    (ofFlags arguments.flag? arguments.inputs).values =
      recognizedKeys.map fun key => (key, arguments.flag? key) := by
  have hs : ∀ key ∈ switchKeys, switchValue (arguments.flag? key).isSome = arguments.flag? key := by
    intro key hk
    cases hv : arguments.flag? key with
    | none => rfl
    | some value => rw [h.valueless key hk value hv, Option.isSome_some, switchValue, if_pos rfl]
  simp only [values, ofFlags, hs "help" (by decide), hs "version" (by decide), recognizedKeys,
    List.map_cons, List.map_nil]

theorem mem_arguments_ofFlags (h : arguments.Flat) (flag : String × String) :
    flag ∈ (ofFlags arguments.flag? arguments.inputs).arguments.flags ↔ flag ∈ arguments.flags := by
  obtain ⟨key, value⟩ := flag
  rw [Fields.arguments, values_ofFlags h, List.filterMap_map, List.mem_filterMap,
    ← lookup_eq_some_of_nodup h.distinct]
  constructor
  · rintro ⟨other, -, he⟩
    obtain ⟨found, hv, he⟩ := Option.map_eq_some_iff.1 he
    cases he
    exact hv
  · intro hv
    have hm := (lookup_eq_some_of_nodup h.distinct).1 hv
    exact ⟨key, h.known _ hm, Option.map_eq_some_iff.2 ⟨value, hv, rfl⟩⟩

/-- What was read is the same once it is copied. -/
theorem same_arguments_ofFlags (h : arguments.Flat) :
    (ofFlags arguments.flag? arguments.inputs).arguments.Same arguments := by
  refine ⟨(List.perm_ext_iff_of_nodup ?_ (.of_map _ h.distinct)).2 (mem_arguments_ofFlags h), rfl⟩
  rw [Fields.arguments, values_ofFlags h, List.filterMap_map]
  refine List.Nodup.filterMap ?_ (by decide)
  intro key other flag hk ho
  obtain ⟨_, -, rfl⟩ := Option.map_eq_some_iff.1 hk
  obtain ⟨_, -, he⟩ := Option.map_eq_some_iff.1 ho
  exact (congrArg Prod.fst he).symm

end Fields

theorem read_of_finish {commandLine : List String}
    (h : Reading.finish {} commandLine = .ok arguments) :
    read commandLine = .ok (Fields.ofFlags arguments.flag? arguments.inputs).arguments := by
  rw [read, readFields, h]
  rfl

end SourceStyle.CommandLine
