import SourceStyle.Proofs.Turns

/-!
What saving a cache leaves behind: the text of the cache under its path, or else nothing there that
could be taken for one.
-/

namespace SourceStyle

namespace FileTree

variable {tree after : FileTree} {place : Location} {path : String} {fault : SystemFault}

def text? (tree : FileTree) (path : String) : Option String :=
  (tree.readText path).toOption

theorem text?_eq_some {text : String} : tree.text? path = some text ↔ tree.readText path = .ok text := by
  rw [text?]
  cases tree.readText path <;> simp [Except.toOption]

theorem text?_eq_none (h : ∀ place bytes, tree.resolve path = .ok place →
    tree.entry? place ≠ some (.file bytes)) : tree.text? path = none := by
  refine Option.eq_none_iff_forall_ne_some.2 fun text ht => ?_
  obtain ⟨place, bytes, hr, hf, -⟩ := readText_eq_ok.1 (text?_eq_some.1 ht)
  exact h place bytes hr hf

/-- Where no directory could be made there is none, unless it already failed above. -/
theorem makeDirectoriesFrom_cons_eq_error {above : List String}
    (h : makeDirectoriesFrom (path :: above) tree = .error fault after) :
    path ≠ "" ∧ (after.isDirectory path = false ∨
      makeDirectory path tree = .error .notFound tree ∧
        ∃ cause, makeDirectoriesFrom above tree = .error cause after) := by
  rw [makeDirectoriesFrom] at h
  by_cases hp : path = ""
  · simp only [if_pos hp] at h
    cases h
  · simp only [if_neg hp] at h
    refine ⟨hp, ?_⟩
    cases hm : makeDirectory path tree with
    | ok _ made =>
        rw [hm] at h
        cases h
    | error cause made =>
        obtain rfl := makeDirectory_eq_error hm
        rw [hm] at h
        by_cases hn : cause = .notFound
        · subst hn
          dsimp only at h
          cases hr : makeDirectoriesFrom above made with
          | ok _ more =>
              rw [hr] at h
              refine .inl ?_
              simp only [ensureDirectory] at h
              split at h
              · cases h
              · split at h
                · cases h
                · cases h
                  exact Bool.eq_false_iff.2 ‹_›
          | error reason more =>
              rw [hr] at h
              cases h
              exact .inr ⟨rfl, fault, rfl⟩
        · by_cases hd : made.isDirectory path = true
          · simp [hd] at h
          · simp only [if_neg hd] at h
            cases h
            exact .inl (Bool.eq_false_iff.2 hd)

theorem makeDirectoriesFrom_eq_error {above : List String}
    (hc : (path :: above).IsChain fun path above => above = "" ∨ Path.PassesThrough path above)
    (h : makeDirectoriesFrom (path :: above) tree = .error fault after) :
    after.isDirectory path = false := by
  induction above generalizing path fault with
  | nil =>
      obtain ⟨-, hf | ⟨hm, cause, ht⟩⟩ := makeDirectoriesFrom_cons_eq_error h
      · exact hf
      · cases ht
        refine Bool.eq_false_iff.2 fun hd => ?_
        cases hm.symm.trans (makeDirectory_of_isDirectory hd)
  | cons next more ih =>
      obtain ⟨-, hf | ⟨hm, cause, ht⟩⟩ := makeDirectoriesFrom_cons_eq_error h
      · exact hf
      · obtain ⟨hn, hc⟩ := List.isChain_cons_cons.1 hc
        have hp := hn.resolve_left (makeDirectoriesFrom_cons_eq_error ht).1
        refine Bool.eq_false_iff.2 fun hd => Bool.eq_false_iff.1 (ih hc ht) ?_
        obtain ⟨place, hr, -⟩ := isDirectory_iff.1 hd
        exact isDirectory_of_passesThrough hp hr

/-- Nothing is under a path whose directory could not be made. -/
theorem text?_of_makeDirectories_eq_error {parent : String} (hp : Path.parent? path = some parent)
    (h : makeDirectories parent tree = .error fault after) : after.text? path = none := by
  have hc := Path.isChain_ancestors parent
  have hn := (makeDirectoriesFrom_cons_eq_error h).1
  refine text?_eq_none fun place bytes hr _ => ?_
  have hd := isDirectory_of_passesThrough ((Path.eq_empty_or_passesThrough hp).resolve_left hn) hr
  exact Bool.eq_false_iff.1 (makeDirectoriesFrom_eq_error hc h) hd

variable {bytes : ByteArray}

theorem overwriteFile_eq_ok (h : overwriteFile path bytes tree = .ok () after) :
    ∃ place, Puts path bytes place tree after := by
  rw [overwriteFile] at h
  cases ht : tree.target path with
  | error fault => simp [ht] at h
  | ok target =>
      rw [ht] at h
      cases target with
      | standing => cases h
      | child parent name slashed =>
          cases slashed with
          | true => cases h
          | false =>
              refine ⟨parent ++ [name], ?_⟩
              simp only [Bool.false_eq_true, if_false] at h
              cases he : tree.entry? (parent ++ [name]) with
              | none =>
                  have hd : tree.entry? (parent ++ [name]) ≠ some .directory := by simp [he]
                  simp only [he, make] at h
                  split at h
                  · cases h
                  · cases h
                    exact puts_set ht hd bytes
              | some entry =>
                  cases entry with
                  | directory => simp [he] at h
                  | file held =>
                      have hd : tree.entry? (parent ++ [name]) ≠ some .directory := by simp [he]
                      simp only [he] at h
                      cases h
                      exact puts_set ht hd bytes

theorem isDirectory_of_standing (hs : tree.Sound) (ht : tree.target path = .ok .standing)
    (hr : tree.resolve path = .ok place) : tree.entry? place = some .directory := by
  obtain ⟨hp, hw⟩ := resolve_eq_ok.1 hr
  have hf : ∀ segments : List String, (∀ segment ∈ segments, segment = "") →
      ∀ segment ∈ segments, Path.isFiller segment = true := fun _ he segment hm => by
    rw [he segment hm]
    rfl
  rcases target_eq hp with ⟨he, -⟩ | ⟨front, last, empties, hl, hn, he, ha⟩
  · obtain ⟨rfl, hd⟩ := walk_fillers (hf _ he) hw
    exact hd (Path.segments_ne_nil path)
  · have hc : '/' ∉ last.toList := Path.slash_notMem_of_mem_segments path (by simp [hl])
    rw [hl] at hw
    obtain ⟨middle, hm, hw⟩ := (walk_append_eq_ok (List.cons_ne_nil last empties)).1 hw
    have hd := (walk_snoc_empty_eq_ok.1 hm).2
    obtain ⟨rfl, -⟩ := walk_fillers (hf _ he) (walk_cons_eq_ok.1 hw).2
    by_cases hi : Path.IsName last
    · rw [ha, hm] at ht
      cases (congrArg Except.ok (within_of_isName hi)).symm.trans ht
    · rw [step]
      split
      · exact hd
      · split
        · exact hs.isDirectory_dropLast (by rw [hd, Option.isSome_some])
        · refine absurd ⟨hn, ?_, ‹_›, hc⟩ hi
          rintro rfl
          exact absurd rfl ‹¬_›

theorem exists_overwriteFile_eq_ok {held : ByteArray} (hs : tree.Sound)
    (hr : tree.resolve path = .ok place) (hf : tree.entry? place = some (.file held))
    (bytes : ByteArray) : ∃ after, overwriteFile path bytes tree = .ok () after := by
  rw [overwriteFile]
  rcases target_of_resolve hr with ht | ⟨parent, name, slashed, ht, rfl, hd⟩
  · cases (isDirectory_of_standing hs ht hr).symm.trans hf
  · rw [ht]
    cases slashed with
    | true => cases (hd rfl).symm.trans hf
    | false =>
        simp only [Bool.false_eq_true, if_false, hf]
        exact ⟨_, rfl⟩

theorem overwriteFile_eq_error (h : overwriteFile path bytes tree = .error fault after) :
    after = tree := by
  rw [overwriteFile] at h
  cases ht : tree.target path with
  | error cause => simp_all
  | ok target =>
      rw [ht] at h
      cases target with
      | standing => simp_all
      | child parent name slashed =>
          dsimp only [make] at h
          split at h
          · simp_all
          · split at h
            · simp_all
            · cases h
            · split at h <;> simp_all

theorem ends_overwriteFile {ε : Type} (f : SystemFault → ε) (path text : String) (hs : tree.Sound) :
    (Action.mapError f (overwriteFile path text.toUTF8)).Ends tree
      (fun _ after => after.Sound ∧ after.text? path = some text)
      fun after => after.Sound ∧ after.text? path = none := by
  rw [Action.Ends, Action.mapError]
  cases h : overwriteFile path text.toUTF8 tree with
  | ok _ after =>
      obtain ⟨place, hp⟩ := overwriteFile_eq_ok h
      exact ⟨hp.sound hs, text?_eq_some.2 hp.readText⟩
  | error fault after =>
      obtain rfl := overwriteFile_eq_error h
      refine ⟨hs, text?_eq_none fun place held hr hf => ?_⟩
      obtain ⟨other, ho⟩ := exists_overwriteFile_eq_ok hs hr hf text.toUTF8
      cases ho.symm.trans h

end FileTree

open FileTree

variable {tree middle : FileTree} {cachePath : String}

/-- A cache is saved under its path, or nothing there is a text. -/
theorem Cache.ends_save (cache : Cache) (path : String) (hs : tree.Sound) :
    (cache.save path).Ends tree (fun _ after => after.Sound ∧ after.text? path = some cache.text)
      fun after => after.Sound ∧ after.text? path = none := by
  rw [save]
  cases hp : Path.parent? path with
  | none => exact ends_overwriteFile _ path cache.text hs
  | some parent =>
      refine Action.Ends.bind (P := fun _ made => made.Sound) ?_ fun _ made hm =>
        ends_overwriteFile _ path cache.text hm
      have hf := (furnishes_makeDirectories parent tree).sound hs
      rw [Action.Ends, Action.mapError]
      cases h : makeDirectories parent tree with
      | ok _ made => rwa [Action.leaves_of_ok h] at hf
      | error fault made =>
          rw [Action.leaves_of_error h] at hf
          exact ⟨hf, text?_of_makeDirectories_eq_error hp h⟩

theorem Cache.load_eq (tree : FileTree) (path : String) :
    load tree path = ((tree.text? path).bind ofText?).getD {} := by
  rw [load, FileTree.text?]
  cases tree.readText path <;> rfl

/-- A cache that is read back as it was written is found again, or no cache is. -/
theorem Cache.load_leaves_save (cache : Cache) (path : String) (hs : tree.Sound)
    (hr : ofText? cache.text = some cache) :
    ((cache.save path).leaves tree).Sound ∧
      (load ((cache.save path).leaves tree) path = cache ∨
        load ((cache.save path).leaves tree) path = {}) := by
  have he := cache.ends_save path hs
  rw [Action.Ends] at he
  rw [load_eq]
  cases h : cache.save path tree with
  | ok _ after =>
      rw [h] at he
      rw [Action.leaves_of_ok h, he.2, Option.bind_some, hr]
      exact ⟨he.1, .inl rfl⟩
  | error failure after =>
      rw [h] at he
      rw [Action.leaves_of_error h, he.2]
      exact ⟨he.1, .inr rfl⟩

namespace Batch

variable {next : Batch} {cache : Cache} {inputs : List String} {output : Option String} {options : Options}

theorem leaves_run_of_error {failure : Failure}
    (h : (initial options (some (Cache.load tree cachePath))).processInputs output inputs tree =
      .error failure middle) :
    (run inputs output options (some cachePath)).leaves tree = middle :=
  Action.leaves_of_error (by rw [run_eq, Option.map_some, Action.bind_of_error h])

theorem leaves_run_of_ok
    (h : (initial options (some (Cache.load tree cachePath))).processInputs output inputs tree =
      .ok next middle) :
    (run inputs output options (some cachePath)).leaves tree =
      (next.saveCache (some cachePath) : Action Failure Unit).leaves middle := by
  rw [Action.leaves, run_eq, Option.map_some, Action.bind_of_ok h]
  cases hs : (next.saveCache (some cachePath) : Action Failure Unit) middle with
  | ok _ after => rw [Action.bind_of_ok hs, Action.leaves_of_ok hs]; rfl
  | error failure after => rw [Action.bind_of_error hs, Action.leaves_of_error hs]

theorem leaves_saveCache {path : String} (h : next.cache = some cache) :
    (next.saveCache (some path) : Action Failure Unit).leaves tree = (cache.save path).leaves tree := by
  rw [Action.leaves, Action.leaves]
  simp only [saveCache, h]
  cases cache.save path tree <;> rfl

theorem leaves_saveCache_of_none {path? : Option String} (h : next.cache = none) :
    (next.saveCache path? : Action Failure Unit).leaves tree = tree := by
  rw [Action.leaves]
  simp only [saveCache, h]

end Batch

end SourceStyle
