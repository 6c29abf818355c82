import Mathlib.Data.List.Nodup
import SourceStyle.Proofs.Files.Places

/-!
What writing does to a tree. Directories are only made where nothing stood, one file is put in its
place, and everything else is left alone.
-/

namespace SourceStyle

theorem Text.decode?_toUTF8 (text : String) : decode? text.toUTF8 = some text :=
  dif_pos text.isValidUTF8

namespace FileTree

variable {tree middle after : FileTree} {place other parent : Location} {entry : Entry} {path : String}

namespace Action

variable {σ ε ε' α β : Type}

section
variable {action : Action ε α}

def leaves (action : Action ε α) (tree : FileTree) : FileTree :=
  match action tree with
  | .ok _ after | .error _ after => after

theorem leaves_of_ok {value : α} (h : action tree = .ok value after) : action.leaves tree = after := by
  rw [leaves, h]

theorem leaves_of_error {failure : ε} (h : action tree = .error failure after) :
    action.leaves tree = after := by
  rw [leaves, h]

theorem leaves_mapError (f : ε → ε') : (action.mapError f).leaves tree = action.leaves tree := by
  rw [leaves, mapError, leaves]
  cases action tree <;> rfl

theorem mapError_eq_ok {f : ε → ε'} {value : α} :
    action.mapError f tree = .ok value after ↔ action tree = .ok value after := by
  rw [mapError]
  split <;> simp_all

theorem mapError_eq_error {f : ε → ε'} {failure : ε'} :
    action.mapError f tree = .error failure after ↔
      ∃ cause, f cause = failure ∧ action tree = .error cause after := by
  rw [mapError]
  split <;> simp_all

end

section
variable {action : EStateM ε σ α} {next : α → EStateM ε σ β} {state after : σ}

theorem bind_of_ok {value : α} (h : action state = .ok value after) :
    (action >>= next) state = next value after := by
  change EStateM.bind action next state = next value after
  rw [EStateM.bind, h]

theorem bind_of_error {failure : ε} (h : action state = .error failure after) :
    (action >>= next) state = .error failure after := by
  change EStateM.bind action next state = .error failure after
  rw [EStateM.bind, h]

theorem map_of_ok {f : α → β} {value : α} (h : action state = .ok value after) :
    (f <$> action) state = .ok (f value) after := by
  change EStateM.map f action state = .ok (f value) after
  rw [EStateM.map, h]

theorem map_of_error {f : α → β} {failure : ε} (h : action state = .error failure after) :
    (f <$> action) state = .error failure after := by
  change EStateM.map f action state = .error failure after
  rw [EStateM.map, h]

theorem bind_eq_ok {value : β} : (action >>= next) state = .ok value after ↔
    ∃ first middle, action state = .ok first middle ∧ next first middle = .ok value after := by
  cases h : action state with
  | ok first middle => simp [bind_of_ok h]
  | error failure middle => simp [bind_of_error h]

theorem bind_eq_error {failure : ε} : (action >>= next) state = .error failure after ↔
    action state = .error failure after ∨
      ∃ first middle, action state = .ok first middle ∧
        next first middle = .error failure after := by
  cases h : action state with
  | ok first middle => simp [bind_of_ok h]
  | error failure middle => simp [bind_of_error h]

end

end Action

/-- A tree that a file system can hold: every place is listed once, by names, and in a directory. -/
structure Sound (tree : FileTree) : Prop where
  distinct : (tree.entries.map Prod.fst).Nodup
  named : ∀ entry ∈ tree.entries, entry.1 ≠ [] ∧ ∀ name ∈ entry.1, Path.IsName name
  held : ∀ entry ∈ tree.entries, tree.entry? entry.1.dropLast = some .directory

instance (tree : FileTree) : Decidable tree.Sound :=
  decidable_of_iff ((tree.entries.map Prod.fst).Nodup ∧
      (∀ entry ∈ tree.entries, entry.1 ≠ [] ∧ ∀ name ∈ entry.1, Path.IsName name) ∧
      ∀ entry ∈ tree.entries, tree.entry? entry.1.dropLast = some .directory)
    ⟨fun ⟨hd, hn, hh⟩ => ⟨hd, hn, hh⟩, fun ⟨hd, hn, hh⟩ => ⟨hd, hn, hh⟩⟩

theorem mem_entries_of_eq_some (hp : place ≠ []) (h : tree.entry? place = some entry) :
    (place, entry) ∈ tree.entries := by
  rw [entry?_of_ne_nil hp, List.lookup_eq_some_iff] at h
  obtain ⟨front, rest, he, -⟩ := h
  rw [he]
  exact List.mem_append_right _ (List.mem_cons_self ..)

theorem Sound.entry?_of_mem (hs : tree.Sound) (h : (place, entry) ∈ tree.entries) :
    tree.entry? place = some entry := by
  rw [entry?_of_ne_nil (hs.named _ h).1, List.lookup_eq_some_iff]
  obtain ⟨front, rest, he⟩ := List.append_of_mem h
  refine ⟨front, rest, he, fun first hm => bne_iff_ne.2 fun hf => ?_⟩
  have hd := hs.distinct
  rw [he, List.map_append, List.map_cons] at hd
  exact (List.nodup_middle.1 hd).notMem
    (List.mem_append_left _ (List.mem_map.2 ⟨first, hm, hf.symm⟩))

theorem Sound.isDirectory_dropLast (hs : tree.Sound) (h : (tree.entry? place).isSome) :
    tree.entry? place.dropLast = some .directory := by
  by_cases hp : place = []
  · rw [hp]
    rfl
  · obtain ⟨entry, he⟩ := Option.isSome_iff_exists.1 h
    exact hs.held _ (mem_entries_of_eq_some hp he)

theorem Sound.isDirectory_of_append (hs : tree.Sound) {rest : List String} (hr : rest ≠ [])
    (h : (tree.entry? (place ++ rest)).isSome) : tree.entry? place = some .directory := by
  induction rest using List.reverseRecOn with
  | nil => exact absurd rfl hr
  | append_singleton front name ih =>
      have hd := hs.isDirectory_dropLast h
      rw [← List.append_assoc, List.dropLast_concat] at hd
      by_cases hf : front = []
      · rwa [hf, List.append_nil] at hd
      · exact ih hf (by rw [hd, Option.isSome_some])

/-- A tree still has what another one has: directories as directories, files as files. -/
structure Keeps (tree after : FileTree) : Prop where
  workingDirectory : after.workingDirectory = tree.workingDirectory
  directory : ∀ place, tree.entry? place = some .directory → after.entry? place = some .directory
  file : ∀ place bytes, tree.entry? place = some (.file bytes) →
    ∃ bytes, after.entry? place = some (.file bytes)

theorem Keeps.refl (tree : FileTree) : Keeps tree tree :=
  ⟨rfl, fun _ h => h, fun _ bytes h => ⟨bytes, h⟩⟩

theorem Keeps.trans (h : Keeps tree middle) (h' : Keeps middle after) : Keeps tree after where
  workingDirectory := h'.workingDirectory.trans h.workingDirectory
  directory place hd := h'.directory place (h.directory place hd)
  file place bytes hf := by
    obtain ⟨bytes, hf⟩ := h.file place bytes hf
    exact h'.file place bytes hf

theorem Keeps.isSome (h : Keeps tree after) (hs : (tree.entry? place).isSome) :
    (after.entry? place).isSome := by
  obtain ⟨entry, he⟩ := Option.isSome_iff_exists.1 hs
  cases entry with
  | directory => rw [h.directory place he, Option.isSome_some]
  | file bytes =>
      obtain ⟨bytes, hf⟩ := h.file place bytes he
      rw [hf, Option.isSome_some]

theorem Keeps.walk (h : Keeps tree after) {here : Location} {segments : List String}
    (hw : tree.walk here segments = .ok place) : after.walk here segments = .ok place := by
  induction segments generalizing here with
  | nil =>
      obtain ⟨hp, hs⟩ := walk_nil_eq_ok.1 hw
      exact walk_nil_eq_ok.2 ⟨hp, h.isSome hs⟩
  | cons segment rest ih =>
      obtain ⟨hd, hw⟩ := walk_cons_eq_ok.1 hw
      exact walk_cons_eq_ok.2 ⟨h.directory here hd, ih hw⟩

theorem Keeps.resolve (h : Keeps tree after) (hr : tree.resolve path = .ok place) :
    after.resolve path = .ok place := by
  obtain ⟨hp, hw⟩ := resolve_eq_ok.1 hr
  refine resolve_eq_ok.2 ⟨hp, ?_⟩
  rw [start, h.workingDirectory, ← start]
  exact h.walk hw

theorem Keeps.set_file (hp : place ≠ []) (h : tree.entry? place ≠ some .directory)
    (bytes : ByteArray) : Keeps tree (tree.set place (.file bytes)) where
  workingDirectory := rfl
  directory other hd := by
    rwa [entry?_set_of_ne hp]
    rintro rfl
    exact h hd
  file other held hf := by
    rw [entry?_set hp]
    split
    · exact ⟨bytes, rfl⟩
    · exact ⟨held, hf⟩

theorem Keeps.target (h : Keeps tree after) {name : String} {slashed : Bool}
    (ht : tree.target path = .ok (.child parent name slashed)) :
    after.target path = .ok (.child parent name slashed) := by
  obtain ⟨front, empties, -, -, -, hw, hn, hs⟩ := target_eq_child ht
  rw [hs, start, h.workingDirectory, ← start, h.walk hw]
  exact congrArg _ (within_of_isName hn)

/-- A sound tree stays so when something is put in one of its directories by a name. -/
theorem Sound.set {name : String} (hs : tree.Sound) (hp : tree.entry? parent = some .directory)
    (hn : Path.IsName name) (hk : Keeps tree (tree.set (parent ++ [name]) entry)) :
    (tree.set (parent ++ [name]) entry).Sound := by
  have hm : ∀ other ∈ (tree.set (parent ++ [name]) entry).entries,
      other.1 = parent ++ [name] ∨ other ∈ tree.entries := by
    intro other ho
    rw [FileTree.set] at ho
    dsimp only at ho
    split at ho
    · obtain ⟨first, hf, rfl⟩ := List.mem_map.1 ho
      split
      · exact .inl rfl
      · exact .inr hf
    · rcases List.mem_append.1 ho with ho | ho
      · exact .inr ho
      · exact .inl (congrArg Prod.fst (List.mem_singleton.1 ho))
  refine ⟨?_, fun other ho => ?_, fun other ho => ?_⟩
  · rw [FileTree.set]
    dsimp only
    split
    · rw [List.map_map, List.map_congr_left (g := Prod.fst)]
      · exact hs.distinct
      · intro first _
        rw [Function.comp_apply]
        split
        · exact Eq.symm ‹_›
        · rfl
    · rw [List.map_append, List.map_singleton, ← List.concat_eq_append]
      refine List.Nodup.concat (fun hc => ?_) hs.distinct
      obtain ⟨first, hf, he⟩ := List.mem_map.1 hc
      have hl := List.lookup_eq_none_iff.1 (Option.not_isSome_iff_eq_none.1 ‹_›) first hf
      exact bne_iff_ne.1 hl he.symm
  · rcases hm other ho with he | he
    · rw [he]
      refine ⟨List.append_ne_nil_of_right_ne_nil _ (List.cons_ne_nil name []), fun segment hg => ?_⟩
      rcases List.mem_append.1 hg with hg | hg
      · by_cases hr : parent = []
        · rw [hr] at hg
          cases hg
        · exact (hs.named _ (mem_entries_of_eq_some hr hp)).2 segment hg
      · rwa [List.mem_singleton.1 hg]
    · exact hs.named other he
  · rcases hm other ho with he | he
    · rw [he, List.dropLast_concat]
      exact hk.directory parent hp
    · exact hk.directory _ (hs.held other he)

/-- All that changed is that directories were made. -/
structure Furnishes (tree after : FileTree) : Prop where
  workingDirectory : after.workingDirectory = tree.workingDirectory
  stands : ∀ place, after.entry? place = tree.entry? place ∨
    tree.entry? place = none ∧ after.entry? place = some .directory
  sound : tree.Sound → after.Sound

theorem Furnishes.refl (tree : FileTree) : Furnishes tree tree :=
  ⟨rfl, fun _ => .inl rfl, fun h => h⟩

theorem Furnishes.trans (h : Furnishes tree middle) (h' : Furnishes middle after) :
    Furnishes tree after where
  workingDirectory := h'.workingDirectory.trans h.workingDirectory
  stands place := by
    rcases h'.stands place with he | ⟨hn, hd⟩
    · rw [he]
      exact h.stands place
    · rcases h.stands place with he | ⟨-, hm⟩
      · exact .inr ⟨he ▸ hn, hd⟩
      · rw [hn] at hm
        cases hm
  sound hs := h'.sound (h.sound hs)

theorem Furnishes.entry?_of_eq_some (h : Furnishes tree after) (he : tree.entry? place = some entry) :
    after.entry? place = some entry := by
  rcases h.stands place with hp | ⟨hn, -⟩
  · rwa [hp]
  · rw [he] at hn
    cases hn

theorem Furnishes.keeps (h : Furnishes tree after) : Keeps tree after :=
  ⟨h.workingDirectory, fun _ hd => h.entry?_of_eq_some hd, fun _ bytes hf =>
    ⟨bytes, h.entry?_of_eq_some hf⟩⟩

theorem Keeps.set_of_none (hp : place ≠ []) (h : tree.entry? place = none) (entry : Entry) :
    Keeps tree (tree.set place entry) := by
  have ho : ∀ other held, tree.entry? other = some held →
      FileTree.entry? (tree.set place entry) other = some held := by
    intro other held he
    rwa [entry?_set_of_ne hp]
    rintro rfl
    rw [h] at he
    cases he
  exact ⟨rfl, fun other hd => ho other _ hd, fun other bytes hf => ⟨bytes, ho other _ hf⟩⟩

theorem furnishes_make {name : String} (hp : tree.entry? parent = some .directory)
    (hn : Path.IsName name) (he : tree.entry? (parent ++ [name]) = none) :
    Furnishes tree ((make parent name .directory).leaves tree) := by
  have hl : parent ++ [name] ≠ [] := List.append_ne_nil_of_right_ne_nil _ (List.cons_ne_nil name [])
  rw [Action.leaves, make]
  cases tree.refusal? parent with
  | some fault => exact .refl tree
  | none =>
      refine ⟨rfl, fun other => ?_, fun hs => hs.set hp hn (Keeps.set_of_none hl he _)⟩
      by_cases h : other = parent ++ [name]
      · rw [h]
        exact .inr ⟨he, entry?_set_self hl⟩
      · exact .inl (entry?_set_of_ne hl h)

theorem furnishes_makeDirectory (path : String) (tree : FileTree) :
    Furnishes tree ((makeDirectory path).leaves tree) := by
  rw [Action.leaves, makeDirectory]
  cases ht : tree.target path with
  | error fault => exact .refl tree
  | ok target =>
      cases target with
      | standing => exact .refl tree
      | child parent name slashed =>
          obtain ⟨hp, hn⟩ := target_child ht
          by_cases hs : (tree.entry? (parent ++ [name])).isSome
          · simp only [if_pos hs]
            exact .refl tree
          · simp only [if_neg hs]
            exact furnishes_make hp hn (Option.not_isSome_iff_eq_none.1 hs)

theorem makeDirectory_eq_error {fault : SystemFault}
    (h : makeDirectory path tree = .error fault after) : after = tree := by
  rw [makeDirectory] at h
  cases ht : tree.target path with
  | error cause => simp_all
  | ok target =>
      rw [ht] at h
      cases target with
      | standing => simp_all
      | child parent name slashed =>
          dsimp only [make] at h
          split at h
          · simp_all
          · split at h <;> simp_all

theorem makeDirectory_of_isDirectory (h : tree.isDirectory path = true) :
    makeDirectory path tree = .error .alreadyExists tree := by
  obtain ⟨place, hr, hd⟩ := isDirectory_iff.1 h
  rw [makeDirectory]
  rcases target_of_resolve hr with ht | ⟨parent, name, slashed, ht, hp, -⟩
  · rw [ht]
  · rw [ht]
    exact if_pos (by rw [← hp, hd, Option.isSome_some])

theorem leaves_ensureDirectory (path : String) (tree : FileTree) :
    (ensureDirectory path).leaves tree = (makeDirectory path).leaves tree := by
  rw [Action.leaves, ensureDirectory, Action.leaves]
  cases makeDirectory path tree with
  | ok _ made => rfl
  | error fault made =>
      by_cases hd : made.isDirectory path = true
      · simp only [if_pos hd]
      · simp only [if_neg hd]

/-- What is left of making a path a directory: nothing is made, or the path is, or those above it
are, with or without it. -/
theorem leaves_makeDirectoriesFrom_cons (path : String) (above : List String) (tree : FileTree) :
    let action := makeDirectoriesFrom (path :: above)
    let middle := (makeDirectoriesFrom above).leaves tree
    action.leaves tree = tree ∨ action.leaves tree = (makeDirectory path).leaves tree ∨
      action.leaves tree = middle ∨ action.leaves tree = (makeDirectory path).leaves middle := by
  dsimp only
  by_cases hp : path = ""
  · exact .inl (by simp only [Action.leaves, makeDirectoriesFrom, if_pos hp])
  · cases hm : makeDirectory path tree with
    | ok _ made =>
        refine .inr (.inl ?_)
        simp only [Action.leaves, makeDirectoriesFrom, if_neg hp, hm]
    | error fault made =>
        obtain rfl := makeDirectory_eq_error hm
        by_cases hn : fault = .notFound
        · subst hn
          cases ha : makeDirectoriesFrom above made with
          | ok _ middle =>
              refine .inr (.inr (.inr ?_))
              rw [Action.leaves_of_ok ha, ← leaves_ensureDirectory]
              simp only [Action.leaves, makeDirectoriesFrom, if_neg hp, hm, ha]
          | error cause middle =>
              refine .inr (.inr (.inl ?_))
              rw [Action.leaves_of_error ha]
              simp only [Action.leaves, makeDirectoriesFrom, if_neg hp, hm, ha]
        · refine .inl ?_
          by_cases hd : made.isDirectory path = true <;>
            simp [Action.leaves, makeDirectoriesFrom, hp, hm, hd]

theorem furnishes_makeDirectoriesFrom (paths : List String) (tree : FileTree) :
    Furnishes tree ((makeDirectoriesFrom paths).leaves tree) := by
  induction paths generalizing tree with
  | nil => exact .refl tree
  | cons path above ih =>
      obtain h | h | h | h := leaves_makeDirectoriesFrom_cons path above tree <;> rw [h]
      · exact .refl tree
      · exact furnishes_makeDirectory path tree
      · exact ih tree
      · exact (ih tree).trans (furnishes_makeDirectory path _)

theorem furnishes_makeDirectories (path : String) (tree : FileTree) :
    Furnishes tree ((makeDirectories path).leaves tree) :=
  furnishes_makeDirectoriesFrom _ tree

theorem makeDirectories_of_isDirectory (h : tree.isDirectory path = true) :
    makeDirectories path tree = .ok () tree := by
  obtain ⟨place, hr, -⟩ := isDirectory_iff.1 h
  simp only [makeDirectories, makeDirectoriesFrom, if_neg (resolve_eq_ok.1 hr).1,
    makeDirectory_of_isDirectory h, if_pos h]

theorem leaves_makeTemporary (directory : String) (tree : FileTree) :
    (makeTemporary directory).leaves tree = tree := by
  rw [Action.leaves, makeTemporary]
  cases tree.resolve directory with
  | error fault => rfl
  | ok location =>
      dsimp only
      cases tree.refusal? location <;> rfl

theorem isDirectory_directoryOf {bytes : ByteArray} (hr : tree.resolve path = .ok place)
    (hf : tree.entry? place = some (.file bytes)) : tree.isDirectory (directoryOf path) = true := by
  have hd : Path.isAbsolute path = false → tree.isDirectory "." = true := by
    intro ha
    obtain ⟨first, rest, hs⟩ := Path.exists_segments_eq_cons path
    have hw := (resolve_eq_ok.1 hr).2
    rw [hs, start, ha, if_neg Bool.false_ne_true] at hw
    have hh := (walk_cons_eq_ok.1 hw).1
    have hn : tree.walk tree.workingDirectory ["."] = .ok tree.workingDirectory :=
      walk_cons_eq_ok.2 ⟨hh, walk_nil_eq_ok.2 ⟨rfl, Option.isSome_iff_exists.2 ⟨_, hh⟩⟩⟩
    exact isDirectory_iff.2 ⟨tree.workingDirectory, resolve_eq_ok.2 ⟨by decide, hn⟩, hh⟩
  rw [directoryOf]
  cases hp : Path.parent? path with
  | none =>
      obtain ⟨fillers, hs, hk⟩ := Path.fillers_of_parent?_eq_none hp
      cases fillers with
      | nil => exact hd (by rw [Path.isAbsolute_of_segments hs]; rfl)
      | cons filler more =>
          have ha : Path.isAbsolute path = true := by rw [Path.isAbsolute_of_segments hs]; rfl
          have hw := (resolve_eq_ok.1 hr).2
          rw [hs, start, if_pos ha] at hw
          obtain ⟨rfl, -⟩ := walk_fillers (List.forall_mem_cons.2 ⟨rfl, hk⟩) hw
          cases hf
  | some parent =>
      by_cases he : parent = ""
      · subst he
        exact hd (Path.not_isAbsolute_of_parent?_eq_empty hp)
      · have ht := (Path.eq_empty_or_passesThrough hp).resolve_left he
        simpa [he] using isDirectory_of_passesThrough ht hr

/-- The path names a file with the bytes at a place where no directory stood, and all else that
changed is that directories were made. -/
structure Puts (path : String) (bytes : ByteArray) (place : Location) (tree after : FileTree) :
    Prop where
  resolve : after.resolve path = .ok place
  stands : after.entry? place = some (.file bytes)
  free : tree.entry? place ≠ some .directory
  elsewhere : ∀ other, other ≠ place → after.entry? other = tree.entry? other ∨
    tree.entry? other = none ∧ after.entry? other = some .directory
  workingDirectory : after.workingDirectory = tree.workingDirectory
  sound : tree.Sound → after.Sound

variable {bytes : ByteArray} {contents : String}

theorem Puts.keeps (h : Puts path bytes place tree after) : Keeps tree after := by
  have ho : ∀ other entry, other ≠ place → tree.entry? other = some entry →
      after.entry? other = some entry := by
    intro other entry hn he
    rcases h.elsewhere other hn with ha | ⟨hf, -⟩
    · rwa [ha]
    · rw [he] at hf
      cases hf
  refine ⟨h.workingDirectory, fun other hd => ho other _ ?_ hd, fun other held hf => ?_⟩
  · rintro rfl
    exact h.free hd
  · by_cases hp : other = place
    · exact ⟨bytes, hp ▸ h.stands⟩
    · exact ⟨held, ho other _ hp hf⟩

theorem Puts.of_furnishes (hf : Furnishes tree middle) (h : Puts path bytes place middle after) :
    Puts path bytes place tree after where
  resolve := h.resolve
  stands := h.stands
  free hd := h.free (hf.entry?_of_eq_some hd)
  elsewhere other hn := by
    rcases h.elsewhere other hn with ha | ⟨ho, hd⟩
    · rw [ha]
      exact hf.stands other
    · rcases hf.stands other with hm | ⟨-, hm⟩
      · exact .inr ⟨hm ▸ ho, hd⟩
      · rw [ho] at hm
        cases hm
  workingDirectory := h.workingDirectory.trans hf.workingDirectory
  sound hs := h.sound (hf.sound hs)

theorem puts_set {name : String} (ht : tree.target path = .ok (.child parent name false))
    (hd : tree.entry? (parent ++ [name]) ≠ some .directory) (bytes : ByteArray) :
    Puts path bytes (parent ++ [name]) tree (tree.set (parent ++ [name]) (.file bytes)) := by
  have hl : parent ++ [name] ≠ [] := List.append_ne_nil_of_right_ne_nil _ (List.cons_ne_nil name [])
  have hk := Keeps.set_file hl hd bytes
  obtain ⟨hp, hn⟩ := target_child ht
  have he : FileTree.entry? (tree.set (parent ++ [name]) (.file bytes)) (parent ++ [name]) = _ :=
    entry?_set_self hl
  exact ⟨resolve_of_target (hk.target ht) (by rw [he, Option.isSome_some]) nofun, he, hd,
    fun other ho => .inl (entry?_set_of_ne hl ho), rfl, fun hs => hs.set hp hn hk⟩

theorem replaceFile_eq_ok (h : replaceFile path bytes tree = .ok () after) :
    ∃ place, Puts path bytes place tree after ∧ after = tree.set place (.file bytes) := by
  rw [replaceFile] at h
  cases ht : tree.target path with
  | error fault => simp [ht] at h
  | ok target =>
      rw [ht] at h
      cases target with
      | standing => cases h
      | child parent name slashed =>
          cases slashed with
          | true => cases h
          | false =>
              by_cases hd : tree.entry? (parent ++ [name]) = some .directory
              · simp [hd] at h
              · simp only [Bool.false_eq_true, if_false, if_neg hd] at h
                cases h
                exact ⟨_, puts_set ht hd bytes, rfl⟩

theorem replaceFile_eq_error {fault : SystemFault}
    (h : replaceFile path bytes tree = .error fault after) : after = tree := by
  rw [replaceFile] at h
  cases ht : tree.target path with
  | error cause => simp_all
  | ok target =>
      rw [ht] at h
      cases target with
      | standing => simp_all
      | child parent name slashed =>
          dsimp only at h
          split at h
          · simp_all
          · split at h <;> simp_all

/-- A file is written in the tree that making its directories leaves, which is all that is left of
a file that could not be written. -/
theorem writeFile_cases (path contents : String) (tree : FileTree) :
    let made := (makeDirectories (directoryOf path)).leaves tree
    (∃ cause, writeFile path contents tree = .error (.write path cause) made) ∨
      ∃ after, writeFile path contents tree = .ok () after ∧
        makeDirectories (directoryOf path) tree = .ok () made ∧
        makeTemporary (directoryOf path) made = .ok () made ∧
        replaceFile path contents.toUTF8 made = .ok () after := by
  cases h : writeFile path contents tree with
  | ok _ after =>
      obtain ⟨_, made, hd, hw⟩ := Action.bind_eq_ok.1 (Action.mapError_eq_ok.1 h)
      obtain ⟨_, same, ht, hr⟩ := Action.bind_eq_ok.1 hw
      have hs := leaves_makeTemporary (directoryOf path) made
      rw [Action.leaves_of_ok ht] at hs
      subst hs
      rw [Action.leaves_of_ok hd]
      exact .inr ⟨after, rfl, hd, ht, hr⟩
  | error failure after =>
      obtain ⟨cause, rfl, hw⟩ := Action.mapError_eq_error.1 h
      refine .inl ⟨cause, congrArg _ ?_⟩
      rcases Action.bind_eq_error.1 hw with hd | ⟨_, made, hd, hw⟩
      · exact (Action.leaves_of_error hd).symm
      · have ht := leaves_makeTemporary (directoryOf path) made
        rw [Action.leaves_of_ok hd]
        rcases Action.bind_eq_error.1 hw with hm | ⟨_, same, hm, hw⟩
        · rwa [Action.leaves_of_error hm] at ht
        · rw [Action.leaves_of_ok hm] at ht
          exact (replaceFile_eq_error hw).trans ht

theorem writeFile_eq_ok (h : writeFile path contents tree = .ok () after) :
    ∃ place, Puts path contents.toUTF8 place tree after := by
  rcases writeFile_cases path contents tree with ⟨cause, hw⟩ | ⟨written, hw, -, -, hr⟩
  · cases h.symm.trans hw
  · cases h.symm.trans hw
    obtain ⟨place, hp, -⟩ := replaceFile_eq_ok hr
    exact ⟨place, .of_furnishes (furnishes_makeDirectories (directoryOf path) tree) hp⟩

/-- Nothing is left of a file that could not be written but directories made for it. -/
theorem writeFile_eq_error {failure : Failure}
    (h : writeFile path contents tree = .error failure after) :
    Furnishes tree after ∧ ∃ cause, failure = .write path cause := by
  rcases writeFile_cases path contents tree with ⟨cause, hw⟩ | ⟨written, hw, -⟩
  · cases h.symm.trans hw
    exact ⟨furnishes_makeDirectories (directoryOf path) tree, cause, rfl⟩
  · cases h.symm.trans hw

theorem Sound.writeFile (hs : tree.Sound) (path contents : String) :
    ((writeFile path contents).leaves tree).Sound := by
  cases h : FileTree.writeFile path contents tree with
  | ok _ after =>
      obtain ⟨place, hp⟩ := writeFile_eq_ok h
      rw [Action.leaves_of_ok h]
      exact hp.sound hs
  | error failure after =>
      rw [Action.leaves_of_error h]
      exact (writeFile_eq_error h).1.sound hs

theorem Puts.readText (h : Puts path contents.toUTF8 place tree after) :
    after.readText path = .ok contents :=
  readText_eq_ok.2 ⟨place, _, h.resolve, h.stands, Text.decode?_toUTF8 contents⟩

/-- Writing a file that is there changes it or fails, and nothing else. -/
theorem writeFile_of_file {held : ByteArray} (hr : tree.resolve path = .ok place)
    (hf : tree.entry? place = some (.file held)) (contents : String) :
    writeFile path contents tree = .ok () (tree.set place (.file contents.toUTF8)) ∨
      ∃ failure, writeFile path contents tree = .error failure tree := by
  have hd := makeDirectories_of_isDirectory (isDirectory_directoryOf hr hf)
  have hm : (makeDirectories (directoryOf path)).leaves tree = tree := Action.leaves_of_ok hd
  have hc := writeFile_cases path contents tree
  rw [hm] at hc
  rcases hc with ⟨cause, hw⟩ | ⟨after, hw, -, -, ho⟩
  · exact .inr ⟨_, hw⟩
  · obtain ⟨other, hp, rfl⟩ := replaceFile_eq_ok ho
    have he := Except.ok.inj (hp.resolve.symm.trans (hp.keeps.resolve hr))
    exact .inl (he ▸ hw)

end FileTree
end SourceStyle
