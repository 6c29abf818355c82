import SourceStyle.FileTree.Temporary
import SourceStyle.Proofs.Files.Routes
import SourceStyle.Proofs.Turns

/-!
Writing a file is all or nothing. Whichever step fails, the files are those that were there before,
and all that is new is directories above the path. If none does, the text is where the path leads,
and nothing is left of the temporary file that it came through.
-/

namespace SourceStyle.FileTree

variable {tree middle made after : FileTree} {place temporary : Location}
  {path above directory name : String} {fault : SystemFault}

/-! ### Directories above a path -/

/-- All that changed is that directories were made, and some of the paths lead to them. -/
structure Raises (paths : List String) (tree after : FileTree) : Prop extends
    Furnishes tree after where
  named : ∀ place, after.entry? place ≠ tree.entry? place →
    ∃ path ∈ paths, after.resolve path = .ok place

theorem Raises.refl (paths : List String) (tree : FileTree) : Raises paths tree tree :=
  ⟨.refl tree, fun _ h => absurd rfl h⟩

theorem Raises.mono {paths more : List String} (h : Raises paths tree after) (hs : paths ⊆ more) :
    Raises more tree after := by
  refine ⟨h.toFurnishes, ?_⟩
  intro place hc
  obtain ⟨path, hm, hr⟩ := h.named place hc
  exact ⟨path, hs hm, hr⟩

theorem Raises.trans {paths : List String} (h : Raises paths tree middle)
    (h' : Raises paths middle after) : Raises paths tree after := by
  refine ⟨h.toFurnishes.trans h'.toFurnishes, ?_⟩
  intro place hc
  by_cases hm : middle.entry? place = tree.entry? place
  · rw [← hm] at hc
    exact h'.named place hc
  · obtain ⟨path, hp, hr⟩ := h.named place hm
    exact ⟨path, hp, h'.keeps.resolve hr⟩

theorem raises_makeDirectory (path : String) (tree : FileTree) :
    Raises [path] tree ((makeDirectory path).leaves tree) := by
  have hf := furnishes_makeDirectory path tree
  refine ⟨hf, ?_⟩
  intro place hc
  obtain ⟨parent, name, slashed, ht, rfl, hd⟩ := target_of_changes hc
  refine ⟨path, List.mem_singleton_self path, resolve_of_target (hf.keeps.target ht) ?_ fun _ => hd⟩
  rw [hd, Option.isSome_some]

theorem raises_makeDirectoriesFrom (paths : List String) (tree : FileTree) :
    Raises paths tree ((makeDirectoriesFrom paths).leaves tree) := by
  induction paths generalizing tree with
  | nil => exact .refl [] tree
  | cons path above ih =>
      have hp (tree : FileTree) : Raises (path :: above) tree ((makeDirectory path).leaves tree) :=
        (raises_makeDirectory path tree).mono fun other hm =>
          List.mem_cons.2 (.inl (List.mem_singleton.1 hm))
      have ha : Raises (path :: above) tree ((makeDirectoriesFrom above).leaves tree) :=
        (ih tree).mono (List.subset_cons_self path above)
      obtain h | h | h | h := leaves_makeDirectoriesFrom_cons path above tree <;> rw [h]
      · exact .refl _ tree
      · exact hp tree
      · exact ha
      · exact ha.trans (hp _)

/-- The directory that relative paths start from is not made. -/
theorem leaves_makeDirectories_dot (tree : FileTree) : (makeDirectories ".").leaves tree = tree := by
  have hm (tree : FileTree) : (makeDirectory ".").leaves tree = tree := by
    cases hd : makeDirectory "." tree with
    | ok _ made =>
        obtain ⟨parent, name, slashed, ht, -⟩ := makeDirectory_eq_ok hd
        obtain ⟨front, empties, hs, -, -, -, hn, -⟩ := target_eq_child ht
        have hmem : name ∈ Path.segments "." := by
          rw [hs]
          exact List.mem_append_right front List.mem_cons_self
        rw [show Path.segments "." = ["."] from rfl] at hmem
        exact absurd (List.mem_singleton.1 hmem) hn.ne_dot
    | error fault made => rw [Action.leaves_of_error hd, makeDirectory_eq_error hd]
  have hn : (makeDirectoriesFrom [""]).leaves tree = tree := rfl
  have ha : Path.ancestors "." = [""] := Path.above_of_nil rfl
  rw [makeDirectories, ha]
  obtain h | h | h | h := leaves_makeDirectoriesFrom_cons "." [""] tree
  · exact h
  · exact h.trans (hm tree)
  · exact h
  · exact h.trans (hm _)

theorem raises_makeDirectories (path : String) (tree : FileTree) :
    Raises (Path.ancestors path) tree ((makeDirectories (directoryOf path)).leaves tree) := by
  rw [directoryOf]
  split
  · rw [leaves_makeDirectories_dot]
    exact .refl _ tree
  · rw [leaves_makeDirectories_dot]
    exact .refl _ tree
  · rename_i parent hne hp
    have hn : parent ≠ "" := fun he => hne he
    rw [Path.ancestors_eq_cons hp hn]
    exact raises_makeDirectoriesFrom (parent :: Path.ancestors parent) tree

/-! ### The temporary file -/

/-- What is put at a place goes when the place is cleared. -/
theorem remove_set (tree : FileTree) (place : Location) (entry : Entry) :
    FileTree.remove (tree.set place entry) place = tree.remove place := by
  have hp : place.isPrefixOf place = true := List.isPrefixOf_iff_prefix.2 (List.prefix_refl place)
  have hm (entries : List (Location × Entry)) :
      (entries.map fun other => if other.1 = place then (place, entry) else other).filter
          (fun other => !place.isPrefixOf other.1) =
        entries.filter fun other => !place.isPrefixOf other.1 := by
    induction entries with
    | nil => rfl
    | cons first rest ih =>
        rw [List.map_cons, List.filter_cons, List.filter_cons, ih]
        by_cases hf : first.1 = place
        · simp [hf, hp]
        · simp [hf]
  rw [remove, remove, set]
  dsimp only
  split
  · rw [hm]
  · rw [List.filter_append, List.filter_singleton, hp]
    simp

theorem Sound.remove_of_none (hs : tree.Sound) (hn : tree.entry? place = none) :
    tree.remove place = tree := by
  have hk : ∀ entry ∈ tree.entries, (!place.isPrefixOf entry.1) = true := by
    intro entry hm
    rw [Bool.not_eq_eq_eq_not, Bool.not_true, ← Bool.not_eq_true, List.isPrefixOf_iff_prefix]
    rintro ⟨rest, he⟩
    have hs' : (tree.entry? (place ++ rest)).isSome := by
      rw [he, hs.entry?_of_mem hm, Option.isSome_some]
    by_cases hr : rest = []
    · rw [hr, List.append_nil, hn] at hs'
      cases hs'
    · cases hn.symm.trans (hs.isDirectory_of_append hr hs')
  rw [remove, List.filter_eq_self.2 hk]

theorem createTemporary_eq_ok (h : createTemporary directory name tree = .ok temporary after) :
    (∃ place, tree.resolve directory = .ok place ∧ temporary = place ++ [name]) ∧
      temporary ≠ [] ∧ tree.entry? temporary = none ∧
      after = tree.set temporary (.file ByteArray.empty) := by
  rw [createTemporary] at h
  cases hr : tree.resolve directory with
  | error fault => simp [hr] at h
  | ok location =>
      rw [hr] at h
      dsimp only [make] at h
      split at h
      · cases h
      · cases hf : tree.refusal? location with
        | some fault => simp [hf] at h
        | none =>
            rw [hf] at h
            cases h
            exact ⟨⟨location, rfl, rfl⟩, List.append_ne_nil_of_right_ne_nil _ (List.cons_ne_nil name []),
              Option.not_isSome_iff_eq_none.1 ‹_›, rfl⟩

theorem createTemporary_eq_error (h : createTemporary directory name tree = .error fault after) :
    after = tree := by
  rw [createTemporary] at h
  cases hr : tree.resolve directory with
  | error fault => simp_all
  | ok location =>
      rw [hr] at h
      dsimp only [make] at h
      split at h
      · simp_all
      · cases hf : tree.refusal? location <;> simp_all

variable {bytes : ByteArray}

/-- A temporary file that was filled is put where the path leads, or it is gone. -/
theorem orDiscard_whole (hs : made.Sound) (hp : temporary ≠ []) (hn : made.entry? temporary = none) :
    orDiscard temporary (do
        fillTemporary temporary bytes .whole
        moveTemporary temporary path)
      (made.set temporary (.file ByteArray.empty)) = replaceFile path bytes made := by
  let filled := (made.set temporary (.file ByteArray.empty)).set temporary (.file bytes)
  have hf : filled.entry? temporary = some (.file bytes) := entry?_set_self hp
  have hr : filled.remove temporary = made := by
    rw [remove_set, remove_set, hs.remove_of_none hn]
  have hb : (do
      fillTemporary temporary bytes .whole
      moveTemporary temporary path) (made.set temporary (.file ByteArray.empty)) =
      moveTemporary temporary path filled := Action.bind_of_ok rfl
  cases hw : replaceFile path bytes made with
  | ok _ after =>
      have hm : moveTemporary temporary path filled = .ok () after := by
        simp only [moveTemporary, hf, hr, hw]
      simp only [orDiscard, hb, hm]
  | error fault same =>
      have hm : moveTemporary temporary path filled = .error fault filled := by
        simp only [moveTemporary, hf, hr, hw]
      simp only [orDiscard, hb, hm]
      rw [hr, replaceFile_eq_error hw]

/-- A temporary file that could not be filled is gone. -/
theorem orDiscard_stopped (hs : made.Sound) (hn : made.entry? temporary = none)
    (written : ByteArray) (fault : SystemFault) :
    orDiscard temporary (do
        fillTemporary temporary bytes (.stopped written fault)
        moveTemporary temporary path)
      (made.set temporary (.file ByteArray.empty)) = .error fault made := by
  have hb : (do
      fillTemporary temporary bytes (.stopped written fault)
      moveTemporary temporary path) (made.set temporary (.file ByteArray.empty)) =
      .error fault ((made.set temporary (.file ByteArray.empty)).set temporary (.file written)) :=
    Action.bind_of_error rfl
  rw [orDiscard, hb]
  dsimp only
  rw [remove_set, remove_set, hs.remove_of_none hn]

/-- By way of a temporary file, bytes are put where the path leads, or nothing happens. -/
theorem replaceThrough_cases (hs : made.Sound) (name : String) (filling : Filling) (path : String)
    (bytes : ByteArray) :
    (∃ fault, replaceThrough name filling path bytes made = .error fault made) ∨
      ∃ after, replaceThrough name filling path bytes made = .ok () after ∧
        replaceFile path bytes made = .ok () after := by
  cases hc : createTemporary (directoryOf path) name made with
  | error fault same =>
      obtain rfl := createTemporary_eq_error hc
      exact .inl ⟨fault, Action.bind_of_error hc⟩
  | ok temporary created =>
      obtain ⟨-, hp, hn, rfl⟩ := createTemporary_eq_ok hc
      rw [replaceThrough, Action.bind_of_ok hc]
      cases filling with
      | whole =>
          rw [orDiscard_whole hs hp hn]
          cases hw : replaceFile path bytes made with
          | ok _ after => exact .inr ⟨after, rfl, rfl⟩
          | error fault same =>
              obtain rfl := replaceFile_eq_error hw
              exact .inl ⟨fault, rfl⟩
      | stopped written fault => exact .inl ⟨fault, orDiscard_stopped hs hn written fault⟩

/-- A temporary file with a new name can be made just where any can. -/
theorem createTemporary_of_new
    (hn : ∀ place, tree.resolve directory = .ok place → tree.entry? (place ++ [name]) = none) :
    (∃ fault, createTemporary directory name tree = .error fault tree ∧
        makeTemporary directory tree = .error fault tree) ∨
      ∃ temporary, temporary ≠ [] ∧ tree.entry? temporary = none ∧
        createTemporary directory name tree =
          .ok temporary (tree.set temporary (.file ByteArray.empty)) ∧
        makeTemporary directory tree = .ok () tree := by
  rw [createTemporary, makeTemporary]
  cases hr : tree.resolve directory with
  | error fault => exact .inl ⟨fault, rfl, rfl⟩
  | ok place =>
      have hf := hn place hr
      have hs : ¬(tree.entry? (place ++ [name])).isSome := by
        rw [hf]
        exact Bool.false_ne_true
      simp only [if_neg hs, make]
      cases tree.refusal? place with
      | some fault => exact .inl ⟨fault, rfl, rfl⟩
      | none =>
          refine .inr ⟨place ++ [name], ?_, hf, rfl, rfl⟩
          exact List.append_ne_nil_of_right_ne_nil _ (List.cons_ne_nil name [])

/-- By way of a temporary file with a new name, bytes are put where the path leads just as they are
without one. -/
theorem replaceThrough_whole (hs : made.Sound)
    (hn : ∀ place, made.resolve (directoryOf path) = .ok place →
      made.entry? (place ++ [name]) = none) :
    replaceThrough name .whole path bytes made =
      (do
        makeTemporary (directoryOf path)
        replaceFile path bytes) made := by
  rw [replaceThrough]
  rcases createTemporary_of_new hn with ⟨fault, hc, hm⟩ | ⟨temporary, hp, hf, hc, hm⟩
  · rw [Action.bind_of_error hc, Action.bind_of_error hm]
  · rw [Action.bind_of_ok hc, Action.bind_of_ok hm, orDiscard_whole hs hp hf]

/-! ### All or nothing -/

variable {contents : String} {filling : Filling}

/-- What stands at a place is what stood there, or a directory above the path where nothing did. -/
def KeptAt (path : String) (tree after : FileTree) (place : Location) : Prop :=
  after.entry? place = tree.entry? place ∨
    tree.entry? place = none ∧ after.entry? place = some .directory ∧
      ∃ above ∈ Path.ancestors path, after.resolve above = .ok place

/-- Writing ended with the text where the path leads and all else kept, or with everything kept. -/
def AllOrNothing (path contents : String) (tree : FileTree) :
    EStateM.Result Failure FileTree Unit → Prop
  | .ok _ after =>
    after.Sound ∧ ∃ place, after.resolve path = .ok place ∧
      after.entry? place = some (.file contents.toUTF8) ∧
      tree.entry? place ≠ some .directory ∧
      ∀ other, other ≠ place → KeptAt path tree after other
  | .error failure after =>
    after.Sound ∧ (∃ cause, failure = .write path cause) ∧ ∀ place, KeptAt path tree after place

theorem Raises.keptAt (h : Raises (Path.ancestors path) tree after) (place : Location) :
    KeptAt path tree after place := by
  rcases h.stands place with he | ⟨hn, hd⟩
  · exact .inl he
  · refine .inr ⟨hn, hd, h.named place ?_⟩
    rw [hd, hn]
    nofun

/-- Whatever fails once directories are made, nothing happened but that. -/
theorem allOrNothing_of_error (hs : tree.Sound) (path contents : String) (cause : SystemFault) :
    AllOrNothing path contents tree
      (.error (.write path cause) ((makeDirectories (directoryOf path)).leaves tree)) := by
  have hr := raises_makeDirectories path tree
  exact ⟨hr.sound hs, ⟨cause, rfl⟩, hr.keptAt⟩

/-- The text in place of what the path names, once directories are made. -/
theorem allOrNothing_of_replaceFile (hs : tree.Sound)
    (h : replaceFile path contents.toUTF8 ((makeDirectories (directoryOf path)).leaves tree) =
      .ok () after) :
    AllOrNothing path contents tree (.ok () after) := by
  have hr := raises_makeDirectories path tree
  generalize (makeDirectories (directoryOf path)).leaves tree = made at h hr
  obtain ⟨place, hp, rfl⟩ := replaceFile_eq_ok h
  have hne : place ≠ [] := by
    rintro rfl
    exact hp.free rfl
  refine ⟨hp.sound (hr.sound hs), place, hp.resolve, hp.stands, ?_, ?_⟩
  · intro hd
    exact hp.free (hr.keeps.directory place hd)
  · intro other hn
    rw [KeptAt, entry?_set_of_ne hne hn]
    rcases hr.keptAt other with hk | ⟨hf, hd, above, hm, ha⟩
    · exact .inl hk
    · exact .inr ⟨hf, hd, above, hm, hp.keeps.resolve ha⟩

/-- Step by step, too, a file is written in the tree that making its directories leaves, which is
all that is left of a file that could not be written. -/
theorem writeFileThrough_cases (hs : tree.Sound) (name : String) (filling : Filling)
    (path contents : String) :
    let made := (makeDirectories (directoryOf path)).leaves tree
    (∃ cause, writeFileThrough name filling path contents tree = .error (.write path cause) made) ∨
      ∃ after, writeFileThrough name filling path contents tree = .ok () after ∧
        replaceFile path contents.toUTF8 made = .ok () after := by
  have hsound := (furnishes_makeDirectories (directoryOf path) tree).sound hs
  cases hd : makeDirectories (directoryOf path) tree with
  | error cause made =>
      rw [Action.leaves_of_error hd]
      exact .inl ⟨cause, Action.mapError_eq_error.2 ⟨cause, rfl, Action.bind_of_error hd⟩⟩
  | ok _ made =>
      rw [Action.leaves_of_ok hd] at hsound ⊢
      rcases replaceThrough_cases hsound name filling path contents.toUTF8 with
        ⟨cause, hr⟩ | ⟨after, hr, hw⟩
      · refine .inl ⟨cause, Action.mapError_eq_error.2 ⟨cause, rfl, ?_⟩⟩
        rw [Action.bind_of_ok hd, hr]
      · refine .inr ⟨after, Action.mapError_eq_ok.2 ?_, hw⟩
        rw [Action.bind_of_ok hd, hr]

/-- Nothing has the name in the directory that a file goes into, once that directory is made. -/
def NewBeside (name path : String) (tree : FileTree) : Prop :=
  ∀ place, FileTree.resolve ((makeDirectories (directoryOf path)).leaves tree) (directoryOf path) =
      .ok place →
    FileTree.entry? ((makeDirectories (directoryOf path)).leaves tree) (place ++ [name]) = none

/-- By way of a temporary file that is filled, a file is written as it is in one step. -/
theorem writeFileThrough_whole (hs : tree.Sound) (hn : NewBeside name path tree) :
    writeFileThrough name .whole path contents tree = writeFile path contents tree := by
  have hsound := (furnishes_makeDirectories (directoryOf path) tree).sound hs
  have hb : (do
      makeDirectories (directoryOf path)
      replaceThrough name .whole path contents.toUTF8) tree = (do
      makeDirectories (directoryOf path)
      makeTemporary (directoryOf path)
      replaceFile path contents.toUTF8) tree := by
    rw [NewBeside] at hn
    cases hd : makeDirectories (directoryOf path) tree with
    | error cause made => rw [Action.bind_of_error hd, Action.bind_of_error hd]
    | ok _ made =>
        rw [Action.leaves_of_ok hd] at hsound hn
        rw [Action.bind_of_ok hd, Action.bind_of_ok hd]
        exact replaceThrough_whole hsound hn
  rw [writeFileThrough, writeFile, Action.mapError, Action.mapError, hb]

/-- Writing a file is all or nothing, and so it is step by step, whatever name the temporary file is
given and wherever filling it stops. If the name is new and filling does not stop, the steps come to
the same. -/
theorem writeFile_all_or_nothing (hs : tree.Sound) (path contents : String) :
    AllOrNothing path contents tree (writeFile path contents tree) ∧
      ∀ name filling,
        AllOrNothing path contents tree (writeFileThrough name filling path contents tree) ∧
          (NewBeside name path tree →
            writeFileThrough name .whole path contents tree = writeFile path contents tree) := by
  refine ⟨?_, fun name filling => ⟨?_, writeFileThrough_whole hs⟩⟩
  · rcases writeFile_cases path contents tree with ⟨cause, hw⟩ | ⟨after, hw, -, -, hr⟩ <;> rw [hw]
    · exact allOrNothing_of_error hs path contents cause
    · exact allOrNothing_of_replaceFile hs hr
  · rcases writeFileThrough_cases hs name filling path contents with
      ⟨cause, hw⟩ | ⟨after, hw, hr⟩ <;> rw [hw]
    · exact allOrNothing_of_error hs path contents cause
    · exact allOrNothing_of_replaceFile hs hr

/-! ### Part of the way -/

/-- What writing a file can have done to a tree by any time: directories were made; or besides there
is a new file next to where the path leads; or the text is where the path leads. -/
inductive Underway (path contents : String) (tree after : FileTree) : Prop
  | preparing (furnished : Furnishes tree after)
  | filling {made : FileTree} {directory : Location} {name : String} {written : ByteArray}
      (furnished : Furnishes tree made) (beside : made.resolve (directoryOf path) = .ok directory)
      (new : made.entry? (directory ++ [name]) = none)
      (there : after.entry? (directory ++ [name]) = some (.file written))
      (elsewhere : ∀ place, place ≠ directory ++ [name] → after.entry? place = made.entry? place)
  | finished {place : Location} (puts : Puts path contents.toUTF8 place tree after)

theorem Underway.of_furnishes (hf : Furnishes tree middle) (h : Underway path contents middle after) :
    Underway path contents tree after := by
  cases h with
  | preparing furnished => exact .preparing (hf.trans furnished)
  | filling furnished beside new there elsewhere =>
      exact .filling (hf.trans furnished) beside new there elsewhere
  | finished puts => exact .finished (.of_furnishes hf puts)

theorem underway_writeFileUntil (path contents : String) (progress : Progress) (tree : FileTree) :
    Underway path contents tree ((writeFileUntil path contents progress).leaves tree) := by
  cases progress with
  | preparing lacking =>
      rw [writeFileUntil, Action.leaves_mapError]
      exact .preparing (furnishes_makeDirectoriesFrom _ tree)
  | filling name written =>
      have hf := furnishes_makeDirectories (directoryOf path) tree
      rw [writeFileUntil, Action.leaves_mapError]
      cases hd : makeDirectories (directoryOf path) tree with
      | error fault made =>
          rw [Action.leaves_of_error hd] at hf
          rw [Action.leaves_of_error (Action.bind_of_error hd)]
          exact .preparing hf
      | ok _ made =>
          rw [Action.leaves_of_ok hd] at hf
          cases hc : createTemporary (directoryOf path) name made with
          | error fault same =>
              obtain rfl := createTemporary_eq_error hc
              rw [Action.leaves, Action.bind_of_ok hd, Action.bind_of_error hc]
              exact .preparing hf
          | ok temporary created =>
              obtain ⟨⟨directory, hr, rfl⟩, hp, hn, rfl⟩ := createTemporary_eq_ok hc
              rw [Action.leaves, Action.bind_of_ok hd, Action.bind_of_ok hc]
              refine .filling hf hr hn (entry?_set_self hp) fun place ho => ?_
              exact (entry?_set_of_ne hp ho).trans (entry?_set_of_ne hp ho)
  | finished =>
      rw [writeFileUntil]
      cases hw : writeFile path contents tree with
      | ok _ after =>
          obtain ⟨place, hl⟩ := writeFile_eq_ok hw
          rw [Action.leaves_of_ok hw]
          exact .finished hl
      | error failure after =>
          rw [Action.leaves_of_error hw]
          exact .preparing (writeFile_eq_error hw).1

def sourceTree : FileTree where
  entries := [(["src"], .directory), (["src", "a.swift"], .file "a\n".toUTF8)]

theorem sourceTree_newBeside : NewBeside ".b" "src/new/b.swift" sourceTree := by
  intro place h
  have hr : FileTree.resolve ((makeDirectories (directoryOf "src/new/b.swift")).leaves sourceTree)
      (directoryOf "src/new/b.swift") = .ok ["src", "new"] := by decide +kernel
  obtain rfl := Except.ok.inj (hr.symm.trans h)
  decide +kernel

/-- A file is written to a directory that is missing. If the disk is full once a part of it is in
the temporary file, the directory is all that is new. -/
theorem writeFile_all_or_nothing_missing_directory :
    (∃ after, writeFile "src/new/b.swift" "b\n" sourceTree = .ok () after ∧
      after.readText "src/new/b.swift" = .ok "b\n" ∧
      AllOrNothing "src/new/b.swift" "b\n" sourceTree (.ok () after) ∧
      writeFileThrough ".b" .whole "src/new/b.swift" "b\n" sourceTree = .ok () after) ∧
    ∃ failure after,
      writeFileThrough ".b" (.stopped "b".toUTF8 (.described "No space left on device"))
        "src/new/b.swift" "b\n" sourceTree = .error failure after ∧
      after.isDirectory "src/new" = true ∧ after.contains "src/new/.b" = false ∧
      AllOrNothing "src/new/b.swift" "b\n" sourceTree (.error failure after) := by
  have hs : sourceTree.Sound := by decide
  have hw : (writeFile "src/new/b.swift" "b\n").Ends sourceTree
      (fun _ after => after.readText "src/new/b.swift" = .ok "b\n") fun _ => False := by
    decide +kernel
  have hf : (writeFileThrough ".b" (.stopped "b".toUTF8 (.described "No space left on device"))
      "src/new/b.swift" "b\n").Ends sourceTree (fun _ _ => False)
      fun after => after.isDirectory "src/new" = true ∧ after.contains "src/new/.b" = false := by
    decide +kernel
  obtain ⟨ha, ht⟩ := writeFile_all_or_nothing hs "src/new/b.swift" "b\n"
  obtain ⟨hp, he⟩ := ht ".b" (.stopped "b".toUTF8 (.described "No space left on device"))
  rw [Action.Ends] at hw hf
  constructor
  · split at hw
    · rename_i after ho
      rw [ho] at ha he
      exact ⟨after, ho, hw, ha, he sourceTree_newBeside⟩
    · cases hw
  · split at hf
    · cases hf
    · rename_i failure after ho
      rw [ho] at hp
      exact ⟨failure, after, ho, hf.1, hf.2, hp⟩

end SourceStyle.FileTree
