import Mathlib.Data.List.Nodup
import SourceStyle.Listing
import SourceStyle.Proofs.Files.Writing

/-!
What listing source files depends on: where files and directories stand, not what files hold. The
paths that are listed lead to the files.
-/

namespace SourceStyle

def Entry.blank : Entry → Entry
  | directory => directory
  | file _ => file ByteArray.empty

namespace FileTree

variable {tree after : FileTree} {place : Location} {path : String} {held bytes : ByteArray}

def outline (tree : FileTree) : FileTree :=
  { tree with entries := tree.entries.map fun entry => (entry.1, entry.2.blank) }

theorem entry?_outline (tree : FileTree) (place : Location) :
    tree.outline.entry? place = (tree.entry? place).map Entry.blank := by
  unfold entry?
  split
  · rfl
  · rw [outline]
    induction tree.entries with
    | nil => rfl
    | cons first rest ih =>
        rw [List.map_cons, List.lookup_cons, List.lookup_cons, ih]
        cases place == first.1 <;> rfl

theorem walk_outline (tree : FileTree) (here : Location) (segments : List String) :
    tree.outline.walk here segments = tree.walk here segments := by
  induction segments generalizing here with
  | nil => rw [walk, walk, entry?_outline, Option.isSome_map]
  | cons segment rest ih =>
      rw [walk, walk, entry?_outline, ih, ih, ih]
      cases tree.entry? here with
      | none => rfl
      | some entry => cases entry <;> rfl

theorem resolve_outline (tree : FileTree) (path : String) :
    tree.outline.resolve path = tree.resolve path := by
  rw [resolve, resolve, walk_outline]
  rfl

theorem sourcesBelow_outline (tree : FileTree) (directory : Location) :
    tree.outline.sourcesBelow directory = tree.sourcesBelow directory := by
  rw [sourcesBelow, sourcesBelow, outline, List.filterMap_map]
  refine List.filterMap_congr fun entry _ => ?_
  obtain ⟨place, entry⟩ := entry
  cases entry <;> rfl

theorem sourceFiles_outline (tree : FileTree) (root : String) :
    tree.outline.sourceFiles root = tree.sourceFiles root := by
  rw [sourceFiles, sourceFiles, resolve_outline]
  cases tree.resolve root with
  | error fault => rfl
  | ok place =>
      dsimp only
      rw [entry?_outline, sourcesBelow_outline]
      cases tree.entry? place with
      | none => rfl
      | some entry => cases entry <;> rfl

theorem resolve_of_outline (h : after.outline = tree.outline) (path : String) :
    after.resolve path = tree.resolve path := by
  rw [← resolve_outline, h, resolve_outline]

theorem sourceFiles_of_outline (h : after.outline = tree.outline) (root : String) :
    after.sourceFiles root = tree.sourceFiles root := by
  rw [← sourceFiles_outline, h, sourceFiles_outline]

theorem outline_set (hs : tree.Sound) (h : tree.entry? place = some (.file held)) (bytes : ByteArray) :
    (tree.set place (.file bytes)).outline = tree.outline := by
  have hp : place ≠ [] := by
    rintro rfl
    cases h
  rw [entry?_of_ne_nil hp] at h
  rw [outline, set, outline]
  simp only [h, Option.isSome_some, if_true, List.map_map, mk.injEq, and_true]
  refine List.map_congr_left fun entry hm => ?_
  obtain ⟨other, entry⟩ := entry
  rw [Function.comp_apply]
  split
  · rename_i ho
    subst ho
    have he := hs.entry?_of_mem hm
    rw [entry?_of_ne_nil hp, h] at he
    cases he
    rfl
  · rfl

/-- What a path reads as depends on what stands at its place only. -/
theorem readBytes_congr (hr : after.resolve path = tree.resolve path)
    (he : ∀ place, tree.resolve path = .ok place → after.entry? place = tree.entry? place) :
    after.readBytes path = tree.readBytes path := by
  rw [readBytes, readBytes, status, status, hr]
  cases h : tree.resolve path with
  | error fault => rfl
  | ok place =>
      dsimp only
      rw [he place h]

theorem readText_congr (h : after.readBytes path = tree.readBytes path) :
    after.readText path = tree.readText path := by
  rw [readText, readText, h]

theorem wayBelow?_eq_some {entry : Location × Entry} {below : List String} :
    wayBelow? place entry = some below ↔
      isListed below = true ∧ ∃ bytes, entry = (place ++ below, .file bytes) := by
  obtain ⟨other, entry⟩ := entry
  constructor
  · intro h
    cases entry with
    | directory => cases h
    | file bytes =>
        rw [wayBelow?] at h
        split at h
        · obtain ⟨hp, hl⟩ := Bool.and_eq_true_iff.1 ‹_›
          obtain ⟨rest, rfl⟩ := List.isPrefixOf_iff_prefix.1 hp
          rw [List.drop_left] at h hl
          cases h
          exact ⟨hl, bytes, rfl⟩
        · cases h
  · rintro ⟨hl, bytes, he⟩
    obtain ⟨rfl, rfl⟩ := Prod.mk.inj he
    simp [wayBelow?, hl]

theorem eq_append_of_wayBelow? {entry : Location × Entry} {below : List String}
    (h : wayBelow? place entry = some below) :
    below ≠ [] ∧ ∃ bytes, entry = (place ++ below, .file bytes) := by
  obtain ⟨hl, he⟩ := wayBelow?_eq_some.1 h
  refine ⟨?_, he⟩
  rintro rfl
  cases hl

theorem Sound.nodup_sourcesBelow (hs : tree.Sound) (place : Location) :
    (tree.sourcesBelow place).Nodup := by
  have hd : tree.entries.Pairwise fun first second => first.1 ≠ second.1 :=
    List.pairwise_map.1 hs.distinct
  rw [sourcesBelow, List.Nodup, List.pairwise_filterMap]
  refine hd.imp fun hn below hb other ho he => hn ?_
  obtain ⟨-, bytes, rfl⟩ := eq_append_of_wayBelow? hb
  obtain ⟨-, bytes, rfl⟩ := eq_append_of_wayBelow? ho
  rw [he]

/-- The files listed under a directory, each by the names on the way to it. -/
theorem sourceFiles_of_directory {root : String} {files : List String} (hs : tree.Sound)
    (hr : tree.resolve root = .ok place) (hd : tree.entry? place = some .directory)
    (h : tree.sourceFiles root = .ok files) :
    ∃ ways : List (List String), ways.Nodup ∧
      files = ways.map (Path.along root) ∧
      ∀ below ∈ ways, below ≠ [] ∧ (∀ name ∈ below, Path.IsName name) ∧
        ∃ bytes, tree.entry? (place ++ below) = some (.file bytes) := by
  rw [sourceFiles, hr] at h
  simp only [hd, Except.ok.injEq] at h
  have hp := List.mergeSort_perm (tree.sourcesBelow place) inOrder
  refine ⟨_, hp.nodup_iff.2 (hs.nodup_sourcesBelow place), h.symm, fun below hm => ?_⟩
  obtain ⟨entry, he, hw⟩ := List.mem_filterMap.1 (hp.mem_iff.1 hm)
  obtain ⟨hn, bytes, rfl⟩ := eq_append_of_wayBelow? hw
  exact ⟨hn, fun name hb => (hs.named _ he).2 name (List.mem_append_right place hb),
    bytes, hs.entry?_of_mem he⟩

theorem sourceFiles_of_sorted {root : String} (hr : tree.resolve root = .ok place)
    (hd : tree.entry? place = some .directory)
    (h : (tree.sourcesBelow place).Pairwise fun below other => inOrder below other) :
    tree.sourceFiles root = .ok ((tree.sourcesBelow place).map (Path.along root)) := by
  rw [sourceFiles, hr]
  simp only [hd, List.mergeSort_of_pairwise h]
  rfl

section
variable {base root : String} {names more : List String}

theorem resolve_along (hn : names ≠ []) (h : ∀ name ∈ names, Path.IsName name)
    (hr : tree.resolve (Path.along base names) = .ok place) :
    ∃ middle, tree.walk (tree.start base) (Path.stem base ++ [""]) = .ok middle ∧
      place = middle ++ names := by
  have hw := (resolve_eq_ok.1 hr).2
  rw [Path.segments_along hn h, start, Path.isAbsolute_along hn h, ← start] at hw
  obtain ⟨middle, hm, hw⟩ := (walk_append_eq_ok hn).1 hw
  exact ⟨middle, hm, walk_names h hw⟩

/-- Different ways lead from one path to different places. -/
theorem eq_of_resolve_along (hn : names ≠ []) (h : ∀ name ∈ names, Path.IsName name)
    (hm : more ≠ []) (h' : ∀ name ∈ more, Path.IsName name)
    (hr : tree.resolve (Path.along base names) = .ok place)
    (hr' : tree.resolve (Path.along base more) = .ok place) : names = more := by
  obtain ⟨middle, hw, hp⟩ := resolve_along hn h hr
  obtain ⟨other, hw', hp'⟩ := resolve_along hm h' hr'
  cases hw.symm.trans hw'
  exact List.append_cancel_left (hp.symm.trans hp')

theorem Sound.walk_names (hs : tree.Sound) {here : Location}
    (h : ∀ name ∈ names, Path.IsName name) (he : (tree.entry? (here ++ names)).isSome) :
    tree.walk here names = .ok (here ++ names) := by
  induction names generalizing here with
  | nil =>
      rw [List.append_nil] at he ⊢
      exact walk_nil_eq_ok.2 ⟨rfl, he⟩
  | cons name rest ih =>
      obtain ⟨hn, hr⟩ := List.forall_mem_cons.1 h
      refine walk_cons_eq_ok.2 ⟨hs.isDirectory_of_append (List.cons_ne_nil name rest) he, ?_⟩
      have ha : here ++ name :: rest = (here ++ [name]) ++ rest := List.append_cons ..
      rw [step_of_isName hn]
      rw [ha] at he ⊢
      exact ih hr he

/-- Names joined to a path lead down from where it leads. -/
theorem Sound.resolve_along (hs : tree.Sound) (hn : names ≠ [])
    (h : ∀ name ∈ names, Path.IsName name) (hr : tree.resolve base = .ok place)
    (he : (tree.entry? (place ++ names)).isSome) :
    tree.resolve (Path.along base names) = .ok (place ++ names) := by
  obtain ⟨hb, hw⟩ := resolve_eq_ok.1 hr
  have hm : tree.walk (tree.start base) (Path.stem base ++ [""]) = .ok place := by
    rw [Path.stem, if_neg hb]
    split
    · obtain ⟨front, -, hf, -⟩ := Path.segments_of_trailing_slash (eq_of_beq ‹_›)
      rw [hf] at hw ⊢
      rwa [List.dropLast_concat]
    · exact walk_snoc_empty_eq_ok.2 ⟨hw, hs.isDirectory_of_append hn he⟩
  have hj : Path.segments (Path.along base names) = _ := Path.segments_along hn h
  refine resolve_eq_ok.2 ⟨fun he => ?_, ?_⟩
  · have hl := congrArg List.getLast? hj
    rw [he, List.getLast?_append_of_ne_nil _ hn] at hl
    exact (h "" (List.mem_of_getLast? hl.symm)).ne_empty rfl
  · rw [hj, start, Path.isAbsolute_along hn h, ← start]
    exact (walk_append_eq_ok hn).2 ⟨place, hm, hs.walk_names h he⟩

def bytesBelow? (directory : Location) : Location × Entry → Option ByteArray
  | (location, .file bytes) => (wayBelow? directory (location, .file bytes)).map fun _ => bytes
  | (_, .directory) => none

def sourceContents (tree : FileTree) (place : Location) : List ByteArray :=
  match tree.entry? place with
  | some (.file bytes) => [bytes]
  | _ => tree.entries.filterMap (bytesBelow? place)

theorem Sound.readBytes_along (hs : tree.Sound) (hr : tree.resolve root = .ok place)
    {entry : Location × Entry} (hm : entry ∈ tree.entries) :
    (wayBelow? place entry).map (fun below => tree.readBytes (Path.along root below)) =
      (bytesBelow? place entry).map .ok := by
  obtain ⟨location, entry⟩ := entry
  cases entry with
  | directory => rfl
  | file bytes =>
      rw [bytesBelow?]
      cases hw : wayBelow? place (location, .file bytes) with
      | none => rfl
      | some below =>
          obtain ⟨hn, held, he⟩ := eq_append_of_wayBelow? hw
          obtain ⟨rfl, hb⟩ := Prod.mk.inj he
          have hf : tree.entry? (place ++ below) = some (.file bytes) := hs.entry?_of_mem hm
          have hi : ∀ name ∈ below, Path.IsName name :=
            fun name hb => (hs.named _ hm).2 name (List.mem_append_right place hb)
          have ha := hs.resolve_along hn hi hr (by rw [hf, Option.isSome_some])
          exact congrArg some (readBytes_eq_ok.2 ⟨_, ha, hf⟩)

/-- Listing and reading finds what the source files hold, in some order. -/
theorem exists_sourceFiles_perm (hs : tree.Sound) (hr : tree.resolve root = .ok place) :
    ∃ files, tree.sourceFiles root = .ok files ∧
      (files.map tree.readBytes).Perm ((tree.sourceContents place).map .ok) := by
  obtain ⟨entry, he⟩ := Option.isSome_iff_exists.1 (isSome_of_resolve hr)
  rw [sourceFiles, hr, sourceContents]
  cases entry with
  | file bytes =>
      refine ⟨[root], by simp [he], ?_⟩
      simp only [he, List.map_singleton, readBytes_eq_ok.2 ⟨place, hr, he⟩]
      exact .refl _
  | directory =>
      simp only [he]
      refine ⟨_, rfl, ?_⟩
      refine (((List.mergeSort_perm (tree.sourcesBelow place) inOrder).map _).map _).trans (.of_eq ?_)
      rw [List.map_map, sourcesBelow, List.map_filterMap, List.map_filterMap]
      exact List.filterMap_congr fun entry hm => hs.readBytes_along hr hm

end

end FileTree
end SourceStyle
