import SourceStyle.Proofs.Files.Writing

/-!
What a path comes through. Directories that are made for a path are among the places that it comes
through, and removing a file changes nothing but the place that its path leads to.
-/

namespace SourceStyle

theorem lookup_filter_key {α β : Type} [BEq α] [LawfulBEq α] (p : α → Bool) (place : α)
    (entries : List (α × β)) :
    (entries.filter fun entry => p entry.1).lookup place =
      if p place then entries.lookup place else none := by
  induction entries with
  | nil => simp
  | cons first rest ih =>
      obtain ⟨other, held⟩ := first
      rw [List.filter_cons, List.lookup_cons]
      cases ho : place == other with
      | true =>
          obtain rfl := eq_of_beq ho
          cases hp : p place <;> simp [hp, ih]
      | false => cases p other <;> simp [List.lookup_cons, ho, ih]

namespace FileTree

variable {tree middle after : FileTree} {here place other parent : Location}
  {path above base name : String} {fault : SystemFault}

/-- The place that a path leads to if there is something at each place before. -/
def lead (tree : FileTree) (path : String) : Location :=
  (Path.segments path).foldl step (tree.start path)

/-- The path leads to the place or comes through it. -/
def ComesThrough (tree : FileTree) (path : String) (place : Location) : Prop :=
  ∃ front, front <+: Path.segments path ∧ place = front.foldl step (tree.start path)

theorem eq_foldl_of_walk {segments : List String} (h : tree.walk here segments = .ok place) :
    place = segments.foldl step here := by
  induction segments generalizing here with
  | nil => exact (walk_nil_eq_ok.1 h).1
  | cons segment rest ih => exact ih (walk_cons_eq_ok.1 h).2

theorem isSome_of_walk_front {segments front : List String}
    (h : tree.walk here segments = .ok place) (hf : front <+: segments) :
    (tree.entry? (front.foldl step here)).isSome := by
  induction segments generalizing here front with
  | nil =>
      rw [List.prefix_nil.1 hf]
      exact (walk_nil_eq_ok.1 h).2
  | cons segment rest ih =>
      obtain ⟨hd, hw⟩ := walk_cons_eq_ok.1 h
      cases front with
      | nil => exact Option.isSome_of_eq_some hd
      | cons first more =>
          obtain ⟨hs, hm⟩ := List.cons_prefix_cons.1 hf
          rw [List.foldl_cons, hs]
          exact ih hw hm

theorem comesThrough_of_target {slashed : Bool}
    (h : tree.target path = .ok (.child parent name slashed)) :
    tree.ComesThrough path (parent ++ [name]) := by
  obtain ⟨front, empties, hs, -, -, hw, hn, -⟩ := target_eq_child h
  refine ⟨front ++ [name], ⟨empties, by rw [hs, List.append_assoc, List.singleton_append]⟩, ?_⟩
  rw [eq_foldl_of_walk (walk_snoc_empty_eq_ok.1 hw).1, List.foldl_append, List.foldl_cons,
    List.foldl_nil, step_of_isName hn]

theorem lead_of_target (h : tree.target path = .ok (.child parent name false)) :
    tree.lead path = parent ++ [name] := by
  obtain ⟨front, empties, hs, hf, -, hw, hn, -⟩ := target_eq_child h
  rw [List.isEmpty_iff.1 (Bool.not_eq_eq_eq_not.1 hf.symm)] at hs
  rw [lead, hs, eq_foldl_of_walk (walk_snoc_empty_eq_ok.1 hw).1, List.foldl_append, List.foldl_cons,
    List.foldl_nil, step_of_isName hn]

theorem ComesThrough.of_passesThrough (hp : Path.PassesThrough path above)
    (h : tree.ComesThrough above place) : tree.ComesThrough path place := by
  obtain ⟨way, hw, rfl⟩ := h
  obtain ⟨front, rest, -, hs, ha⟩ := hp.exists_segments
  have hf : front <+: Path.segments path := ⟨rest, hs.symm⟩
  rw [start, hp.isAbsolute_eq, ← start]
  obtain ha | ha := ha <;> rw [ha] at hw
  · exact ⟨way, hw.trans hf, rfl⟩
  · obtain rfl | hw := List.prefix_concat_iff.1 hw
    · exact ⟨front, hf, by rw [List.foldl_append]; rfl⟩
    · exact ⟨way, hw.trans hf, rfl⟩

/-- All that changed is that directories were made where a path comes through. -/
structure Paves (path : String) (tree after : FileTree) : Prop extends Furnishes tree after where
  along : ∀ place, after.entry? place ≠ tree.entry? place → tree.ComesThrough path place

theorem Paves.refl (path : String) (tree : FileTree) : Paves path tree tree :=
  ⟨.refl tree, fun _ h => absurd rfl h⟩

theorem Paves.trans (h : Paves path tree middle) (h' : Paves path middle after) :
    Paves path tree after := by
  refine ⟨h.toFurnishes.trans h'.toFurnishes, fun place hc => ?_⟩
  by_cases hm : middle.entry? place = tree.entry? place
  · have ht := h'.along place (hm ▸ hc)
    rwa [ComesThrough, start, h.workingDirectory, ← start] at ht
  · exact h.along place hm

theorem Paves.of_passesThrough (hp : Path.PassesThrough path above) (h : Paves above tree after) :
    Paves path tree after :=
  ⟨h.toFurnishes, fun place hc => (h.along place hc).of_passesThrough hp⟩

theorem makeDirectory_eq_ok (h : makeDirectory path tree = .ok () after) :
    ∃ parent name slashed, tree.target path = .ok (.child parent name slashed) ∧
      after = tree.set (parent ++ [name]) .directory := by
  rw [makeDirectory] at h
  cases ht : tree.target path with
  | error fault => simp [ht] at h
  | ok target =>
      rw [ht] at h
      cases target with
      | standing => cases h
      | child parent name slashed =>
          dsimp only [make] at h
          split at h
          · cases h
          · split at h
            · cases h
            · cases h
              exact ⟨parent, name, slashed, rfl, rfl⟩

/-- Where making a directory changes something, the path names a child of a directory, and that is
a directory now. -/
theorem target_of_changes
    (h : FileTree.entry? ((makeDirectory path).leaves tree) place ≠ tree.entry? place) :
    ∃ parent name slashed, tree.target path = .ok (.child parent name slashed) ∧
      place = parent ++ [name] ∧
      FileTree.entry? ((makeDirectory path).leaves tree) place = some .directory := by
  cases hm : makeDirectory path tree with
  | ok _ made =>
      obtain ⟨parent, name, slashed, ht, rfl⟩ := makeDirectory_eq_ok hm
      have hp : parent ++ [name] ≠ [] :=
        List.append_ne_nil_of_right_ne_nil _ (List.cons_ne_nil name [])
      rw [Action.leaves_of_ok hm, entry?_set hp] at h ⊢
      split at h
      · exact ⟨parent, name, slashed, ht, ‹_›, if_pos ‹_›⟩
      · exact absurd rfl h
  | error fault made =>
      rw [Action.leaves_of_error hm, makeDirectory_eq_error hm] at h
      exact absurd rfl h

theorem paves_makeDirectory (path : String) (tree : FileTree) :
    Paves path tree ((makeDirectory path).leaves tree) := by
  refine ⟨furnishes_makeDirectory path tree, ?_⟩
  intro place hc
  obtain ⟨parent, name, slashed, ht, rfl, -⟩ := target_of_changes hc
  exact comesThrough_of_target ht

theorem paves_makeDirectoriesFrom {paths : List String}
    (hc : (path :: paths).IsChain fun path above => above = "" ∨ Path.PassesThrough path above)
    (tree : FileTree) : Paves path tree ((makeDirectoriesFrom (path :: paths)).leaves tree) := by
  induction paths generalizing path tree with
  | nil =>
      obtain hl | hl | hl | hl := leaves_makeDirectoriesFrom_cons path [] tree <;> rw [hl]
      · exact .refl path tree
      · exact paves_makeDirectory path tree
      · exact .refl path tree
      · exact paves_makeDirectory path tree
  | cons above more ih =>
      obtain ⟨hp, hc⟩ := List.isChain_cons_cons.1 hc
      have ha : Paves path tree ((makeDirectoriesFrom (above :: more)).leaves tree) := by
        obtain rfl | hp := hp
        · exact .refl path tree
        · exact (ih hc tree).of_passesThrough hp
      obtain hl | hl | hl | hl := leaves_makeDirectoriesFrom_cons path (above :: more) tree <;>
        rw [hl]
      · exact .refl path tree
      · exact paves_makeDirectory path tree
      · exact ha
      · exact ha.trans (paves_makeDirectory path _)

/-- Directories that are made for a path are made where it comes through. -/
theorem paves_makeDirectories (path : String) (tree : FileTree) :
    Paves path tree ((makeDirectories path).leaves tree) :=
  paves_makeDirectoriesFrom (Path.isChain_ancestors path) tree

/-- A name joined to a directory that is there: nothing on the way is missing but the end. -/
theorem ComesThrough.of_join (hn : '/' ∉ name.toList) (hb : tree.isDirectory base = true)
    (h : tree.ComesThrough (Path.join base name) place) :
    (tree.entry? place).isSome ∨ place = tree.lead (Path.join base name) := by
  have ha : Path.isAbsolute name = false := by
    rw [Path.isAbsolute_of_segments (Path.segments_eq_singleton hn), List.isEmpty_nil,
      Bool.not_true, Bool.and_false]
  have hj : Path.segments (Path.join base name) = _ := Path.segments_join ha
  rw [Path.segments_eq_singleton hn] at hj
  obtain ⟨front, hf, rfl⟩ := h
  rw [hj] at hf
  obtain rfl | hf := List.prefix_concat_iff.1 hf
  · exact .inr (by rw [lead, hj])
  · obtain ⟨inside, hr, -⟩ := isDirectory_iff.1 hb
    have hw := (resolve_eq_ok.1 hr).2
    rw [start, Path.isAbsolute_join ha, ← start]
    exact .inl (isSome_of_walk_front hw (hf.trans (Path.stem_begins base)))

theorem removeFile_eq_ok (h : removeFile path tree = .ok () after) :
    ∃ bytes, tree.lead path ≠ [] ∧ tree.entry? (tree.lead path) = some (.file bytes) ∧
      after = tree.remove (tree.lead path) := by
  rw [removeFile] at h
  cases ht : tree.target path with
  | error fault => simp [ht] at h
  | ok target =>
      rw [ht] at h
      cases target with
      | standing => cases h
      | child parent name slashed =>
          dsimp only at h
          cases he : tree.entry? (parent ++ [name]) with
          | none => simp [he] at h
          | some entry =>
              cases entry with
              | directory => simp [he] at h
              | file bytes =>
                  cases slashed with
                  | true => simp [he] at h
                  | false =>
                      rw [he] at h
                      cases h
                      rw [lead_of_target ht]
                      exact ⟨bytes, List.append_ne_nil_of_right_ne_nil _ (List.cons_ne_nil name []),
                        he, rfl⟩

theorem removeFile_eq_error (h : removeFile path tree = .error fault after) : after = tree := by
  rw [removeFile] at h
  cases ht : tree.target path with
  | error cause => simp_all
  | ok target =>
      rw [ht] at h
      cases target with
      | standing => simp_all
      | child parent name slashed =>
          dsimp only at h
          split at h
          · simp_all
          · simp_all
          · split at h <;> simp_all

theorem entry?_remove (hp : place ≠ []) (other : Location) :
    FileTree.entry? (tree.remove place) other =
      if place.isPrefixOf other then none else tree.entry? other := by
  by_cases ho : other = []
  · have hf : place.isPrefixOf [] = false := by
      obtain ⟨name, rest, rfl⟩ := List.exists_cons_of_ne_nil hp
      rfl
    rw [ho, hf]
    rfl
  · rw [entry?_of_ne_nil ho, entry?_of_ne_nil ho, remove,
      lookup_filter_key fun other => !place.isPrefixOf other]
    cases place.isPrefixOf other <;> rfl

/-- Nothing is below a file, so nothing else goes with it. -/
theorem Sound.entry?_remove_file {bytes : ByteArray} (hs : tree.Sound) (hp : place ≠ [])
    (hf : tree.entry? place = some (.file bytes)) (other : Location) :
    FileTree.entry? (tree.remove place) other =
      if other = place then none else tree.entry? other := by
  rw [entry?_remove hp]
  by_cases ho : other = place
  · rw [if_pos ho, ho, if_pos (List.isPrefixOf_iff_prefix.2 (List.prefix_refl place))]
  · rw [if_neg ho]
    split
    · obtain ⟨rest, rfl⟩ := List.isPrefixOf_iff_prefix.1 ‹_›
      have hr : rest ≠ [] := by
        rintro rfl
        exact ho (List.append_nil place)
      refine Eq.symm (Option.not_isSome_iff_eq_none.1 fun he => ?_)
      cases hf.symm.trans (hs.isDirectory_of_append hr he)
    · rfl

end FileTree
end SourceStyle
