import SourceStyle.FileTree
import SourceStyle.Proofs.Files.Paths

/-!
What stands where in a tree, and the places that paths lead to. A path leads through directories
only, so it leads to the same place for as long as directories stay what they are.
-/

namespace SourceStyle

theorem lookup_replace {α β : Type} [BEq α] [LawfulBEq α] [DecidableEq α] (entries : List (α × β))
    (place other : α) (entry : β) :
    (entries.map fun held => if held.1 = place then (place, entry) else held).lookup other =
      if other = place then (entries.lookup place).map fun _ => entry else entries.lookup other := by
  induction entries with
  | nil => simp
  | cons first rest ih =>
      obtain ⟨location, held⟩ := first
      rw [List.map_cons]
      by_cases hl : other = location
      · subst hl
        by_cases ho : other = place
        · subst ho
          simp
        · simp [ho]
      · have hb : (other == location) = false := beq_eq_false_iff_ne.2 hl
        by_cases hf : location = place
        · have ho : other ≠ place := hf ▸ hl
          have hp : (other == place) = false := beq_eq_false_iff_ne.2 ho
          rw [if_pos hf, if_neg ho, List.lookup_cons, List.lookup_cons, ih, hb, hp, if_neg ho]
        · rw [if_neg hf, List.lookup_cons, ih, hb]
          by_cases ho : other = place
          · have hp : (place == location) = false := beq_eq_false_iff_ne.2 (Ne.symm hf)
            rw [if_pos ho, if_pos ho, List.lookup_cons, hp]
          · rw [if_neg ho, if_neg ho, List.lookup_cons, hb]

/-- Entries with one put in place of what stood there, or at the end if nothing did. -/
theorem lookup_put {α β : Type} [BEq α] [LawfulBEq α] [DecidableEq α] (entries : List (α × β))
    (place other : α) (entry : β) :
    (if (entries.lookup place).isSome then
        entries.map fun held => if held.1 = place then (place, entry) else held
      else entries ++ [(place, entry)]).lookup other =
      if other = place then some entry else entries.lookup other := by
  cases hl : entries.lookup place with
  | some held => rw [Option.isSome_some, if_pos rfl, lookup_replace, hl, Option.map_some]
  | none =>
      rw [Option.isSome_none, if_neg Bool.false_ne_true, List.lookup_append]
      by_cases he : other = place
      · rw [if_pos he, he, hl]
        simp
      · rw [if_neg he, List.lookup_cons, beq_eq_false_iff_ne.2 he]
        simp

namespace FileTree

variable {tree after : FileTree} {here place other parent : Location} {entry : Entry} {path : String}

theorem entry?_of_ne_nil (h : place ≠ []) : tree.entry? place = tree.entries.lookup place :=
  if_neg h

theorem entry?_set (hp : place ≠ []) (other : Location) :
    FileTree.entry? (tree.set place entry) other = if other = place then some entry else tree.entry? other := by
  by_cases ho : other = []
  · rw [ho, if_neg hp.symm]
    rfl
  · rw [entry?_of_ne_nil ho, entry?_of_ne_nil ho]
    exact lookup_put tree.entries place other entry

theorem entry?_set_self (hp : place ≠ []) : FileTree.entry? (tree.set place entry) place = some entry := by
  rw [entry?_set hp, if_pos rfl]

theorem entry?_set_of_ne (hp : place ≠ []) (ho : other ≠ place) :
    FileTree.entry? (tree.set place entry) other = tree.entry? other := by
  rw [entry?_set hp, if_neg ho]

def step (here : Location) (segment : String) : Location :=
  if Path.isFiller segment then here
  else if segment = ".." then here.dropLast
  else here ++ [segment]

theorem step_of_isName {name : String} (h : Path.IsName name) : step here name = here ++ [name] := by
  rw [step, h.not_isFiller, if_neg Bool.false_ne_true, if_neg h.ne_dots]

theorem walk_nil_eq_ok : tree.walk here [] = .ok place ↔ place = here ∧ (tree.entry? here).isSome := by
  rw [walk]
  split
  · rw [Except.ok.injEq, eq_comm]
    exact (and_iff_left ‹_›).symm
  · exact ⟨nofun, fun ⟨_, hs⟩ => absurd hs ‹_›⟩

theorem walk_cons_eq_ok {segment : String} {rest : List String} :
    tree.walk here (segment :: rest) = .ok place ↔
      tree.entry? here = some .directory ∧ tree.walk (step here segment) rest = .ok place := by
  rw [walk, step]
  cases tree.entry? here with
  | none => simp
  | some held =>
      cases held with
      | file contents => simp
      | directory =>
          dsimp only
          split
          · simp
          · split <;> simp

theorem walk_append_eq_ok {front rest : List String} (hr : rest ≠ []) :
    tree.walk here (front ++ rest) = .ok place ↔
      ∃ middle, tree.walk here (front ++ [""]) = .ok middle ∧ tree.walk middle rest = .ok place := by
  induction front generalizing here with
  | nil =>
      obtain ⟨segment, more, rfl⟩ := List.exists_cons_of_ne_nil hr
      have hs : step here "" = here := rfl
      simp only [List.nil_append, walk_cons_eq_ok, walk_nil_eq_ok, hs]
      constructor
      · intro ⟨hd, hw⟩
        exact ⟨here, ⟨hd, rfl, by rw [hd, Option.isSome_some]⟩, hd, hw⟩
      · intro ⟨middle, ⟨_, hm, _⟩, hd, hw⟩
        rw [hm] at hd hw
        exact ⟨hd, hw⟩
  | cons segment more ih =>
      simp only [List.cons_append, walk_cons_eq_ok, ih]
      constructor
      · intro ⟨hd, middle, hm, hw⟩
        exact ⟨middle, ⟨hd, hm⟩, hw⟩
      · intro ⟨middle, ⟨hd, hm⟩, hw⟩
        exact ⟨hd, middle, hm, hw⟩

theorem isSome_of_walk {segments : List String} (h : tree.walk here segments = .ok place) :
    (tree.entry? place).isSome := by
  induction segments generalizing here with
  | nil =>
      obtain ⟨rfl, hs⟩ := walk_nil_eq_ok.1 h
      exact hs
  | cons segment rest ih => exact ih (walk_cons_eq_ok.1 h).2

theorem walk_snoc_empty_eq_ok {front : List String} :
    tree.walk here (front ++ [""]) = .ok place ↔
      tree.walk here front = .ok place ∧ tree.entry? place = some .directory := by
  induction front generalizing here with
  | nil =>
      have hs : step here "" = here := rfl
      simp only [List.nil_append, walk_cons_eq_ok, walk_nil_eq_ok, hs]
      constructor
      · intro ⟨hd, hp, hs⟩
        exact ⟨⟨hp, hs⟩, hp ▸ hd⟩
      · intro ⟨⟨hp, hs⟩, hd⟩
        exact ⟨hp ▸ hd, hp, hs⟩
  | cons segment more ih =>
      rw [List.cons_append, walk_cons_eq_ok, walk_cons_eq_ok, ih]
      exact and_assoc.symm

theorem walk_names {names : List String} (h : ∀ name ∈ names, Path.IsName name)
    (hw : tree.walk here names = .ok place) : place = here ++ names := by
  induction names generalizing here with
  | nil => rw [List.append_nil, (walk_nil_eq_ok.1 hw).1]
  | cons name rest ih =>
      obtain ⟨hn, hr⟩ := List.forall_mem_cons.1 h
      have hp := ih hr (walk_cons_eq_ok.1 hw).2
      rwa [step_of_isName hn, List.append_assoc] at hp

theorem walk_fillers {fillers : List String} (h : ∀ segment ∈ fillers, Path.isFiller segment = true)
    (hw : tree.walk here fillers = .ok place) :
    place = here ∧ (fillers ≠ [] → tree.entry? here = some .directory) := by
  induction fillers with
  | nil => exact ⟨(walk_nil_eq_ok.1 hw).1, fun hn => absurd rfl hn⟩
  | cons segment rest ih =>
      obtain ⟨hf, hr⟩ := List.forall_mem_cons.1 h
      obtain ⟨hd, hw⟩ := walk_cons_eq_ok.1 hw
      rw [step, if_pos hf] at hw
      exact ⟨(ih hr hw).1, fun _ => hd⟩

theorem walk_of_fillers {fillers : List String} (h : ∀ segment ∈ fillers, Path.isFiller segment = true)
    (hs : (tree.entry? here).isSome) (hd : fillers ≠ [] → tree.entry? here = some .directory) :
    tree.walk here fillers = .ok here := by
  induction fillers with
  | nil => exact walk_nil_eq_ok.2 ⟨rfl, hs⟩
  | cons segment rest ih =>
      obtain ⟨hf, hr⟩ := List.forall_mem_cons.1 h
      have hh := hd (List.cons_ne_nil segment rest)
      refine walk_cons_eq_ok.2 ⟨hh, ?_⟩
      rw [step, if_pos hf]
      exact ih hr fun _ => hh

theorem resolve_eq_ok :
    tree.resolve path = .ok place ↔
      path ≠ "" ∧ tree.walk (tree.start path) (Path.segments path) = .ok place := by
  rw [resolve]
  split <;> simp_all

theorem isSome_of_resolve (h : tree.resolve path = .ok place) : (tree.entry? place).isSome :=
  isSome_of_walk (resolve_eq_ok.1 h).2

theorem status_eq_ok :
    tree.status path = .ok entry ↔
      ∃ place, tree.resolve path = .ok place ∧ tree.entry? place = some entry := by
  rw [status]
  cases hr : tree.resolve path with
  | error fault => simp
  | ok place =>
      obtain ⟨held, hh⟩ := Option.isSome_iff_exists.1 (isSome_of_resolve hr)
      simp [hh]

theorem isDirectory_iff :
    tree.isDirectory path = true ↔
      ∃ place, tree.resolve path = .ok place ∧ tree.entry? place = some .directory := by
  rw [isDirectory, ← status_eq_ok]
  split <;> simp_all

theorem readBytes_eq_ok {bytes : ByteArray} :
    tree.readBytes path = .ok bytes ↔
      ∃ place, tree.resolve path = .ok place ∧ tree.entry? place = some (.file bytes) := by
  rw [readBytes, ← status_eq_ok]
  split <;> simp_all

theorem readText_eq_ok {text : String} :
    tree.readText path = .ok text ↔ ∃ place bytes, tree.resolve path = .ok place ∧
      tree.entry? place = some (.file bytes) ∧ Text.decode? bytes = some text := by
  rw [readText]
  constructor
  · intro h
    split at h
    · cases h
    · rename_i bytes hb
      obtain ⟨place, hr, he⟩ := readBytes_eq_ok.1 hb
      split at h <;> cases h
      exact ⟨place, bytes, hr, he, ‹_›⟩
  · intro ⟨place, bytes, hr, he, hd⟩
    rw [readBytes_eq_ok.2 ⟨place, hr, he⟩]
    simp only [hd]

theorem isDirectory_of_passesThrough {above : String} (h : Path.PassesThrough path above)
    (hr : tree.resolve path = .ok place) : tree.isDirectory above = true := by
  obtain ⟨front, rest, hn, hs, ha⟩ := h.exists_segments
  have hw := (resolve_eq_ok.1 hr).2
  rw [hs] at hw
  obtain ⟨middle, hm, -⟩ := (walk_append_eq_ok hn).1 hw
  have hd := (walk_snoc_empty_eq_ok.1 hm).2
  refine isDirectory_iff.2 ⟨middle, resolve_eq_ok.2 ⟨h.ne_empty, ?_⟩, hd⟩
  rw [start, h.isAbsolute_eq, ← start]
  rcases ha with ha | ha <;> rw [ha]
  · exact (walk_snoc_empty_eq_ok.1 hm).1
  · exact hm

theorem target_eq (hp : path ≠ "") :
    (∀ segment ∈ Path.segments path, segment = "") ∧
        (∀ tree : FileTree, tree.target path = .ok .standing) ∨
      ∃ front last empties, Path.segments path = front ++ last :: empties ∧ last ≠ "" ∧
        (∀ segment ∈ empties, segment = "") ∧
        ∀ tree : FileTree, tree.target path =
          (tree.walk (tree.start path) (front ++ [""])).map fun parent =>
            .within parent last (!empties.isEmpty) := by
  have ht := List.takeWhile_append_dropWhile (p := (· == "")) (l := (Path.segments path).reverse)
  have he : ∀ segment ∈ ((Path.segments path).reverse.takeWhile (· == "")).reverse, segment = "" :=
    fun segment hm => eq_of_beq (List.all_eq_true.1 List.all_takeWhile segment (List.mem_reverse.1 hm))
  cases hd : (Path.segments path).reverse.dropWhile (· == "") with
  | nil =>
      rw [hd, List.append_nil] at ht
      rw [ht, List.reverse_reverse] at he
      refine .inl ⟨he, fun tree => ?_⟩
      rw [target, if_neg hp]
      simp only [hd]
  | cons last before =>
      rw [hd] at ht
      have hl : last ≠ "" := by
        have hh := List.head?_dropWhile_not (· == "") (Path.segments path).reverse
        rw [hd] at hh
        simpa using hh
      refine .inr ⟨before.reverse, last, _, ?_, hl, he, fun tree => ?_⟩
      · have hr := congrArg List.reverse ht
        simpa using hr.symm
      · have hs : ((Path.segments path).reverse.head? == some "") =
            !((Path.segments path).reverse.takeWhile (· == "")).reverse.isEmpty := by
          generalize (Path.segments path).reverse.takeWhile (· == "") = empties at he ht
          rw [← ht]
          cases empties with
          | nil => simpa using hl
          | cons segment rest => simp [he segment (by simp)]
        rw [target, if_neg hp]
        simp only [hd, hs]

theorem within_of_isName {name : String} {slashed : Bool} (h : Path.IsName name) :
    Target.within parent name slashed = .child parent name slashed :=
  if_neg (not_or.2 ⟨h.ne_dot, h.ne_dots⟩)

/-- What is there is a target: it stands where it can only be a directory, or it is a child of a
directory. -/
theorem target_of_resolve (h : tree.resolve path = .ok place) :
    tree.target path = .ok .standing ∨
      ∃ parent name slashed, tree.target path = .ok (.child parent name slashed) ∧
        place = parent ++ [name] ∧ (slashed = true → tree.entry? place = some .directory) := by
  obtain ⟨hp, hw⟩ := resolve_eq_ok.1 h
  rcases target_eq hp with ⟨-, ht⟩ | ⟨front, last, empties, hs, hl, he, ht⟩
  · exact .inl (ht tree)
  · have hn : '/' ∉ last.toList := Path.slash_notMem_of_mem_segments path (by simp [hs])
    rw [hs] at hw
    obtain ⟨parent, hm, hw⟩ := (walk_append_eq_ok (List.cons_ne_nil last empties)).1 hw
    rw [ht, hm]
    by_cases hd : last = "." ∨ last = ".."
    · exact .inl (congrArg _ (if_pos hd))
    · obtain ⟨hd, hds⟩ := not_or.1 hd
      have hk : ∀ segment ∈ empties, Path.isFiller segment = true := fun segment hm => by
        rw [he segment hm]
        rfl
      obtain ⟨rfl, hf⟩ := walk_fillers hk (walk_cons_eq_ok.1 hw).2
      rw [step_of_isName ⟨hl, hd, hds, hn⟩] at hf ⊢
      exact .inr ⟨parent, last, _, congrArg _ (within_of_isName ⟨hl, hd, hds, hn⟩), rfl,
        by simpa using hf⟩

/-- A child is a name in the directory that the segments before it lead to. -/
theorem target_eq_child {name : String} {slashed : Bool}
    (h : tree.target path = .ok (.child parent name slashed)) :
    ∃ front empties, Path.segments path = front ++ name :: empties ∧ slashed = !empties.isEmpty ∧
      (∀ segment ∈ empties, segment = "") ∧
      tree.walk (tree.start path) (front ++ [""]) = .ok parent ∧ Path.IsName name ∧
      ∀ other : FileTree, other.target path =
        (other.walk (other.start path) (front ++ [""])).map fun parent =>
          .within parent name slashed := by
  have hp : path ≠ "" := by
    rintro rfl
    cases h
  rcases target_eq hp with ⟨-, ht⟩ | ⟨front, last, empties, hs, hl, he, ht⟩
  · cases h.symm.trans (ht tree)
  · have hn : '/' ∉ last.toList := Path.slash_notMem_of_mem_segments path (by simp [hs])
    rw [ht] at h
    cases hw : tree.walk (tree.start path) (front ++ [""]) with
    | error fault =>
        rw [hw] at h
        cases h
    | ok middle =>
        rw [hw] at h
        by_cases hd : last = "." ∨ last = ".."
        · cases (congrArg Except.ok (if_pos hd)).symm.trans h
        · obtain ⟨hd, hds⟩ := not_or.1 hd
          have hi : Path.IsName last := ⟨hl, hd, hds, hn⟩
          obtain ⟨rfl, rfl, rfl⟩ := Target.child.inj
            ((within_of_isName hi).symm.trans (Except.ok.inj h))
          exact ⟨front, empties, hs, rfl, he, hw, hi, ht⟩

theorem target_child {name : String} {slashed : Bool}
    (h : tree.target path = .ok (.child parent name slashed)) :
    tree.entry? parent = some .directory ∧ Path.IsName name := by
  obtain ⟨front, empties, -, -, -, hw, hn, -⟩ := target_eq_child h
  exact ⟨(walk_snoc_empty_eq_ok.1 hw).2, hn⟩

/-- What stands under the name that a path ends in is what the path leads to, and with a slash
behind it if it is a directory. -/
theorem resolve_of_target {name : String} {slashed : Bool}
    (h : tree.target path = .ok (.child parent name slashed))
    (hs : (tree.entry? (parent ++ [name])).isSome)
    (hd : slashed = true → tree.entry? (parent ++ [name]) = some .directory) :
    tree.resolve path = .ok (parent ++ [name]) := by
  obtain ⟨front, empties, he, rfl, hk, hw, hn, -⟩ := target_eq_child h
  have hf : ∀ segment ∈ empties, Path.isFiller segment = true := by
    intro segment hm
    rw [hk segment hm]
    rfl
  have hne : empties ≠ [] → tree.entry? (parent ++ [name]) = some .directory := by
    intro hn
    apply hd
    simpa using hn
  refine resolve_eq_ok.2 ⟨?_, ?_⟩
  · rintro rfl
    cases h
  · rw [he, walk_append_eq_ok (List.cons_ne_nil name empties)]
    refine ⟨parent, hw, walk_cons_eq_ok.2 ⟨(target_child h).1, ?_⟩⟩
    rw [step_of_isName hn]
    exact walk_of_fillers hf hs hne

end FileTree
end SourceStyle
