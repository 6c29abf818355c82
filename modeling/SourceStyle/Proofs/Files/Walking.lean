import Mathlib.Data.List.Sort
import SourceStyle.Proofs.ByteOrder
import SourceStyle.Proofs.Files.Listing

/-!
A directory is listed as a walk finds its source files, and so all of them are listed, once each, in
the order of the names on the way to them.
-/

namespace SourceStyle

/-- A name has an extension without dots if more than nothing comes before a dot and the extension. -/
theorem Path.hasExtension_iff {extension name : String} (h : '.' ∉ extension.toList) :
    hasExtension extension name = true ↔ ∃ stem, stem ≠ "" ∧ name = stem ++ "." ++ extension := by
  have hp : ∀ c ∈ extension.toList.reverse, (c != '.') = true := by
    intro c hc
    rw [bne_iff_ne]
    rintro rfl
    exact h (List.mem_reverse.1 hc)
  rw [hasExtension]
  constructor
  · intro hn
    cases hd : name.toList.reverse.dropWhile (· != '.') with
    | nil => simp [hd] at hn
    | cons c before =>
        have hc : c = '.' := by
          have hh := List.head?_dropWhile_not (· != '.') name.toList.reverse
          rw [hd] at hh
          simpa using hh
        have ht := List.takeWhile_append_dropWhile (p := (· != '.')) (l := name.toList.reverse)
        simp only [hd, Bool.and_eq_true, Bool.not_eq_true', List.isEmpty_eq_false_iff,
          beq_iff_eq] at hn
        obtain ⟨hb, he⟩ := hn
        refine ⟨String.ofList before.reverse, ?_, ?_⟩
        · rw [Ne, ← String.toList_inj, String.toList_ofList]
          simpa using hb
        · have hr := congrArg List.reverse ht
          rw [hd, hc, List.reverse_append, he, List.reverse_reverse] at hr
          rw [← String.toList_inj, ← hr]
          simp
  · rintro ⟨stem, hs, rfl⟩
    have hne : stem.toList ≠ [] := fun he => hs (String.toList_eq_nil_iff.1 he)
    simp [List.dropWhile_append_of_pos hp, List.takeWhile_append_of_pos hp, hne]

namespace FileTree

variable {tree : FileTree} {place : Location} {entry : Entry} {way other : List String}
  {name root : String}

/-! ### What a walk comes to -/

/-- What a walk comes to at a name and below it. -/
def visitAt (tree : FileTree) (place : Location) (name : String) : List (List String × Entry) :=
  if isHidden name then []
  else
    match tree.entry? (place ++ [name]) with
    | none => []
    | some (.file bytes) => [([name], .file bytes)]
    | some .directory =>
      ([name], .directory) :: (tree.visit (place ++ [name])).map (Prod.map (name :: ·) id)

theorem visit_eq (tree : FileTree) (place : Location) :
    tree.visit place = (tree.namesIn place).flatMap (tree.visitAt place) := by
  rw [visit, List.flatMap_subtype (g := tree.visitAt place), List.unattach_attach]
  intro name _
  rfl

/-- At a name a walk comes to what has the name, and then to what it comes to below. -/
theorem mem_visitAt {rest : List String} :
    (name :: rest, entry) ∈ tree.visitAt place name ↔
      isHidden name = false ∧
        (rest = [] ∧ tree.entry? (place ++ [name]) = some entry ∨
          tree.entry? (place ++ [name]) = some .directory ∧
            (rest, entry) ∈ tree.visit (place ++ [name])) := by
  rw [visitAt]
  cases isHidden name with
  | true => simp
  | false =>
      cases tree.entry? (place ++ [name]) with
      | none => simp
      | some found =>
          cases found with
          | file bytes => simp [eq_comm]
          | directory => simp [eq_comm]

theorem eq_cons_of_mem_visitAt (h : (way, entry) ∈ tree.visitAt place name) :
    ∃ rest, way = name :: rest := by
  rw [visitAt] at h
  split at h
  · cases h
  · split at h
    · cases h
    · obtain ⟨rfl, -⟩ := Prod.mk.inj (List.mem_singleton.1 h)
      exact ⟨[], rfl⟩
    · rcases List.mem_cons.1 h with he | hm
      · exact ⟨[], congrArg Prod.fst he⟩
      · obtain ⟨visited, -, he⟩ := List.mem_map.1 hm
        exact ⟨visited.1, (congrArg Prod.fst he).symm⟩

theorem nil_notMem_visit : ([], entry) ∉ tree.visit place := by
  intro h
  rw [visit_eq] at h
  obtain ⟨name, -, hv⟩ := List.mem_flatMap.1 h
  obtain ⟨rest, hr⟩ := eq_cons_of_mem_visitAt hv
  cases hr

theorem mem_visit_cons {rest : List String} :
    (name :: rest, entry) ∈ tree.visit place ↔ (name :: rest, entry) ∈ tree.visitAt place name := by
  rw [visit_eq, List.mem_flatMap]
  constructor
  · rintro ⟨first, -, hv⟩
    obtain ⟨more, hr⟩ := eq_cons_of_mem_visitAt hv
    obtain ⟨rfl, -⟩ := List.cons.inj hr
    exact hv
  · intro hv
    refine ⟨name, ?_, hv⟩
    obtain ⟨found, he⟩ : ∃ found, tree.entry? (place ++ [name]) = some found := by
      rcases mem_visitAt.1 hv with ⟨-, ⟨-, he⟩ | ⟨he, -⟩⟩
      · exact ⟨_, he⟩
      · exact ⟨_, he⟩
    have hp : place ++ [name] ≠ [] :=
      List.append_ne_nil_of_right_ne_nil _ (List.cons_ne_nil name [])
    exact mem_namesIn.2 ⟨_, mem_entries_of_eq_some hp he, rfl⟩

/-- A walk comes to what is below the place on a way without hidden names, and to nothing else. -/
theorem Sound.mem_visit (hs : tree.Sound) :
    (way, entry) ∈ tree.visit place ↔
      way ≠ [] ∧ (∀ name ∈ way, isHidden name = false) ∧
        tree.entry? (place ++ way) = some entry := by
  induction way generalizing place with
  | nil => exact iff_of_false nil_notMem_visit fun h => h.1 rfl
  | cons name rest ih =>
      have ha : place ++ name :: rest = (place ++ [name]) ++ rest := List.append_cons ..
      rw [mem_visit_cons, mem_visitAt, ih, ha, List.forall_mem_cons]
      constructor
      · rintro ⟨hn, ⟨rfl, he⟩ | ⟨hd, -, hr, he⟩⟩
        · rw [List.append_nil]
          exact ⟨List.cons_ne_nil name [], ⟨hn, nofun⟩, he⟩
        · exact ⟨List.cons_ne_nil name rest, ⟨hn, hr⟩, he⟩
      · rintro ⟨-, ⟨hn, hr⟩, he⟩
        refine ⟨hn, ?_⟩
        by_cases hne : rest = []
        · left
          rw [hne, List.append_nil] at he
          exact ⟨hne, he⟩
        · right
          exact ⟨hs.isDirectory_of_append hne (Option.isSome_of_eq_some he), hne, hr, he⟩

/-! ### The order of a walk -/

/-- One way comes before another name by name, where the names first differ by their bytes. -/
def Precedes (way other : List String) : Prop :=
  way.map octets < other.map octets

instance : Std.Asymm Precedes :=
  ⟨fun _ _ h => List.lt_asymm h⟩

theorem precedes_of_octets_lt {first : String} {rest more : List String}
    (h : octets name < octets first) : Precedes (name :: rest) (first :: more) :=
  List.cons_lt_cons_iff.2 (.inl h)

theorem precedes_cons_iff : Precedes (name :: way) (name :: other) ↔ Precedes way other := by
  rw [Precedes, List.map_cons, List.map_cons, List.cons_lt_cons_self]
  rfl

theorem precedes_of_ne_nil (h : way ≠ []) : Precedes [name] (name :: way) := by
  rw [precedes_cons_iff]
  obtain ⟨first, rest, rfl⟩ := List.exists_cons_of_ne_nil h
  exact List.nil_lt_cons ..

/-- Sorting different items by a key that tells them apart puts each before those with later keys. -/
theorem pairwise_mergeSort_lt {α β : Type} [LE β] [LT β] [Std.IsLinearOrder β] [Std.LawfulOrderLT β]
    {key : α → β} {inOrder : α → α → Bool} (hk : Function.Injective key)
    (ho : ∀ a b, inOrder a b = true ↔ key a ≤ key b) {items : List α} (hn : items.Nodup) :
    (items.mergeSort inOrder).Pairwise fun a b => key a < key b := by
  have hle : (items.mergeSort inOrder).Pairwise fun a b => inOrder a b = true := by
    apply List.pairwise_mergeSort
    · intro a b c hab hbc
      rw [ho] at hab hbc ⊢
      exact Std.le_trans hab hbc
    · intro a b
      rw [Bool.or_eq_true_iff, ho, ho]
      exact Std.le_total
  refine hle.imp₂ ?_ ((List.mergeSort_perm items inOrder).nodup_iff.2 hn)
  intro a b hab hne
  exact Std.lt_of_le_of_ne ((ho a b).1 hab) (hk.ne hne)

theorem Sound.namesIn_pairwise (hs : tree.Sound) (place : Location) :
    (tree.namesIn place).Pairwise fun name other => octets name < octets other := by
  have hd : tree.entries.Pairwise fun first second => first.1 ≠ second.1 :=
    List.pairwise_map.1 hs.distinct
  have hn : (tree.entries.filterMap (nameIn? place)).Nodup := by
    rw [List.Nodup, List.pairwise_filterMap]
    refine hd.imp ?_
    rintro first second hne name hf other ho rfl
    exact hne ((nameIn?_eq_some.1 hf).trans (nameIn?_eq_some.1 ho).symm)
  exact pairwise_mergeSort_lt octets_injective (fun _ _ => decide_eq_true_iff) hn

theorem Sound.visitAt_pairwise (hs : tree.Sound)
    (h : (tree.visit (place ++ [name])).Pairwise fun visited other => Precedes visited.1 other.1) :
    (tree.visitAt place name).Pairwise fun visited other => Precedes visited.1 other.1 := by
  rw [visitAt]
  split
  · exact .nil
  · split
    · exact .nil
    · exact List.pairwise_singleton ..
    · refine List.pairwise_cons.2 ⟨?_, ?_⟩
      · intro later hm
        obtain ⟨⟨rest, entry⟩, hv, rfl⟩ := List.mem_map.1 hm
        exact precedes_of_ne_nil (hs.mem_visit.1 hv).1
      · rw [List.pairwise_map]
        exact h.imp fun hp => precedes_cons_iff.2 hp

/-- What a walk comes to later is later in the order of ways. -/
theorem Sound.visit_pairwise (hs : tree.Sound) (place : Location) :
    (tree.visit place).Pairwise fun visited other => Precedes visited.1 other.1 := by
  induction place using visit.induct tree with
  | case1 place ih =>
      rw [visit_eq, List.pairwise_flatMap]
      refine ⟨fun name hn => hs.visitAt_pairwise (ih name hn), ?_⟩
      refine (hs.namesIn_pairwise place).imp ?_
      intro name first hlt visited hv later hl
      obtain ⟨rest, hr⟩ := eq_cons_of_mem_visitAt hv
      obtain ⟨more, hm⟩ := eq_cons_of_mem_visitAt hl
      rw [hr, hm]
      exact precedes_of_octets_lt hlt

/-! ### The source files of a walk -/

/-- A file below the place whose name has the extension of source files, with no name on the way that
begins with a dot. -/
def IsSource (tree : FileTree) (place : Location) (way : List String) : Prop :=
  (∃ bytes, tree.entry? (place ++ way) = some (.file bytes)) ∧
    (∀ name ∈ way, name.toList.head? ≠ some '.') ∧
    ∃ front stem, stem ≠ "" ∧ way = front ++ [stem ++ ".swift"]

theorem any_hasExtension_iff :
    way.getLast?.any (Path.hasExtension sourceExtension) = true ↔
      ∃ front stem, stem ≠ "" ∧ way = front ++ [stem ++ ".swift"] := by
  have he : '.' ∉ sourceExtension.toList := by decide
  have hs (stem : String) : stem ++ "." ++ sourceExtension = stem ++ ".swift" := by
    rw [String.append_assoc]
    rfl
  constructor
  · intro h
    obtain ⟨last, hl, hx⟩ := (Option.any_eq_true _ _).1 h
    obtain ⟨front, rfl⟩ := List.getLast?_eq_some_iff.1 hl
    obtain ⟨stem, hn, rfl⟩ := (Path.hasExtension_iff he).1 hx
    exact ⟨front, stem, hn, by rw [hs]⟩
  · rintro ⟨front, stem, hn, rfl⟩
    rw [List.getLast?_concat, Option.any_some, Path.hasExtension_iff he]
    exact ⟨stem, hn, (hs stem).symm⟩

theorem isListed_iff :
    isListed way = true ↔ (∀ name ∈ way, name.toList.head? ≠ some '.') ∧
      ∃ front stem, stem ≠ "" ∧ way = front ++ [stem ++ ".swift"] := by
  rw [isListed, Bool.and_eq_true_iff, any_hasExtension_iff, List.all_eq_true]
  simp only [bne_iff_ne]

theorem Sound.mem_sourcesBelow (hs : tree.Sound) :
    way ∈ tree.sourcesBelow place ↔ tree.IsSource place way := by
  rw [sourcesBelow, List.mem_filterMap, IsSource, ← isListed_iff]
  constructor
  · rintro ⟨entry, hm, hw⟩
    obtain ⟨hl, bytes, rfl⟩ := wayBelow?_eq_some.1 hw
    exact ⟨⟨bytes, hs.entry?_of_mem hm⟩, hl⟩
  · rintro ⟨⟨bytes, he⟩, hl⟩
    refine ⟨(place ++ way, .file bytes), ?_, wayBelow?_eq_some.2 ⟨hl, bytes, rfl⟩⟩
    apply mem_entries_of_eq_some _ he
    intro hp
    rw [hp] at he
    cases he

theorem sourceWay?_eq_some {visited : List String × Entry} :
    sourceWay? visited = some way ↔ (∃ bytes, visited = (way, .file bytes)) ∧
      ∃ front stem, stem ≠ "" ∧ way = front ++ [stem ++ ".swift"] := by
  obtain ⟨found, entry⟩ := visited
  rw [← any_hasExtension_iff]
  cases entry with
  | directory => simp [sourceWay?]
  | file bytes =>
      rw [sourceWay?]
      constructor
      · intro h
        split at h
        · obtain rfl := Option.some.inj h
          exact ⟨⟨bytes, rfl⟩, ‹_›⟩
        · cases h
      · rintro ⟨⟨held, he⟩, hx⟩
        obtain ⟨rfl, -⟩ := Prod.mk.inj he
        exact if_pos hx

theorem isHidden_eq_false : isHidden name = false ↔ name.toList.head? ≠ some '.' :=
  beq_eq_false_iff_ne

/-- A walk finds the source files below the place, and nothing else. -/
theorem Sound.mem_visitSources (hs : tree.Sound) :
    way ∈ tree.visitSources place ↔ tree.IsSource place way := by
  rw [visitSources, List.mem_filterMap]
  constructor
  · rintro ⟨visited, hm, hw⟩
    obtain ⟨⟨bytes, rfl⟩, hx⟩ := sourceWay?_eq_some.1 hw
    obtain ⟨-, hn, he⟩ := hs.mem_visit.1 hm
    exact ⟨⟨bytes, he⟩, fun name hm => isHidden_eq_false.1 (hn name hm), hx⟩
  · rintro ⟨⟨bytes, he⟩, hn, hx⟩
    refine ⟨(way, .file bytes), hs.mem_visit.2 ⟨?_, ?_, he⟩, sourceWay?_eq_some.2 ⟨⟨bytes, rfl⟩, hx⟩⟩
    · obtain ⟨front, stem, -, rfl⟩ := hx
      exact List.append_ne_nil_of_right_ne_nil _ (List.cons_ne_nil _ [])
    · intro name hm
      exact isHidden_eq_false.2 (hn name hm)

theorem Sound.visitSources_pairwise (hs : tree.Sound) (place : Location) :
    (tree.visitSources place).Pairwise Precedes := by
  rw [visitSources, List.pairwise_filterMap]
  refine (hs.visit_pairwise place).imp ?_
  intro visited later hp way hw other ho
  obtain ⟨⟨bytes, rfl⟩, -⟩ := sourceWay?_eq_some.1 hw
  obtain ⟨⟨held, rfl⟩, -⟩ := sourceWay?_eq_some.1 ho
  exact hp

/-! ### The listing -/

/-- Sorting the source files puts them in the order in which a walk finds them. -/
theorem Sound.mergeSort_sourcesBelow (hs : tree.Sound) (place : Location) :
    (tree.sourcesBelow place).mergeSort inOrder = tree.visitSources place := by
  have hp : ((tree.sourcesBelow place).mergeSort inOrder).Pairwise Precedes :=
    pairwise_mergeSort_lt (List.map_injective_iff.2 octets_injective) inOrder_iff
      (hs.nodup_sourcesBelow place)
  apply List.Pairwise.eq_of_mem_iff hp (hs.visitSources_pairwise place)
  intro way
  rw [List.mem_mergeSort, hs.mem_sourcesBelow, hs.mem_visitSources]

/-- A hidden root, a hidden directory below it, a directory that is named like a source file, and
two names of which one begins the other. -/
def hiddenRoot : FileTree where
  entries := [([".src"], .directory), ([".src", "a"], .directory),
    ([".src", "a", "z.swift"], .file .empty), ([".src", "a!.swift"], .file .empty),
    ([".src", "b.swift"], .directory), ([".src", "b.swift", "c.swift"], .file .empty),
    ([".src", ".git"], .directory), ([".src", ".git", "d.swift"], .file .empty),
    ([".src", "notes.txt"], .file .empty)]

theorem hiddenRoot_sound : hiddenRoot.Sound := by decide

theorem hiddenRoot_visitSources :
    hiddenRoot.visitSources [".src"] =
      [["a", "z.swift"], ["a!.swift"], ["b.swift", "c.swift"]] := by
  have hb : hiddenRoot.sourcesBelow [".src"] =
      [["a", "z.swift"], ["a!.swift"], ["b.swift", "c.swift"]] := by decide +kernel
  rw [← hiddenRoot_sound.mergeSort_sourcesBelow, hb]
  exact List.mergeSort_of_pairwise (by decide +kernel)

end FileTree
end SourceStyle
