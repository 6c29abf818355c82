import SourceStyle.Listing

/-!
The walk that finds the source files below a directory. It takes the names in a directory by their
bytes, goes into a directory as it comes to it, and passes over a hidden name and all that is below.
-/

namespace SourceStyle.FileTree

def isHidden (name : String) : Bool :=
  name.toList.head? == some '.'

def nameIn? (directory : Location) (entry : Location × Entry) : Option String :=
  if entry.1.dropLast = directory then entry.1.getLast? else none

def octets (name : String) : List UInt8 :=
  name.toUTF8.data.toList

def namesIn (tree : FileTree) (directory : Location) : List String :=
  (tree.entries.filterMap (nameIn? directory)).mergeSort fun a b => octets a ≤ octets b

theorem nameIn?_eq_some {directory : Location} {entry : Location × Entry} {name : String} :
    nameIn? directory entry = some name ↔ entry.1 = directory ++ [name] := by
  rw [nameIn?]
  constructor
  · intro h
    split at h
    · obtain ⟨front, hf⟩ := List.getLast?_eq_some_iff.1 h
      rw [← ‹entry.1.dropLast = directory›, hf, List.dropLast_concat]
    · cases h
  · intro h
    rw [h, List.dropLast_concat, if_pos rfl, List.getLast?_concat]

theorem mem_namesIn {tree : FileTree} {directory : Location} {name : String} :
    name ∈ tree.namesIn directory ↔ ∃ entry ∈ tree.entries, entry.1 = directory ++ [name] := by
  rw [namesIn, List.mem_mergeSort, List.mem_filterMap]
  simp only [nameIn?_eq_some]

def isBelow (place : Location) (entry : Location × Entry) : Bool :=
  place.isPrefixOf entry.1 && entry.1 != place

theorem isBelow_of_concat {place : Location} {name : String} {entry : Location × Entry}
    (h : isBelow (place ++ [name]) entry = true) : isBelow place entry = true := by
  obtain ⟨hp, -⟩ := Bool.and_eq_true_iff.1 h
  obtain ⟨rest, he⟩ := List.isPrefixOf_iff_prefix.1 hp
  simp [isBelow, ← he]

/-- Fewer entries are below a name than below the directory that it is in. -/
theorem countP_isBelow_lt {tree : FileTree} {place : Location} {name : String}
    (h : name ∈ tree.namesIn place) :
    tree.entries.countP (isBelow (place ++ [name])) < tree.entries.countP (isBelow place) := by
  obtain ⟨entry, hm, he⟩ := mem_namesIn.1 h
  have hp : isBelow place entry = true := by simp [isBelow, he]
  have hn : isBelow (place ++ [name]) entry = false := by simp [isBelow, he]
  obtain ⟨front, rest, hs⟩ := List.append_of_mem hm
  have hf : front.countP (isBelow (place ++ [name])) ≤ front.countP (isBelow place) :=
    List.countP_mono_left fun _ _ => isBelow_of_concat
  have hr : rest.countP (isBelow (place ++ [name])) ≤ rest.countP (isBelow place) :=
    List.countP_mono_left fun _ _ => isBelow_of_concat
  rw [hs, List.countP_append, List.countP_append, List.countP_cons_of_pos hp,
    List.countP_cons_of_neg (Bool.eq_false_iff.1 hn)]
  omega

/-- What a walk comes to below a directory, in turn, each by the names on the way to it. -/
def visit (tree : FileTree) (place : Location) : List (List String × Entry) :=
  (tree.namesIn place).attach.flatMap fun ⟨name, _⟩ =>
    if isHidden name then []
    else
      match tree.entry? (place ++ [name]) with
      | none => []
      | some (.file bytes) => [([name], .file bytes)]
      | some .directory =>
        ([name], .directory) :: (tree.visit (place ++ [name])).map (Prod.map (name :: ·) id)
termination_by tree.entries.countP (isBelow place)
decreasing_by exact countP_isBelow_lt ‹_›

/-- The way to what a walk comes to, if that is a source file. -/
def sourceWay? : List String × Entry → Option (List String)
  | (way, .file _) =>
    if way.getLast?.any (Path.hasExtension sourceExtension) then some way else none
  | (_, .directory) => none

/-- The source files that a walk comes to below a directory, in turn. -/
def visitSources (tree : FileTree) (place : Location) : List (List String) :=
  (tree.visit place).filterMap sourceWay?

end SourceStyle.FileTree
