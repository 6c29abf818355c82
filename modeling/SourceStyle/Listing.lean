import SourceStyle.FileTree

/-!
The source files at or below a path.
-/

namespace SourceStyle.FileTree

def sourceExtension : String := "swift"

/-- Whether a file below a directory, given by the names from the directory down, is listed: its
name has the extension, and no name on the way is hidden. -/
def isListed (below : List String) : Bool :=
  below.all (fun name => name.toList.head? != some '.') &&
    below.getLast?.any (Path.hasExtension sourceExtension)

/-- The names from a directory down to an entry, if it is a source file that is listed there. -/
def wayBelow? (directory : Location) : Location × Entry → Option (List String)
  | (location, .file _) =>
    let below := location.drop directory.length
    if directory.isPrefixOf location && isListed below then some below else none
  | (_, .directory) => none

/-- The source files below a directory, each by the names from the directory down. -/
def sourcesBelow (tree : FileTree) (directory : Location) : List (List String) :=
  tree.entries.filterMap (wayBelow? directory)

/-- Whether one list comes before another, item by item; a list comes before those it begins. -/
def comesBefore {α : Type} (itemBefore : α → α → Bool) : List α → List α → Bool
  | _, [] => false
  | [], _ :: _ => true
  | a :: as, b :: bs => itemBefore a b || (!itemBefore b a && comesBefore itemBefore as bs)

def nameBefore (a b : String) : Bool :=
  comesBefore (fun c d => c.toNat < d.toNat) a.toList b.toList

/-- Whether a file, given by the names on the way to it, comes no later than another. -/
def inOrder (a b : List String) : Bool :=
  !comesBefore nameBefore b a

/-- The source files at or below a path. A file is listed whatever its name; the files below a
directory come name by name in order. -/
def sourceFiles (tree : FileTree) (root : String) : Except Failure (List String) :=
  match tree.resolve root with
  | .error fault => .error (.io "input path" root fault)
  | .ok location =>
    match tree.entry? location with
    | some (.file _) => .ok [root]
    | _ =>
      let sorted := (tree.sourcesBelow location).mergeSort inOrder
      .ok (sorted.map fun below => Path.join root (Path.ofSegments below))

end SourceStyle.FileTree
