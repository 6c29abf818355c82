import SourceStyle.Failure
import SourceStyle.Path
import SourceStyle.Text.Utf8

/-!
A tree of files and directories, and the operations that a system offers on it. Paths are resolved
segment by segment, so every segment before another must be a directory. An operation that fails
leaves the tree as it found it, except that directories made on the way stay.
-/

namespace SourceStyle

/-- A place in the tree: the names from the root down. -/
abbrev Location := List String

inductive Entry where
  | directory
  | file (contents : ByteArray)

instance : DecidableEq Entry
  | .directory, .directory => isTrue rfl
  | .directory, .file _ => isFalse nofun
  | .file _, .directory => isFalse nofun
  | .file ⟨a⟩, .file ⟨b⟩ =>
    if h : a = b then isTrue (by rw [h]) else isFalse (by intro same; cases same; exact h rfl)

/-- Entries by place, each place once, the directory that relative paths start from, and why the
system refuses to make anything in a directory, where it does. The root is always a directory and
is not listed. -/
structure FileTree where
  entries : List (Location × Entry) := []
  workingDirectory : Location := []
  refusal? : Location → Option SystemFault := fun _ => none

namespace FileTree

def entry? (tree : FileTree) (location : Location) : Option Entry :=
  if location = [] then some .directory else tree.entries.lookup location

/-- The tree with an entry at a place, in place of what stood there. -/
def set (tree : FileTree) (location : Location) (entry : Entry) : FileTree :=
  { tree with
    entries :=
      if (tree.entries.lookup location).isSome then
        tree.entries.map fun other => if other.1 = location then (location, entry) else other
      else tree.entries ++ [(location, entry)] }

/-- The tree without what stands at a place and below it. -/
def remove (tree : FileTree) (location : Location) : FileTree :=
  { tree with entries := tree.entries.filter fun other => !location.isPrefixOf other.1 }

def walk (tree : FileTree) (here : Location) : List String → Except SystemFault Location
  | [] => if (tree.entry? here).isSome then .ok here else .error .notFound
  | segment :: rest =>
    match tree.entry? here with
    | none => .error .notFound
    | some (.file _) => .error .notDirectory
    | some .directory =>
      if Path.isFiller segment then walk tree here rest
      else if segment = ".." then walk tree here.dropLast rest
      else walk tree (here ++ [segment]) rest

def start (tree : FileTree) (path : String) : Location :=
  if Path.isAbsolute path then [] else tree.workingDirectory

def resolve (tree : FileTree) (path : String) : Except SystemFault Location :=
  if path = "" then .error .notFound else tree.walk (tree.start path) (Path.segments path)

def status (tree : FileTree) (path : String) : Except SystemFault Entry :=
  match tree.resolve path with
  | .error fault => .error fault
  | .ok location =>
    match tree.entry? location with
    | some entry => .ok entry
    | none => .error .notFound

def contains (tree : FileTree) (path : String) : Bool :=
  match tree.status path with
  | .ok _ => true
  | .error _ => false

def isDirectory (tree : FileTree) (path : String) : Bool :=
  match tree.status path with
  | .ok .directory => true
  | _ => false

def readBytes (tree : FileTree) (path : String) : Except SystemFault ByteArray :=
  match tree.status path with
  | .error fault => .error fault
  | .ok .directory => .error .isDirectory
  | .ok (.file contents) => .ok contents

def readText (tree : FileTree) (path : String) : Except SystemFault String :=
  match tree.readBytes path with
  | .error fault => .error fault
  | .ok bytes =>
    match Text.decode? bytes with
    | some text => .ok text
    | none => .error .invalidText

/-- The last segment of a path that is to be made, replaced or removed: a name inside a directory,
or one that can only name a directory that is there. -/
inductive Target where
  | child (parent : Location) (name : String) (slashed : Bool)
  | standing
deriving DecidableEq, Repr

def Target.within (parent : Location) (last : String) (slashed : Bool) : Target :=
  if last = "." ∨ last = ".." then .standing else .child parent last slashed

def target (tree : FileTree) (path : String) : Except SystemFault Target :=
  if path = "" then .error .notFound
  else
    let reversed := (Path.segments path).reverse
    match reversed.dropWhile (· == "") with
    | [] => .ok .standing
    | last :: before =>
      (tree.walk (tree.start path) (before.reverse ++ [""])).map fun parent =>
        .within parent last (reversed.head? == some "")

/-- An action that may change the tree and may fail. -/
abbrev Action (ε α : Type) := EStateM ε FileTree α

def Action.mapError {ε ε' α : Type} (f : ε → ε') (action : Action ε α) : Action ε' α :=
  fun tree =>
    match action tree with
    | .ok value tree => .ok value tree
    | .error failure tree => .error (f failure) tree

/-- Puts something new in a directory, unless the system refuses it. -/
def make (parent : Location) (name : String) (entry : Entry) : Action SystemFault Unit :=
  fun tree =>
    match tree.refusal? parent with
    | some fault => .error fault tree
    | none => .ok () (tree.set (parent ++ [name]) entry)

def makeDirectory (path : String) : Action SystemFault Unit :=
  fun tree =>
    match tree.target path with
    | .error fault => .error fault tree
    | .ok .standing => .error .alreadyExists tree
    | .ok (.child parent name _) =>
      if (tree.entry? (parent ++ [name])).isSome then .error .alreadyExists tree
      else make parent name .directory tree

/-- Makes a directory, where one that is there will do. -/
def ensureDirectory (path : String) : Action SystemFault Unit :=
  fun tree =>
    match makeDirectory path tree with
    | .ok () tree => .ok () tree
    | .error fault tree => if tree.isDirectory path then .ok () tree else .error fault tree

/-- Makes the first of the paths a directory, and before it those above it that are missing. -/
def makeDirectoriesFrom : List String → Action SystemFault Unit
  | [] => fun tree => .error (.described "failed to create whole tree") tree
  | path :: above => fun tree =>
    if path = "" then .ok () tree
    else
      match makeDirectory path tree with
      | .ok () tree => .ok () tree
      | .error .notFound tree =>
        match makeDirectoriesFrom above tree with
        | .ok () tree => ensureDirectory path tree
        | .error fault tree => .error fault tree
      | .error fault tree => if tree.isDirectory path then .ok () tree else .error fault tree

/-- Makes a directory and the directories above it that are missing. -/
def makeDirectories (path : String) : Action SystemFault Unit :=
  makeDirectoriesFrom (path :: Path.ancestors path)

/-- Puts a finished file in place of what a path names, which must not be a directory. -/
def replaceFile (path : String) (contents : ByteArray) : Action SystemFault Unit :=
  fun tree =>
    match tree.target path with
    | .error fault => .error fault tree
    | .ok .standing => .error .busy tree
    | .ok (.child parent name slashed) =>
      if slashed then .error .notDirectory tree
      else if tree.entry? (parent ++ [name]) = some .directory then .error .isDirectory tree
      else .ok () (tree.set (parent ++ [name]) (.file contents))

/-- Opens the file that a path names for writing, or makes it, and writes the contents. -/
def overwriteFile (path : String) (contents : ByteArray) : Action SystemFault Unit :=
  fun tree =>
    match tree.target path with
    | .error fault => .error fault tree
    | .ok .standing => .error .isDirectory tree
    | .ok (.child parent name slashed) =>
      if slashed then .error .isDirectory tree
      else
        match tree.entry? (parent ++ [name]) with
        | some .directory => .error .isDirectory tree
        | some (.file _) => .ok () (tree.set (parent ++ [name]) (.file contents))
        | none => make parent name (.file contents) tree

def removeFile (path : String) : Action SystemFault Unit :=
  fun tree =>
    match tree.target path with
    | .error fault => .error fault tree
    | .ok .standing => .error .isDirectory tree
    | .ok (.child parent name slashed) =>
      match tree.entry? (parent ++ [name]) with
      | none => .error .notFound tree
      | some .directory => .error .isDirectory tree
      | some (.file _) =>
        if slashed then .error .notDirectory tree else .ok () (tree.remove (parent ++ [name]))

def directoryOf (path : String) : String :=
  match Path.parent? path with
  | some "" | none => "."
  | some parent => parent

/-- Makes a temporary file in a directory. It never outlives the action that makes it, so the tree
does not show it. -/
def makeTemporary (directory : String) : Action SystemFault Unit :=
  fun tree =>
    match tree.resolve directory with
    | .error fault => .error fault tree
    | .ok location =>
      match tree.refusal? location with
      | some fault => .error fault tree
      | none => .ok () tree

/-- Writes a file whole, with the directories it needs: a temporary file beside it is put in its
place. -/
def writeFile (path contents : String) : Action Failure Unit :=
  Action.mapError (.write path) do
    makeDirectories (directoryOf path)
    makeTemporary (directoryOf path)
    replaceFile path contents.toUTF8

end FileTree
end SourceStyle
