import SourceStyle.FileTree

/-!
Writing a file step by step. The text goes to a temporary file beside the path, which is then moved
to where the path leads. Until then each step can fail, and the temporary file is removed if one does.
Whoever looks at the files meanwhile can find any of the steps done.
-/

namespace SourceStyle.FileTree

/-- How filling a temporary file ends: all of the text is in it, or a fault comes when these bytes
are, be they a part of the text or all of it. -/
inductive Filling where
  | whole
  | stopped (written : ByteArray) (fault : SystemFault)

/-- Makes an empty file in a directory under a name that must be new there, and tells its place. -/
def createTemporary (directory name : String) : Action SystemFault Location :=
  fun tree =>
    match tree.resolve directory with
    | .error fault => .error fault tree
    | .ok location =>
      if (tree.entry? (location ++ [name])).isSome then .error .alreadyExists tree
      else
        match make location name (.file ByteArray.empty) tree with
        | .ok () after => .ok (location ++ [name]) after
        | .error fault after => .error fault after

def fillTemporary (temporary : Location) (bytes : ByteArray) :
    Filling → Action SystemFault Unit
  | .whole => fun tree => .ok () (tree.set temporary (.file bytes))
  | .stopped written fault => fun tree => .error fault (tree.set temporary (.file written))

/-- Moves the file at a place to where a path leads, over the file that is there. The move is all of
it or nothing. -/
def moveTemporary (temporary : Location) (path : String) : Action SystemFault Unit :=
  fun tree =>
    match tree.entry? temporary with
    | some (.file bytes) =>
      match replaceFile path bytes (tree.remove temporary) with
      | .ok () after => .ok () after
      | .error fault _ => .error fault tree
    | _ => .error .notFound tree

/-- The action, after which the file at a place is gone if it fails. -/
def orDiscard (temporary : Location) (action : Action SystemFault Unit) : Action SystemFault Unit :=
  fun tree =>
    match action tree with
    | .ok () after => .ok () after
    | .error fault after => .error fault (after.remove temporary)

/-- Puts bytes in place of what a path names by way of a temporary file of this name beside it. -/
def replaceThrough (name : String) (filling : Filling) (path : String) (bytes : ByteArray) :
    Action SystemFault Unit := do
  let temporary ← createTemporary (directoryOf path) name
  orDiscard temporary do
    fillTemporary temporary bytes filling
    moveTemporary temporary path

/-- Writes a file whole, with the directories it needs, by way of a temporary file of this name. -/
def writeFileThrough (name : String) (filling : Filling) (path contents : String) :
    Action Failure Unit :=
  Action.mapError (.write path) do
    makeDirectories (directoryOf path)
    replaceThrough name filling path contents.toUTF8

/-- How far writing a file has come: some directories are still lacking, at the end of its path; or
they are there and so is the temporary file, with these bytes; or the file is written. -/
inductive Progress where
  | preparing (lacking : Nat)
  | filling (name : String) (written : ByteArray)
  | finished

def writeFileUntil (path contents : String) : Progress → Action Failure Unit
  | .preparing lacking =>
    Action.mapError (.write path) <|
      makeDirectoriesFrom ((directoryOf path :: Path.ancestors (directoryOf path)).drop lacking)
  | .filling name written =>
    Action.mapError (.write path) do
      makeDirectories (directoryOf path)
      let temporary ← createTemporary (directoryOf path) name
      fillTemporary temporary written .whole
  | .finished => writeFile path contents

end SourceStyle.FileTree
