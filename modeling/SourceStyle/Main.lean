import SourceStyle.Invocation

/-!
The command line. The files that an invocation may need are read into a tree, the invocation runs on
the tree, and what it changed there is written back.
-/

namespace SourceStyle.Main

/-- The places that a path passes through, outermost first, with its own place last. -/
def placesOn (path : String) : List Location :=
  let step (places : List Location) (segment : String) : List Location :=
    let here := places.getLast?.getD []
    if Path.isFiller segment then places
    else if segment = ".." then places ++ [here.dropLast]
    else places ++ [here ++ [segment]]
  (Path.segments path).foldl step []

def pathTo (location : Location) : String :=
  "/" ++ Path.ofSegments location

/-- The names in the directory at a place, or nothing if there is no directory. -/
def namesIn (location : Location) : IO (Option (List String)) := do
  try
    let directory ← IO.FS.realPath (pathTo location)
    let entries ← directory.readDir
    return some (entries.toList.map (·.fileName))
  catch _ => return none

def readPlace (tree : FileTree) (location : Location) : IO FileTree := do
  match ← namesIn location with
  | some _ => return tree.set location .directory
  | none =>
    try return tree.set location (.file (← IO.FS.readBinFile (pathTo location)))
    catch _ => return tree

def readPath (tree : FileTree) (path : String) : IO FileTree :=
  (placesOn path).foldlM readPlace tree

/-- The tree with everything at and below a place. -/
partial def readBelow (tree : FileTree) (location : Location) : IO FileTree := do
  let tree ← readPlace tree location
  let names := (← namesIn location).getD []
  names.foldlM (fun tree name => readBelow tree (location ++ [name])) tree

/-- The tree with everything on and below a path. -/
def readDeep (tree : FileTree) (path : String) : IO FileTree := do
  let tree ← readPath tree path
  match (placesOn path).getLast? with
  | some location => readBelow tree location
  | none => return tree

def readTree (host : Host) (commandLine : List String) : IO FileTree := do
  match CommandLine.read commandLine with
  | .error _ => return {}
  | .ok arguments =>
    let (searched, others) := Invocation.pathsInUse host arguments
    let tree ← readPath {} host.workingDirectory
    let tree ← searched.foldlM readDeep tree
    others.foldlM readPath tree

/-- Everything that standard input still holds. -/
partial def readToEnd (stream : IO.FS.Stream) (before : ByteArray) : IO ByteArray := do
  let chunk ← stream.read 65536
  if chunk.isEmpty then return before
  readToEnd stream (before ++ chunk)

/-- What standard input delivers to an invocation that reads it. A terminal delivers nothing. -/
def readInput (commandLine : List String) : IO (List StandardInput.ReadEvent) := do
  let isNeeded := match CommandLine.read commandLine with
    | .ok arguments => Invocation.mayReadInput arguments
    | .error _ => false
  if !isNeeded then return []
  let stream ← IO.getStdin
  if ← stream.isTty then return [.stall]
  try return [.data (← readToEnd stream .empty).data.toList]
  catch cause => return [.failed (.described (toString cause))]

/-- Writes a file that changed, all of it or nothing. -/
def replace (location : Location) (contents : ByteArray) : IO Unit := do
  let path := pathTo location
  IO.FS.writeBinFile (path ++ ".unfinished") contents
  IO.FS.rename (path ++ ".unfinished") path

/-- Brings what stands on the system from one tree to the next. -/
def writeChanges (before after : FileTree) : IO Unit := do
  for (location, entry) in after.entries do
    if before.entry? location ≠ some entry then
      match entry with
      | .directory => IO.FS.createDir (pathTo location)
      | .file contents => replace location contents
  for (location, entry) in before.entries do
    if (after.entry? location).isNone && entry ≠ .directory then
      IO.FS.removeFile (pathTo location)

def hostOfProcess : IO Host := do
  let directory ← IO.currentDir
  return .ofEnvironment directory.toString (← IO.getEnv "HOME") (← IO.getEnv "XDG_CACHE_HOME")

def run (commandLine : List String) : IO Nat := do
  let begun ← IO.monoMsNow
  let host ← hostOfProcess
  let files ← readTree host commandLine
  let styled ← (← IO.getStderr).isTty
  let input ← readInput commandLine
  let elapsed := ((← IO.monoMsNow) - begun + 5) / 10
  let setting : Invocation.Setting := { host, input, styled, elapsed }
  let (console, code) := match Invocation.runCommandLine setting commandLine { files } with
    | .ok _ console => (console, 0)
    | .error failure console => (console, failure.exitCode)
  writeChanges files console.files
  IO.print console.out
  IO.eprint console.err
  return code

end SourceStyle.Main

/-- Formats the files that the arguments name, or standard input. -/
def main (arguments : List String) : IO UInt32 := do
  return UInt32.ofNat (← SourceStyle.Main.run arguments)
