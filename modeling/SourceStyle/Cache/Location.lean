import SourceStyle.Cache
import SourceStyle.Host

/-!
Where the cache of a run is kept, and clearing it.
-/

namespace SourceStyle.Cache

/-- The directory of the default cache inside the user's cache directory. -/
def directoryName : String := "swiftfmt"

def fileName : String := "swiftfmt.cache"

inductive Location where
  | default (path : String)
  | explicit (path : String)
  | disabled
deriving DecidableEq, Repr

def Location.path? : Location → Option String
  | default path | explicit path => some path
  | disabled => none

/-- What the value of the cache flag asks for: using a cache, or clearing the default one if it can
be located. -/
inductive Directive where
  | use (location : Location)
  | clear (path : Option String)
deriving DecidableEq, Repr

/-- A directive, and why the default location could not be prepared. -/
structure Resolution where
  directive : Directive
  warning : Option Failure := none
deriving DecidableEq, Repr

/-- The file of the default cache, whose directory is made. -/
def defaultPath (host : Host) : FileTree.Action Failure String :=
  match host.cacheDirectory with
  | none => throw .noCacheDirectory
  | some base => do
    let directory := Path.join base directoryName
    FileTree.Action.mapError (.cacheDirectory directory) (FileTree.makeDirectories directory)
    pure (Path.join directory fileName)

/-- The file of the default cache, or else why there is none. -/
def defaultOrWarning {ε : Type} (host : Host) :
    FileTree.Action ε (Option String × Option Failure) :=
  fun tree =>
    match defaultPath host tree with
    | .ok path tree => .ok (some path, none) tree
    | .error failure tree => .ok (none, some failure) tree

/-- The directive of the cache flag. Without a value the default cache is used if it can be; a path
to a directory means the cache file inside. -/
def resolve (value : Option String) (host : Host) : FileTree.Action Failure Resolution :=
  match value with
  | none => do
    let (path, warning) ← defaultOrWarning host
    pure { directive := .use ((path.map Location.default).getD .disabled), warning }
  | some "" => throw (.missingValue "cache")
  | some "ignore" => pure { directive := .use .disabled }
  | some "clear" => do
    let (path, warning) ← defaultOrWarning host
    pure { directive := .clear path, warning }
  | some value => do
    let path := host.expandPath value
    let tree ← get
    let file := if tree.isDirectory path then Path.join path fileName else path
    pure { directive := .use (.explicit file) }

/-- Removes a cache file, and tells whether there was one. -/
def clear (path : String) : FileTree.Action Failure Bool := do
  let tree ← get
  if tree.contains path then
    FileTree.Action.mapError (.cacheDelete path) (FileTree.removeFile path)
    pure true
  else pure false

end SourceStyle.Cache
