import SourceStyle.Digest
import SourceStyle.FileTree
import SourceStyle.Yaml.Node.Reading
import SourceStyle.Yaml.Spelling

/-!
Digests of files known to be formatted, by the text that shows their path. A digest covers the
options and the contents, so a file is skipped only when both are those of the last result that was
recorded under that text.
-/

namespace SourceStyle

/-- Digests by the text that shows a path, each text once. -/
structure Cache where
  entries : List (String × String) := []
deriving DecidableEq, Repr

namespace Cache

/-- The digest of contents under options, which are given by a text that determines them. -/
def digest (optionsKey contents : String) : String :=
  Digest.hex [optionsKey, contents]

def get? (cache : Cache) (key : String) : Option String :=
  cache.entries.lookup key

/-- The cache with a digest under a key, in place of what it held there. -/
def insert (cache : Cache) (key value : String) : Cache where
  entries :=
    if (cache.get? key).isSome then
      cache.entries.map fun entry => if entry.1 = key then (key, value) else entry
    else cache.entries ++ [(key, value)]

/-- The key of a path. Paths that are shown alike share it. -/
def entryKey (path : String) : String :=
  Path.display path

/-- Whether contents are exactly what was recorded last under the key of a path and the same
options. -/
def isCurrent (cache : Cache) (path contents optionsKey : String) : Bool :=
  cache.get? (entryKey path) == some (digest optionsKey contents)

def record (cache : Cache) (path contents optionsKey : String) : Cache :=
  cache.insert (entryKey path) (digest optionsKey contents)

/-- The cache that pairs in order describe, where later pairs replace earlier ones. -/
def ofPairs (pairs : List (String × String)) : Cache :=
  pairs.foldl (fun cache (path, value) => cache.insert path value) {}

def entriesField : String := "entries"

def onlyField? (name : String) (fields : List (String × Yaml.Node)) : Option Yaml.Node :=
  match fields.filter (·.1 == name) with
  | [(_, value)] => some value
  | _ => none

def ofDocument? (document : Yaml.Document) : Option Cache := do
  let entries ← onlyField? entriesField (← document.fields? document.root)
  let fields ← document.fields? entries
  let pairs ← fields.mapM fun (path, value) => (document.scalar? value).map (path, ·)
  some (ofPairs pairs)

def ofText? (text : String) : Option Cache :=
  (Yaml.Document.ofText? text).bind ofDocument?

/-- Whether a key shares a line with the beginning of its value: it is one line of at most 128
bytes. -/
def sharesLine (path : String) : Bool :=
  path.utf8ByteSize ≤ 128 &&
    !path.toList.any fun c => Yaml.isBreakChar c || c == '\r' || c == '\u0085'

def entryIndentation : List Char :=
  [' ', ' ']

/-- The lines of an entry in a cache file: a key with its value, or both marked by signs of their
own. -/
def entryLines (entry : String × String) : List Char :=
  let key := Yaml.scalarLines 4 entry.1.toList
  let value := Yaml.scalarLines 4 entry.2.toList
  if sharesLine entry.1 then entryIndentation ++ key.dropLast ++ ':' :: ' ' :: value
  else entryIndentation ++ '?' :: ' ' :: key ++ entryIndentation ++ ':' :: ' ' :: value

def text (cache : Cache) : String :=
  if cache.entries.isEmpty then entriesField ++ ": \x7b\x7d\n"
  else entriesField ++ ":\n" ++ String.ofList (cache.entries.flatMap entryLines)

/-- The cache in a file, empty if there is none that can be read. -/
def load (tree : FileTree) (path : String) : Cache :=
  match tree.readText path with
  | .ok text => (ofText? text).getD {}
  | .error _ => {}

def save (cache : Cache) (path : String) : FileTree.Action Failure Unit := do
  match Path.parent? path with
  | some parent =>
    FileTree.Action.mapError (.io "cache directory" parent) (FileTree.makeDirectories parent)
  | none => pure ()
  FileTree.Action.mapError (.io "cache" path) (FileTree.overwriteFile path cache.text.toUTF8)

end Cache
end SourceStyle
