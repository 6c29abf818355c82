import SourceStyle.Text.Utf8

/-!
Paths as texts: joining, components, and the directories above a path. A path keeps its spelling;
only its components decide what it names. A system holds names of bytes, and those that are no text
are spelled with a sign that no name can have.
-/

namespace SourceStyle.Path

/-- The sign before a byte that is spelled on its own, as the character of its code. -/
def byteSign : Char := '\x00'

/-- A byte of a name that is not text. Only bytes from 0x80 on are parts of longer sequences. -/
def spellByte (b : UInt8) : List Char :=
  if b < 0x80 then [Char.ofNat b.toNat] else [byteSign, Char.ofNat b.toNat]

/-- The path of a name: the text that its bytes spell, or the bytes one by one. -/
def ofOctets (bytes : List UInt8) : String :=
  match Text.decode? ⟨bytes.toArray⟩ with
  | some text => text
  | none => String.ofList (bytes.flatMap spellByte)

def octetsOf : List Char → List UInt8
  | [] => []
  | [c] => String.utf8EncodeChar c
  | c :: d :: rest =>
    if c = byteSign ∧ 0x80 ≤ d.toNat ∧ d.toNat ≤ 0xFF then UInt8.ofNat d.toNat :: octetsOf rest
    else String.utf8EncodeChar c ++ octetsOf (d :: rest)

def octets (path : String) : List UInt8 :=
  octetsOf path.toList

/-- The text that shows a path, with the replacement character where its bytes spell none. -/
def display (path : String) : String :=
  Text.decodeLossy (octets path)

def splitSlash : List Char → List (List Char)
  | [] => [[]]
  | c :: rest =>
    if c = '/' then [] :: splitSlash rest
    else
      match splitSlash rest with
      | [] => [[c]]
      | segment :: segments => (c :: segment) :: segments

/-- The segments of a path between its slashes, empty ones included. -/
def segments (path : String) : List String :=
  (splitSlash path.toList).map String.ofList

def ofSegments (segments : List String) : String :=
  String.intercalate "/" segments

def isAbsolute (path : String) : Bool :=
  path.toList.head? == some '/'

/-- The path of `relative` inside `base`; an absolute path stands for itself. -/
def join (base relative : String) : String :=
  if isAbsolute relative || base.isEmpty then relative
  else if base.toList.getLast? == some '/' then base ++ relative
  else base ++ "/" ++ relative

/-- Segments that add nothing to a path that they do not begin. -/
def isFiller (segment : String) : Bool :=
  segment == "" || segment == "."

/-- The components of a path: the root or a leading dot, then the names. Paths with equal
components are taken for the same. -/
def components (path : String) : List String :=
  match segments path with
  | [] => []
  | first :: rest =>
    let names := rest.filter (!isFiller ·)
    if first = "" then if isAbsolute path then "/" :: names else names else first :: names

def same (path other : String) : Bool :=
  components path == components other

/-- The path that a first segment and the segments after it, last one first, spell. -/
def spell (first : String) (reversed : List String) : String :=
  if reversed.isEmpty && first.isEmpty then "/" else ofSegments (first :: reversed.reverse)

/-- The paths above the one that a first segment and the segments after it, last one first, spell.
-/
def above (first : String) (reversed : List String) : List String :=
  match h : reversed.dropWhile isFiller with
  | [] => if first = "" then [] else [""]
  | _ :: rest =>
    have : (rest.dropWhile isFiller).length < reversed.length := by
      have := (List.dropWhile_sublist isFiller (l := reversed)).length_le
      have := (List.dropWhile_sublist isFiller (l := rest)).length_le
      simp only [h, List.length_cons] at *
      omega
    spell first (rest.dropWhile isFiller) :: above first (rest.dropWhile isFiller)
termination_by reversed.length

/-- The paths above a path, nearest first. Above a relative path the last one is empty. -/
def ancestors (path : String) : List String :=
  match segments path with
  | [] => []
  | first :: rest => above first rest.reverse

def parent? (path : String) : Option String :=
  (ancestors path).head?

def fileName? (path : String) : Option String :=
  (components path).getLast?.filter fun name => name != "/" && name != "." && name != ".."

/-- What is left of a path's components after those of a prefix, as a path. -/
def relativeTo? (path base : String) : Option String :=
  if (components base).isPrefixOf (components path) then
    some (ofSegments ((components path).drop (components base).length))
  else none

/-- Whether a name ends in the extension, after a dot that does not begin it. -/
def hasExtension (extension name : String) : Bool :=
  let reversed := name.toList.reverse
  match reversed.dropWhile (· != '.') with
  | _ :: before =>
    !before.isEmpty && (reversed.takeWhile (· != '.')).reverse == extension.toList
  | [] => false

/-- The path with a home directory in place of a leading tilde. -/
def expandTilde (home : Option String) (path : String) : String :=
  match path.toList, home with
  | '~' :: rest, some home =>
    if rest.isEmpty || rest.head? == some '/' then home ++ String.ofList rest else path
  | _, _ => path

end SourceStyle.Path
