/-!
Reading bytes as text: exactly, or with each maximal ill-formed part replaced.
-/

namespace SourceStyle.Text

/-- The character that stands for bytes that spell none. -/
def replacement : Char := '\uFFFD'

def isContinuation (b : UInt8) : Bool :=
  0x80 ≤ b && b ≤ 0xBF

/-- Whether a byte may follow the lead byte of a sequence of three or four: the ranges leave out
overlong forms, surrogates and what lies beyond the last code point. -/
def mayFollow (lead b : UInt8) : Bool :=
  if lead = 0xE0 then 0xA0 ≤ b && b ≤ 0xBF
  else if lead = 0xED then 0x80 ≤ b && b ≤ 0x9F
  else if lead = 0xF0 then 0x90 ≤ b && b ≤ 0xBF
  else if lead = 0xF4 then 0x80 ≤ b && b ≤ 0x8F
  else isContinuation b

/-- The character of a sequence, from the payload of its lead byte and the bytes that continue it.
-/
def assemble (payload : UInt8) (continuation : List UInt8) : Char :=
  Char.ofNat (continuation.foldl (fun code b => code * 64 + (b &&& 0x3F).toNat) payload.toNat)

/-- The first character of a non-empty byte list and the number of bytes after the first that it
takes. A sequence broken off takes the bytes that could have begun one. -/
def firstChar (lead : UInt8) (rest : List UInt8) : Char × Nat :=
  if lead < 0x80 then (Char.ofNat lead.toNat, 0)
  else if 0xC2 ≤ lead && lead ≤ 0xDF then
    match rest with
    | b :: _ => if isContinuation b then (assemble (lead &&& 0x1F) [b], 1) else (replacement, 0)
    | [] => (replacement, 0)
  else if 0xE0 ≤ lead && lead ≤ 0xEF then
    match rest with
    | b :: c :: _ =>
      if mayFollow lead b then
        if isContinuation c then (assemble (lead &&& 0x0F) [b, c], 2) else (replacement, 1)
      else (replacement, 0)
    | [b] => (replacement, if mayFollow lead b then 1 else 0)
    | [] => (replacement, 0)
  else if 0xF0 ≤ lead && lead ≤ 0xF4 then
    match rest with
    | b :: c :: d :: _ =>
      if mayFollow lead b then
        if isContinuation c then
          if isContinuation d then (assemble (lead &&& 0x07) [b, c, d], 3) else (replacement, 2)
        else (replacement, 1)
      else (replacement, 0)
    | [b, c] =>
      (replacement, if mayFollow lead b then if isContinuation c then 2 else 1 else 0)
    | [b] => (replacement, if mayFollow lead b then 1 else 0)
    | [] => (replacement, 0)
  else (replacement, 0)

/-- The characters that bytes spell, with the replacement character for each ill-formed part. -/
def decodeChars : List UInt8 → List Char
  | [] => []
  | lead :: rest =>
    let first := firstChar lead rest
    first.1 :: decodeChars (rest.drop first.2)
termination_by bytes => bytes.length
decreasing_by simp only [List.length_drop, List.length_cons]; omega

/-- The text that bytes spell, with the replacement character for each ill-formed part. -/
def decodeLossy (bytes : List UInt8) : String :=
  String.ofList (decodeChars bytes)

/-- The text that bytes spell, if they are well-formed throughout. -/
def decode? (bytes : ByteArray) : Option String :=
  String.fromUTF8? bytes

end SourceStyle.Text
