import SourceStyle.Text.CaseTables

/-!
Upper and lower case of texts in any script. A character may map to several, and a capital sigma
at the end of a word takes its final form.
-/

namespace SourceStyle.Text

/-- The image of a character under a case mapping: itself unless a table names another. -/
def mapCase (runs : List CaseRun) (sequences : List (Nat × List Nat)) (c : Char) : List Char :=
  match sequences.lookup c.toNat with
  | some codes => codes.map Char.ofNat
  | none =>
    match runs.find? (·.covers c.toNat) with
    | some run => [Char.ofNat (c.toNat + run.shift).toNat]
    | none => [c]

def lowerChar (c : Char) : List Char :=
  if c.toNat < 0x80 then [c.toLower] else mapCase lowerRuns lowerSequences c

def upperChar (c : Char) : List Char :=
  if c.toNat < 0x80 then [c.toUpper] else mapCase upperRuns upperSequences c

def isCased (c : Char) : Bool :=
  c.isAlpha || (0x80 ≤ c.toNat && casedRanges.contains c)

/-- Whether the first character that is not looked through has a case. -/
def meetsCased (text : List Char) : Bool :=
  match text.dropWhile caseIgnorableRanges.contains with
  | [] => false
  | c :: _ => isCased c

/-- The lower case of `text`, where `before` is what precedes it, last character first. A capital
sigma after a letter and before none is final. -/
def lowerAfter (before : List Char) : List Char → List Char
  | [] => []
  | c :: rest =>
    let image :=
      if c = 'Σ' then [if meetsCased before && !meetsCased rest then 'ς' else 'σ']
      else lowerChar c
    image ++ lowerAfter (c :: before) rest

def lower (text : List Char) : List Char :=
  lowerAfter [] text

def upper (text : List Char) : List Char :=
  text.flatMap upperChar

/-- What is decided for each code point in turn holds of every ASCII character. -/
@[elab_as_elim]
theorem of_ascii {P : Char → Prop} {c : Char} (hc : c.toNat < 0x80)
    (h : ∀ code < 0x80, P (Char.ofNat code)) : P c := by
  have hp := h c.toNat hc
  rwa [Char.ofNat_toNat] at hp

theorem upper_of_ascii {text : List Char} (h : ∀ c ∈ text, c.toNat < 0x80) :
    upper text = text.map Char.toUpper := by
  induction text with
  | nil => rfl
  | cons c rest ih =>
      rw [upper, List.flatMap_cons, upperChar, if_pos (h c List.mem_cons_self), List.map_cons,
        ← ih fun d hd => h d (List.mem_cons_of_mem c hd)]
      rfl

theorem lowerAfter_of_ascii {text : List Char} (h : ∀ c ∈ text, c.toNat < 0x80) (before : List Char) :
    lowerAfter before text = text.map Char.toLower := by
  induction text generalizing before with
  | nil => rfl
  | cons c rest ih =>
      have hc := h c List.mem_cons_self
      have hs : c ≠ 'Σ' := by
        rintro rfl
        exact absurd hc (by decide)
      rw [lowerAfter, if_neg hs, lowerChar, if_pos hc,
        ih (fun d hd => h d (List.mem_cons_of_mem c hd)), List.map_cons]
      rfl

end SourceStyle.Text
