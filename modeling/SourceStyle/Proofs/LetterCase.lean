import SourceStyle.Rule

/-!
Letter case is settled once: what a case mapping makes of a text it leaves as it is. For the tables
this is one comparison of sets of code points, held as the bits of a number.
-/

namespace SourceStyle

namespace Text

def bits : List Nat → Nat
  | [] => 0
  | code :: codes => 1 <<< code ||| bits codes

theorem testBit_bits {code : Nat} {codes : List Nat} (h : code ∈ codes) :
    (bits codes).testBit code = true := by
  induction codes with
  | nil => cases h
  | cons first codes ih =>
      rw [bits, Nat.testBit_or, Bool.or_eq_true]
      rcases List.mem_cons.1 h with rfl | h
      · left
        simp [Nat.testBit_shiftLeft]
      · exact .inr (ih h)

/-- Sets without common bits have no common members. -/
theorem not_mem_of_bits {first second : List Nat} (h : bits first &&& bits second = 0) {code : Nat}
    (hm : code ∈ first) : code ∉ second := by
  intro hs
  have hb := congrArg (Nat.testBit · code) h
  simp [testBit_bits hm, testBit_bits hs] at hb

def CaseRun.codes (run : CaseRun) : List Nat :=
  (List.range ((run.last - run.first) / run.step + 1)).map fun index => run.first + index * run.step

theorem CaseRun.mem_codes {run : CaseRun} {code : Nat} (h : run.covers code = true) :
    code ∈ run.codes := by
  simp only [covers, Bool.and_eq_true, decide_eq_true_eq, beq_iff_eq] at h
  obtain ⟨⟨hf, hl⟩, hs⟩ := h
  have hd := Nat.div_add_mod (code - run.first) run.step
  refine List.mem_map.2 ⟨(code - run.first) / run.step, List.mem_range.2 ?_, ?_⟩
  · have := Nat.div_le_div_right (c := run.step) (Nat.sub_le_sub_right hl run.first)
    omega
  · rw [Nat.mul_comm]
    omega

def mapped (runs : List CaseRun) (sequences : List (Nat × List Nat)) : List Nat :=
  runs.flatMap CaseRun.codes ++ sequences.map (·.1)

def images (runs : List CaseRun) (sequences : List (Nat × List Nat)) : List Nat :=
  (runs.flatMap fun run => run.codes.map fun code : Nat => (code + run.shift).toNat) ++
    sequences.flatMap (·.2)

section
variable {runs : List CaseRun} {sequences : List (Nat × List Nat)} {c d : Char}

theorem mapCase_eq_self (h : c.toNat ∉ mapped runs sequences) : mapCase runs sequences c = [c] := by
  have hl : sequences.lookup c.toNat = none := by
    refine List.lookup_eq_none_iff.2 fun entry hm => bne_iff_ne.2 fun he => h ?_
    exact List.mem_append_right _ (List.mem_map.2 ⟨entry, hm, he.symm⟩)
  have hf : runs.find? (·.covers c.toNat) = none := by
    refine List.find?_eq_none.2 fun run hm hc => h ?_
    exact List.mem_append_left _ (List.mem_flatMap.2 ⟨run, hm, CaseRun.mem_codes hc⟩)
  rw [mapCase, hl, hf]

theorem mem_mapCase (h : d ∈ mapCase runs sequences c) :
    d = c ∧ mapCase runs sequences c = [c] ∨ ∃ code ∈ images runs sequences, d = Char.ofNat code := by
  unfold mapCase at h ⊢
  split at h
  · rename_i codes hl
    obtain ⟨before, after, he, -⟩ := List.lookup_eq_some_iff.1 hl
    obtain ⟨code, hm, rfl⟩ := List.mem_map.1 h
    refine .inr ⟨code, List.mem_append_right _ (List.mem_flatMap.2 ⟨(c.toNat, codes), ?_, hm⟩), rfl⟩
    rw [he]
    exact List.mem_append_right before List.mem_cons_self
  · split at h
    · rename_i run hf
      have hc : run.covers c.toNat = true := by
        have hp := List.find?_some hf
        exact hp
      refine .inr ⟨_, List.mem_append_left _ (List.mem_flatMap.2 ⟨run, List.mem_of_find?_eq_some hf,
        List.mem_map.2 ⟨c.toNat, CaseRun.mem_codes hc, rfl⟩⟩), ?_⟩
      exact List.mem_singleton.1 h
    · exact .inl ⟨List.mem_singleton.1 h, rfl⟩

/-- What a mapping makes it leaves as it is, where it makes nothing that it changes. -/
theorem mapCase_of_mem {others : List Nat}
    (hb : bits (images runs sequences) &&& bits (mapped runs sequences ++ others) = 0)
    (h : d ∈ mapCase runs sequences c) :
    d = c ∧ mapCase runs sequences c = [c] ∨ d = '\x00' ∨
      d.toNat ∉ others ∧ mapCase runs sequences d = [d] := by
  rcases mem_mapCase h with h | ⟨code, hm, rfl⟩
  · exact .inl h
  · have hn := not_mem_of_bits hb hm
    rw [List.mem_append, not_or] at hn
    by_cases hv : code.isValidChar
    · have ht : (Char.ofNat code).toNat = code := by
        rw [Char.ofNat, dif_pos hv]
        rfl
      exact .inr (.inr ⟨ht.symm ▸ hn.2, mapCase_eq_self (ht.symm ▸ hn.1)⟩)
    · exact .inr (.inl (dif_neg hv))

end

/-- The upper case tables make nothing that they change, and no small letter. -/
theorem bits_upper :
    bits (images upperRuns upperSequences) &&&
      bits (mapped upperRuns upperSequences ++ List.range' 97 26) = 0 := by
  decide +kernel

/-- The lower case tables make nothing that they change, and no capital letter. -/
theorem bits_lower :
    bits (images lowerRuns lowerSequences) &&&
      bits (mapped lowerRuns lowerSequences ++ List.range' 65 26) = 0 := by
  decide +kernel

/-- On ASCII both mappings are those of the core characters. -/
theorem case_of_ascii {c : Char} (h : c.toNat < 0x80) :
    upperChar c.toUpper = [c.toUpper] ∧ lowerChar c.toLower = [c.toLower] ∧
      (c.toNat ∉ List.range' 97 26 → c.toUpper = c) ∧
      (c.toNat ∉ List.range' 65 26 → c.toLower = c) :=
  of_ascii h (by decide)

theorem upperChar_of_mem {c d : Char} (h : d ∈ upperChar c) : upperChar d = [d] := by
  unfold upperChar at h
  split at h
  · rename_i hc
    rw [List.mem_singleton.1 h]
    exact (case_of_ascii hc).1
  · rename_i hc
    unfold upperChar
    rcases mapCase_of_mem bits_upper h with ⟨rfl, he⟩ | rfl | ⟨hn, he⟩
    · rw [if_neg hc, he]
    · decide
    · split
      · rw [(case_of_ascii ‹_›).2.2.1 hn]
      · exact he

theorem lowerChar_of_mem {c d : Char} (h : d ∈ lowerChar c) : lowerChar d = [d] := by
  unfold lowerChar at h
  split at h
  · rename_i hc
    rw [List.mem_singleton.1 h]
    exact (case_of_ascii hc).2.1
  · rename_i hc
    unfold lowerChar
    rcases mapCase_of_mem bits_lower h with ⟨rfl, he⟩ | rfl | ⟨hn, he⟩
    · rw [if_neg hc, he]
    · decide
    · split
      · rw [(case_of_ascii ‹_›).2.2.2 hn]
      · exact he

theorem upper_eq_self {text : List Char} (h : ∀ c ∈ text, upperChar c = [c]) : upper text = text := by
  induction text with
  | nil => rfl
  | cons c text ih =>
      rw [upper, List.flatMap_cons, h c List.mem_cons_self]
      exact congrArg (c :: ·) (ih fun d hm => h d (List.mem_cons_of_mem c hm))

theorem upper_upper (text : List Char) : upper (upper text) = upper text := by
  refine upper_eq_self fun d hm => ?_
  obtain ⟨c, -, hd⟩ := List.mem_flatMap.1 hm
  exact upperChar_of_mem hd

theorem lowerAfter_eq_self {text : List Char} (h : ∀ c ∈ text, lowerChar c = [c])
    (before : List Char) : lowerAfter before text = text := by
  induction text generalizing before with
  | nil => rfl
  | cons c text ih =>
      have hl := h c List.mem_cons_self
      have hs : c ≠ 'Σ' := by
        rintro rfl
        exact absurd hl (by decide)
      rw [lowerAfter, if_neg hs, hl, ih fun d hm => h d (List.mem_cons_of_mem c hm)]
      rfl

theorem lowerChar_of_mem_lowerAfter {text : List Char} {before : List Char} :
    ∀ d ∈ lowerAfter before text, lowerChar d = [d] := by
  induction text generalizing before with
  | nil => simp [lowerAfter]
  | cons c text ih =>
      intro d hm
      rw [lowerAfter, List.mem_append] at hm
      rcases hm with hm | hm
      · split at hm
        · rw [List.mem_singleton] at hm
          subst hm
          split <;> decide
        · exact lowerChar_of_mem hm
      · exact ih d hm

theorem lower_lower (text : List Char) : lower (lower text) = lower text :=
  lowerAfter_eq_self lowerChar_of_mem_lowerAfter []

end Text

namespace Rule

theorem recaseHex_recaseHex (options : Options) (token : Token) :
    recaseHex options (recaseHex options token) = recaseHex options token := by
  have hr : ∀ digits, recase options (recase options digits) = recase options digits := by
    intro digits
    unfold recase
    split
    · exact Text.upper_upper digits
    · exact Text.lower_lower digits
  rcases recaseHex_cases options token with he | ⟨x, digits, -, -, he⟩
  · rw [he, he]
  · have hd : hexDigits? (String.ofList ('0' :: 'x' :: recase options digits)).toList =
        some (recase options digits) := by
      rw [String.toList_ofList]
      rfl
    rw [he, recaseHex_of_some hd, hr]

end Rule
end SourceStyle
