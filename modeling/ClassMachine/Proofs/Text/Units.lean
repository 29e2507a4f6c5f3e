/-
Units and texts. The units of a character are one unit that is no surrogate, or a high surrogate and a low one; either
way the character can be read back from the front of any sequence of units. So a sequence of units stands for a text
exactly if it is the units of that text (`ofUnits?_eq_some_iff`), and every other sequence stands for none.
-/
import ClassMachine.Text.Units

namespace ClassMachine.Text

/-! ## Numbers of units and characters -/

theorem isHighSurrogate_iff (unit : UInt16) :
    isHighSurrogate unit = true ↔ 0xD800 ≤ unit.toNat ∧ unit.toNat < 0xDC00 := by
  simp [isHighSurrogate, UInt16.le_iff_toNat_le, UInt16.lt_iff_toNat_lt]

theorem isLowSurrogate_iff (unit : UInt16) :
    isLowSurrogate unit = true ↔ 0xDC00 ≤ unit.toNat ∧ unit.toNat < 0xE000 := by
  simp [isLowSurrogate, UInt16.le_iff_toNat_le, UInt16.lt_iff_toNat_lt]

theorem toNat_unitOfNat {n : Nat} (h : n < 0x10000) : (UInt16.ofNat n).toNat = n :=
  UInt16.toNat_ofNat_of_lt' h

/-- No character has the number of a surrogate. -/
theorem toNat_char (c : Char) : c.toNat < 0xD800 ∨ 0xDFFF < c.toNat ∧ c.toNat < 0x110000 :=
  c.valid

theorem toNat_charOfNat {n : Nat} (h : n < 0xD800 ∨ 0xDFFF < n ∧ n < 0x110000) : (Char.ofNat n).toNat = n := by
  rw [Char.ofNat, dif_pos h]
  rfl

theorem toNat_pairChar {high low : UInt16} (hhigh : isHighSurrogate high = true) (hlow : isLowSurrogate low = true) :
    (pairChar high low).toNat = 0x10000 + (high.toNat - 0xD800) * 0x400 + (low.toNat - 0xDC00) := by
  rw [isHighSurrogate_iff] at hhigh
  rw [isLowSurrogate_iff] at hlow
  apply toNat_charOfNat
  omega

/-! ## Single characters -/

/-- A unit that is no surrogate is the only unit of its character. -/
theorem unitsOfChar_single {unit : UInt16} (hhigh : ¬ isHighSurrogate unit = true)
    (hlow : ¬ isLowSurrogate unit = true) : unitsOfChar (Char.ofNat unit.toNat) = [unit] := by
  rw [isHighSurrogate_iff] at hhigh
  rw [isLowSurrogate_iff] at hlow
  have hunit : unit.toNat < 0x10000 := unit.toNat_lt
  have hchar : (Char.ofNat unit.toNat).toNat = unit.toNat := toNat_charOfNat (by omega)
  unfold unitsOfChar
  rw [hchar, if_pos hunit, UInt16.ofNat_toNat]

/-- A pair of surrogates is the units of its character. -/
theorem unitsOfChar_pairChar {high low : UInt16} (hhigh : isHighSurrogate high = true)
    (hlow : isLowSurrogate low = true) : unitsOfChar (pairChar high low) = [high, low] := by
  have hchar := toNat_pairChar hhigh hlow
  rw [isHighSurrogate_iff] at hhigh
  rw [isLowSurrogate_iff] at hlow
  have hfirst : 0xD800 + ((pairChar high low).toNat - 0x10000) / 0x400 = high.toNat := by omega
  have hsecond : 0xDC00 + ((pairChar high low).toNat - 0x10000) % 0x400 = low.toNat := by omega
  unfold unitsOfChar
  rw [if_neg (by omega), hfirst, hsecond, UInt16.ofNat_toNat, UInt16.ofNat_toNat]

/-- The units of a character are a unit that is no surrogate, or a pair of surrogates. -/
theorem unitsOfChar_cases (c : Char) :
    (∃ unit, unitsOfChar c = [unit] ∧ ¬ isHighSurrogate unit = true ∧ ¬ isLowSurrogate unit = true ∧
      Char.ofNat unit.toNat = c) ∨
    ∃ high low, unitsOfChar c = [high, low] ∧ isHighSurrogate high = true ∧ isLowSurrogate low = true ∧
      pairChar high low = c := by
  have hc := toNat_char c
  unfold unitsOfChar
  by_cases hplane : c.toNat < 0x10000
  · have hunit : (UInt16.ofNat c.toNat).toNat = c.toNat := toNat_unitOfNat hplane
    refine .inl ⟨_, if_pos hplane, ?_, ?_, ?_⟩
    · rw [isHighSurrogate_iff, hunit]
      omega
    · rw [isLowSurrogate_iff, hunit]
      omega
    · rw [hunit, Char.ofNat_toNat]
  · have hfirst : (UInt16.ofNat (0xD800 + (c.toNat - 0x10000) / 0x400)).toNat =
        0xD800 + (c.toNat - 0x10000) / 0x400 := toNat_unitOfNat (by omega)
    have hsecond : (UInt16.ofNat (0xDC00 + (c.toNat - 0x10000) % 0x400)).toNat =
        0xDC00 + (c.toNat - 0x10000) % 0x400 := toNat_unitOfNat (by omega)
    refine .inr ⟨_, _, if_neg hplane, ?_, ?_, ?_⟩
    · rw [isHighSurrogate_iff, hfirst]
      omega
    · rw [isLowSurrogate_iff, hsecond]
      omega
    · unfold pairChar
      rw [hfirst, hsecond, show 0x10000 + (0xD800 + (c.toNat - 0x10000) / 0x400 - 0xD800) * 0x400 +
        (0xDC00 + (c.toNat - 0x10000) % 0x400 - 0xDC00) = c.toNat by omega, Char.ofNat_toNat]

/-! ## Texts -/

/-- The units of a character in front are read as that character. -/
theorem charsOfUnits?_append (c : Char) (rest : List UInt16) :
    charsOfUnits? (unitsOfChar c ++ rest) = (charsOfUnits? rest).map (c :: ·) := by
  obtain ⟨unit, hunits, hhigh, hlow, hchar⟩ | ⟨high, low, hunits, hhigh, hlow, hchar⟩ := unitsOfChar_cases c
  · rw [hunits, List.singleton_append, charsOfUnits?.eq_def]
    dsimp only
    rw [if_neg hhigh, if_neg hlow, hchar]
  · rw [hunits, List.cons_append, List.singleton_append, charsOfUnits?.eq_def]
    dsimp only
    rw [if_pos hhigh, if_pos hlow, hchar]

theorem charsOfUnits?_eq_some_iff {us : List UInt16} {chars : List Char} :
    charsOfUnits? us = some chars ↔ us = chars.flatMap unitsOfChar := by
  constructor
  · intro h
    fun_induction charsOfUnits? us generalizing chars with
    | case1 =>
      cases h
      rfl
    | case2 high hhigh low rest hlow ih =>
      obtain ⟨more, hmore, rfl⟩ := Option.map_eq_some_iff.1 h
      rw [List.flatMap_cons, unitsOfChar_pairChar hhigh hlow, ← ih hmore]
      rfl
    | case6 unit rest hhigh hlow ih =>
      obtain ⟨more, hmore, rfl⟩ := Option.map_eq_some_iff.1 h
      rw [List.flatMap_cons, unitsOfChar_single hhigh hlow, ← ih hmore]
      rfl
    -- a surrogate without its other half
    | case3 | case4 | case5 => cases h
  · rintro rfl
    induction chars with
    | nil => rfl
    | cons c chars ih => rw [List.flatMap_cons, charsOfUnits?_append, ih, Option.map_some]

/-- Units stand for a text exactly if they are the units of that text. -/
theorem ofUnits?_eq_some_iff {us : List UInt16} {text : String} : ofUnits? us = some text ↔ us = units text := by
  unfold ofUnits? units
  rw [Option.map_eq_some_iff]
  constructor
  · rintro ⟨chars, hchars, rfl⟩
    rw [String.toList_ofList]
    exact charsOfUnits?_eq_some_iff.1 hchars
  · intro h
    exact ⟨text.toList, charsOfUnits?_eq_some_iff.2 h, String.ofList_toList⟩

end ClassMachine.Text
