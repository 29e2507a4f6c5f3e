/-
Modified UTF-8 by its forms. A form spells one unit: the bits of the unit stand behind the marks of the bytes. Bytes
that are forms one after the other spell the units of these forms, and the reader finds exactly these
(`unitsOfBytes?_eq_some_iff`); it takes no other bytes. Where the units are those of a text, the bytes spell the text.
The writer chooses a form for each unit, so what it writes is read back.
-/
import ClassMachine.Proofs.Text.Units
import ClassMachine.Text.ModifiedUtf8
import Mathlib.Data.List.Forall2

namespace ClassMachine.Text.ModifiedUtf8

/-! ## Forms -/

/-- The bytes are a form of the unit. A single byte is the unit itself and not zero; else the first byte is marked `110`
or `1110` and every other `10`, and behind the marks are the bits of the unit. -/
inductive FormOf (unit : UInt16) : List UInt8 → Prop
  | one {byte : UInt8} (hbyte : 0x01 ≤ byte.toNat ∧ byte.toNat ≤ 0x7F) (hunit : unit.toNat = byte.toNat) :
      FormOf unit [byte]
  | two {lead low : UInt8} {x y : Nat} (hlead : lead.toNat = 0xC0 + x ∧ x < 0x20)
      (hlow : low.toNat = 0x80 + y ∧ y < 0x40)
      (hunit : unit.toNat = x * 0x40 + y) : FormOf unit [lead, low]
  | three {lead middle low : UInt8} {x y z : Nat} (hlead : lead.toNat = 0xE0 + x ∧ x < 0x10)
      (hmiddle : middle.toNat = 0x80 + y ∧ y < 0x40) (hlow : low.toNat = 0x80 + z ∧ z < 0x40)
      (hunit : unit.toNat = x * 0x1000 + y * 0x40 + z) : FormOf unit [lead, middle, low]

/-- The bytes are forms one after the other, and these are their units in order. -/
def Spells (bytes : List UInt8) (us : List UInt16) : Prop :=
  ∃ forms, bytes = forms.flatten ∧ List.Forall₂ FormOf us forms

theorem spells_nil : Spells [] [] :=
  ⟨[], rfl, .nil⟩

theorem Spells.cons {unit : UInt16} {form rest : List UInt8} {us : List UInt16} (hform : FormOf unit form)
    (hrest : Spells rest us) : Spells (form ++ rest) (unit :: us) := by
  obtain ⟨forms, rfl, hforms⟩ := hrest
  exact ⟨form :: forms, rfl, .cons hform hforms⟩

/-! ## Bytes as the reader sees them -/

theorem isContinuation_iff (byte : UInt8) : isContinuation byte = true ↔ 0x80 ≤ byte.toNat ∧ byte.toNat ≤ 0xBF := by
  simp [isContinuation, UInt8.le_iff_toNat_le]

theorem ofLead?_eq_some_iff {lead : UInt8} {form : Form} :
    Form.ofLead? lead = some form ↔ match form with
      | .one => 0x01 ≤ lead.toNat ∧ lead.toNat ≤ 0x7F
      | .two => 0xC0 ≤ lead.toNat ∧ lead.toNat ≤ 0xDF
      | .three => 0xE0 ≤ lead.toNat ∧ lead.toNat ≤ 0xEF := by
  simp only [Form.ofLead?, UInt8.le_iff_toNat_le, UInt8.reduceToNat]
  cases form <;> grind

theorem toNat_unitOfTwo (lead low : UInt8) :
    (unitOfTwo lead low).toNat = lead.toNat % 0x20 * 0x40 + low.toNat % 0x40 :=
  toNat_unitOfNat (by omega)

theorem toNat_unitOfThree (lead middle low : UInt8) :
    (unitOfThree lead middle low).toNat =
      lead.toNat % 0x10 * 0x1000 + middle.toNat % 0x40 * 0x40 + low.toNat % 0x40 :=
  toNat_unitOfNat (by omega)

/-! ## The reader -/

/-- A form in front is read as its unit. -/
theorem unitsOfBytes?_append {unit : UInt16} {form : List UInt8} (h : FormOf unit form) (rest : List UInt8) :
    unitsOfBytes? (form ++ rest) = (unitsOfBytes? rest).map (unit :: ·) := by
  cases h with
  | @one byte hbyte hunit =>
    have hlead : Form.ofLead? byte = some .one := ofLead?_eq_some_iff.2 hbyte
    have heq : byte.toUInt16 = unit := UInt16.toNat_inj.1 (by rw [UInt8.toNat_toUInt16, hunit])
    simp only [List.cons_append, List.nil_append, unitsOfBytes?, hlead, heq]
  | @two lead low x y hlead hlow hunit =>
    have hform : Form.ofLead? lead = some .two := ofLead?_eq_some_iff.2 (by omega)
    have hcontinues := (isContinuation_iff low).2 (by omega)
    have heq : unitOfTwo lead low = unit := UInt16.toNat_inj.1 (by rw [toNat_unitOfTwo]; omega)
    simp only [List.cons_append, List.nil_append, unitsOfBytes?, hform, hcontinues, heq, if_true]
  | @three lead middle low x y z hlead hmiddle hlow hunit =>
    have hform : Form.ofLead? lead = some .three := ofLead?_eq_some_iff.2 (by omega)
    have hcontinues := (isContinuation_iff middle).2 (by omega)
    have hcontinues' := (isContinuation_iff low).2 (by omega)
    have heq : unitOfThree lead middle low = unit := UInt16.toNat_inj.1 (by rw [toNat_unitOfThree]; omega)
    simp only [List.cons_append, List.nil_append, unitsOfBytes?, hform, hcontinues, hcontinues', heq, Bool.and_self,
      if_true]

/-- The reader finds the units that the bytes spell, and fails where they spell none. -/
theorem unitsOfBytes?_eq_some_iff {bytes : List UInt8} {us : List UInt16} :
    unitsOfBytes? bytes = some us ↔ Spells bytes us := by
  constructor
  · intro h
    fun_induction unitsOfBytes? bytes generalizing us with
    | case1 =>
      cases h
      exact spells_nil
    | case2 lead rest hlead ih =>
      obtain ⟨more, hmore, rfl⟩ := Option.map_eq_some_iff.1 h
      replace hlead := ofLead?_eq_some_iff.1 hlead
      exact .cons (.one hlead (UInt8.toNat_toUInt16 lead)) (ih hmore)
    | case3 lead low rest hlead hlow ih =>
      obtain ⟨more, hmore, rfl⟩ := Option.map_eq_some_iff.1 h
      replace hlead := ofLead?_eq_some_iff.1 hlead
      rw [isContinuation_iff] at hlow
      have hform : FormOf (unitOfTwo lead low) [lead, low] :=
        .two (by omega) (by omega) (toNat_unitOfTwo lead low)
      exact .cons hform (ih hmore)
    | case5 lead middle low rest hlead hcontinue ih =>
      obtain ⟨more, hmore, rfl⟩ := Option.map_eq_some_iff.1 h
      replace hlead := ofLead?_eq_some_iff.1 hlead
      rw [Bool.and_eq_true, isContinuation_iff, isContinuation_iff] at hcontinue
      have hform : FormOf (unitOfThree lead middle low) [lead, middle, low] :=
        .three (by omega) (by omega) (by omega) (toNat_unitOfThree lead middle low)
      exact .cons hform (ih hmore)
    -- the bytes end inside a form, a byte does not continue the form, or no form starts so
    | case4 | case6 | case7 => cases h
  · rintro ⟨forms, rfl, hforms⟩
    induction hforms with
    | nil => rfl
    | cons hform _ ih => rw [List.flatten_cons, unitsOfBytes?_append hform, ih, Option.map_some]

theorem decode?_eq_some_iff {bytes : List UInt8} {text : String} :
    decode? bytes = some text ↔ Spells bytes (units text) := by
  unfold decode?
  rw [Option.bind_eq_some_iff]
  constructor
  · rintro ⟨us, hus, htext⟩
    rw [ofUnits?_eq_some_iff] at htext
    subst htext
    exact unitsOfBytes?_eq_some_iff.1 hus
  · intro h
    exact ⟨units text, unitsOfBytes?_eq_some_iff.2 h, ofUnits?_eq_some_iff.2 rfl⟩

/-! ## The writer -/

/-- The writer writes forms. -/
theorem formOf_bytesOfUnit (unit : UInt16) : FormOf unit (bytesOfUnit unit) := by
  have hunit : unit.toNat < 0x10000 := unit.toNat_lt
  have hbyte {n : Nat} (h : n < 0x100) : (UInt8.ofNat n).toNat = n := UInt8.toNat_ofNat_of_lt' h
  unfold bytesOfUnit
  dsimp only
  split
  · rename_i hone
    have hfirst := hbyte (show unit.toNat < 0x100 by omega)
    exact .one (by omega) hfirst.symm
  · split
    · have hlead := hbyte (show 0xC0 + unit.toNat / 0x40 < 0x100 by omega)
      have hlow := hbyte (show 0x80 + unit.toNat % 0x40 < 0x100 by omega)
      exact .two ⟨hlead, by omega⟩ ⟨hlow, by omega⟩ (by omega)
    · have hlead := hbyte (show 0xE0 + unit.toNat / 0x1000 < 0x100 by omega)
      have hmiddle := hbyte (show 0x80 + unit.toNat / 0x40 % 0x40 < 0x100 by omega)
      have hlow := hbyte (show 0x80 + unit.toNat % 0x40 < 0x100 by omega)
      exact .three ⟨hlead, by omega⟩ ⟨hmiddle, by omega⟩ ⟨hlow, by omega⟩ (by omega)

theorem spells_flatMap_bytesOfUnit (us : List UInt16) : Spells (us.flatMap bytesOfUnit) us := by
  induction us with
  | nil => exact spells_nil
  | cons unit us ih => exact ih.cons (formOf_bytesOfUnit unit)

/-- Bytes are read as a text exactly if they are forms one after the other whose units are those of the text, and
nothing else is read; what is written of a text is read as that text. -/
theorem decoded_iff_forms (bytes : List UInt8) (text : String) :
    (decode? bytes = some text ↔ ∃ forms, bytes = forms.flatten ∧ List.Forall₂ FormOf (units text) forms) ∧
    (decode? bytes = none ↔
      ¬ ∃ text forms, bytes = forms.flatten ∧ List.Forall₂ FormOf (units text) forms) ∧
    decode? (encode text) = some text := by
  refine ⟨decode?_eq_some_iff, ?_, ?_⟩
  · rw [Option.eq_none_iff_forall_ne_some]
    constructor
    · rintro hnone ⟨text, hspells⟩
      exact hnone text (decode?_eq_some_iff.2 hspells)
    · intro hnone text htext
      exact hnone ⟨text, decode?_eq_some_iff.1 htext⟩
  · exact decode?_eq_some_iff.2 (spells_flatMap_bytesOfUnit (units text))

/-- Zero takes two bytes, and a character beyond `FFFF` two forms of three bytes. -/
example : encode "\x00😀" = [0xC0, 0x80, 0xED, 0xA0, 0xBD, 0xED, 0xB8, 0x80] := by decide

end ClassMachine.Text.ModifiedUtf8
