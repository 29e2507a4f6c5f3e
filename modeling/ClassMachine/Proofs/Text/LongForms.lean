/-
Long forms. The reader takes a unit on two or three bytes also where fewer would do, which the writer never writes; so
the text `A` can be spelled in three ways. That is all that spellings can differ in: bytes that are read as a text are
those that are written of it, or a form in them is longer than its unit needs and they are longer altogether
(`eq_encode_iff`). For constants of the pool that have no such form the spelling of a text is unique.
-/
import ClassMachine.Proofs.ClassFile.Resolution
import ClassMachine.Proofs.Text.ModifiedUtf8

namespace ClassMachine.Text.ModifiedUtf8

/-! ## Forms longer than needed -/

/-- Two bytes for a unit from `0001` to `007F`, or three for one below `0800`, as the first two bytes show. -/
def isLong : List UInt8 → Bool
  | [lead, low] => lead == 0xC1 || lead == 0xC0 && low != 0x80
  | [lead, middle, _] => lead == 0xE0 && middle < 0xA0
  | _ => false

/-- The bytes are forms one after the other, and one of them is long. -/
def HasLongForm (bytes : List UInt8) : Prop :=
  ∃ us forms, bytes = forms.flatten ∧ List.Forall₂ FormOf us forms ∧ ∃ form ∈ forms, isLong form = true

theorem isLong_two_iff (lead low : UInt8) :
    isLong [lead, low] = true ↔ lead.toNat = 0xC1 ∨ lead.toNat = 0xC0 ∧ low.toNat ≠ 0x80 := by
  simp [isLong, ← UInt8.toNat_inj]

theorem isLong_three_iff (lead middle low : UInt8) :
    isLong [lead, middle, low] = true ↔ lead.toNat = 0xE0 ∧ middle.toNat < 0xA0 := by
  simp [isLong, ← UInt8.toNat_inj, UInt8.lt_iff_toNat_lt]

theorem bytesOfUnit_of_one {unit : UInt16} (h : 0x01 ≤ unit.toNat ∧ unit.toNat ≤ 0x7F) :
    bytesOfUnit unit = [UInt8.ofNat unit.toNat] := by
  unfold bytesOfUnit
  exact if_pos h

theorem bytesOfUnit_of_two {unit : UInt16} (h : unit.toNat = 0 ∨ 0x80 ≤ unit.toNat ∧ unit.toNat ≤ 0x7FF) :
    bytesOfUnit unit = [UInt8.ofNat (0xC0 + unit.toNat / 0x40), UInt8.ofNat (0x80 + unit.toNat % 0x40)] := by
  unfold bytesOfUnit
  dsimp only
  rw [if_neg (by omega), if_pos (by omega)]

theorem bytesOfUnit_of_three {unit : UInt16} (h : 0x800 ≤ unit.toNat) :
    bytesOfUnit unit = [UInt8.ofNat (0xE0 + unit.toNat / 0x1000), UInt8.ofNat (0x80 + unit.toNat / 0x40 % 0x40),
      UInt8.ofNat (0x80 + unit.toNat % 0x40)] := by
  unfold bytesOfUnit
  dsimp only
  rw [if_neg (by omega), if_neg (by omega)]

theorem length_bytesOfUnit_le {unit : UInt16} (h : unit.toNat ≤ 0x7FF) : (bytesOfUnit unit).length ≤ 2 := by
  by_cases hone : 0x01 ≤ unit.toNat ∧ unit.toNat ≤ 0x7F
  · rw [bytesOfUnit_of_one hone]
    simp
  · rw [bytesOfUnit_of_two (by omega)]
    simp

/-- A form is the one that the writer chooses, or it is long. -/
theorem FormOf.shortest_or_long {unit : UInt16} {form : List UInt8} (h : FormOf unit form) :
    isLong form = false ∧ form = bytesOfUnit unit ∨ isLong form = true ∧ (bytesOfUnit unit).length < form.length := by
  cases h with
  | @one byte hbyte hunit =>
    left
    rw [bytesOfUnit_of_one (by omega), hunit, UInt8.ofNat_toNat]
    exact ⟨rfl, rfl⟩
  | @two lead low x y hlead hlow hunit =>
    have hlong := isLong_two_iff lead low
    by_cases hone : 0x01 ≤ unit.toNat ∧ unit.toNat ≤ 0x7F
    · right
      rw [bytesOfUnit_of_one hone]
      exact ⟨hlong.2 (by omega), by simp⟩
    · left
      have hfirst : 0xC0 + unit.toNat / 0x40 = lead.toNat := by omega
      have hsecond : 0x80 + unit.toNat % 0x40 = low.toNat := by omega
      rw [bytesOfUnit_of_two (by omega), hfirst, hsecond, UInt8.ofNat_toNat, UInt8.ofNat_toNat]
      exact ⟨Bool.eq_false_iff.2 fun htrue => by have := hlong.1 htrue; omega, rfl⟩
  | @three lead middle low x y z hlead hmiddle hlow hunit =>
    have hlong := isLong_three_iff lead middle low
    by_cases hthree : 0x800 ≤ unit.toNat
    · left
      have hfirst : 0xE0 + unit.toNat / 0x1000 = lead.toNat := by omega
      have hsecond : 0x80 + unit.toNat / 0x40 % 0x40 = middle.toNat := by omega
      have hthird : 0x80 + unit.toNat % 0x40 = low.toNat := by omega
      rw [bytesOfUnit_of_three hthree, hfirst, hsecond, hthird, UInt8.ofNat_toNat, UInt8.ofNat_toNat,
        UInt8.ofNat_toNat]
      exact ⟨Bool.eq_false_iff.2 fun htrue => by have := hlong.1 htrue; omega, rfl⟩
    · right
      have hlength := length_bytesOfUnit_le (show unit.toNat ≤ 0x7FF by omega)
      refine ⟨hlong.2 (by omega), ?_⟩
      simp only [List.length_cons, List.length_nil]
      omega

/-! ## Spellings of one text -/

theorem FormOf.length_le {unit : UInt16} {form : List UInt8} (h : FormOf unit form) :
    (bytesOfUnit unit).length ≤ form.length := by
  obtain ⟨-, rfl⟩ | ⟨-, hlength⟩ := h.shortest_or_long
  · exact Nat.le_refl _
  · omega

/-- Forms one after the other take at least the bytes that are written of their units. -/
theorem length_le_of_forms {us : List UInt16} {forms : List (List UInt8)} (h : List.Forall₂ FormOf us forms) :
    (us.flatMap bytesOfUnit).length ≤ forms.flatten.length := by
  induction h with
  | nil => exact Nat.le_refl 0
  | cons hform _ ih =>
    have hlength := hform.length_le
    simp only [List.flatMap_cons, List.flatten_cons, List.length_append]
    omega

/-- Forms one after the other are what the writer writes of their units, or one of them is long and they take more
bytes. -/
theorem shortest_or_long_of_forms {us : List UInt16} {forms : List (List UInt8)} (h : List.Forall₂ FormOf us forms) :
    (∀ form ∈ forms, isLong form = false) ∧ forms.flatten = us.flatMap bytesOfUnit ∨
      (∃ form ∈ forms, isLong form = true) ∧ (us.flatMap bytesOfUnit).length < forms.flatten.length := by
  induction h with
  | nil =>
    left
    exact ⟨fun _ hform => absurd hform List.not_mem_nil, rfl⟩
  | @cons unit form us forms hform hforms ih =>
    rw [List.flatMap_cons, List.flatten_cons, List.length_append, List.length_append]
    obtain ⟨hshort, rfl⟩ | ⟨hlong, hlength⟩ := hform.shortest_or_long
    · obtain ⟨hall, hrest⟩ | ⟨⟨long, hmem, hlong⟩, hlength⟩ := ih
      · exact .inl ⟨List.forall_mem_cons.2 ⟨hshort, hall⟩, by rw [hrest]⟩
      · exact .inr ⟨⟨long, List.mem_cons_of_mem _ hmem, hlong⟩, by omega⟩
    · have hrest := length_le_of_forms hforms
      exact .inr ⟨⟨form, List.mem_cons_self, hlong⟩, by omega⟩

section

variable {bytes : List UInt8} {text : String}

/-- The bytes that are written of a text are the fewest that are read as it. -/
theorem length_encode_le (h : decode? bytes = some text) : (encode text).length ≤ bytes.length := by
  obtain ⟨forms, rfl, hforms⟩ := decode?_eq_some_iff.1 h
  exact length_le_of_forms hforms

/-- Bytes that are read as a text are those written of it exactly if no form in them is long. -/
theorem eq_encode_iff (h : decode? bytes = some text) : bytes = encode text ↔ ¬ HasLongForm bytes := by
  have hspells := decode?_eq_some_iff.1 h
  constructor
  · rintro heq ⟨us, forms, hbytes, hforms, form, hform, hlong⟩
    -- the reader finds the units of the text only
    have hunits : some us = some (units text) := by
      rw [← unitsOfBytes?_eq_some_iff.2 ⟨forms, hbytes, hforms⟩]
      exact unitsOfBytes?_eq_some_iff.2 hspells
    cases hunits
    obtain ⟨hshort, -⟩ | ⟨-, hlength⟩ := shortest_or_long_of_forms hforms
    · rw [hshort form hform] at hlong
      cases hlong
    · rw [← hbytes, heq] at hlength
      exact Nat.lt_irrefl _ hlength
  · intro hnone
    obtain ⟨forms, rfl, hforms⟩ := hspells
    obtain ⟨-, hshort⟩ | ⟨hlong, -⟩ := shortest_or_long_of_forms hforms
    · exact hshort
    · exact absurd ⟨_, forms, rfl, hforms, hlong⟩ hnone

end

end ClassMachine.Text.ModifiedUtf8

namespace ClassMachine.Pool

open ClassMachine.Text.ModifiedUtf8

/-- A constant for texts stands for the text that its payload is read as. -/
theorem utf8_of_get {pool : Pool} {index : UInt16} {payload : List UInt8} (h : pool.get index = .ok ⟨.utf8, payload⟩) :
    pool.utf8 index = match decode? payload with
      | some text => .ok text
      | none => .error (.badText index) := by
  unfold Pool.utf8
  rw [payload_eq_ok_iff.2 h]
  simp only [bind, Except.bind]
  cases decode? payload <;> rfl

theorem decode?_of_utf8 {pool : Pool} {index : UInt16} {payload : List UInt8} {text : String}
    (hget : pool.get index = .ok ⟨.utf8, payload⟩) (h : pool.utf8 index = .ok text) : decode? payload = some text := by
  rw [utf8_of_get hget] at h
  split at h
  · cases h
    assumption
  · cases h

/-- But for long forms a text has one spelling. A payload that is read as a text has at least as many bytes as are
written of it, and is what is written of it exactly if no form in it is long. So two constants without long forms that
stand for one text have the same payload, and one without long forms whose payload is written of no text stands for
none. -/
theorem spelling_unique_but_for_long_forms (payload : List UInt8) :
    (∀ text, decode? payload = some text →
      (encode text).length ≤ payload.length ∧ (payload = encode text ↔ ¬ HasLongForm payload)) ∧
    (∀ (pool : Pool) index other payload' text, pool.get index = .ok ⟨.utf8, payload⟩ →
      pool.get other = .ok ⟨.utf8, payload'⟩ → ¬ HasLongForm payload → ¬ HasLongForm payload' →
      pool.utf8 index = .ok text → pool.utf8 other = .ok text → payload = payload') ∧
    ∀ (pool : Pool) index, pool.get index = .ok ⟨.utf8, payload⟩ → ¬ HasLongForm payload →
      (∀ text, payload ≠ encode text) → pool.utf8 index = .error (.badText index) := by
  refine ⟨fun text h => ⟨length_encode_le h, eq_encode_iff h⟩, ?_, ?_⟩
  · intro pool index other payload' text hget hget' hshort hshort' htext htext'
    have hpayload := (eq_encode_iff (decode?_of_utf8 hget htext)).2 hshort
    have hpayload' := (eq_encode_iff (decode?_of_utf8 hget' htext')).2 hshort'
    rw [hpayload, hpayload']
  · intro pool index hget hshort hunwritten
    rw [utf8_of_get hget]
    rcases hdecode : decode? payload with _ | text
    · rfl
    · exact absurd ((eq_encode_iff hdecode).2 hshort) (hunwritten text)

/-- The text `é` has the spelling `C3 A9` without long forms, and a zero byte spells nothing. -/
theorem spelling_unique_acute :
    let pool : Pool := .ofList [⟨.utf8, [0xC3, 0xA9]⟩, ⟨.utf8, [0xC3, 0xA9]⟩, ⟨.utf8, [0x00]⟩]
    ¬ HasLongForm [0xC3, 0xA9] ∧ pool.utf8 1 = .ok "é" ∧ pool.utf8 2 = .ok "é" ∧
      ¬ HasLongForm [0x00] ∧ pool.utf8 3 = .error (.badText 3) := by
  intro pool
  obtain ⟨hspelling, -, -⟩ := spelling_unique_but_for_long_forms [0xC3, 0xA9]
  obtain ⟨-, -, hunwritten⟩ := spelling_unique_but_for_long_forms [0x00]
  have hshort : ¬ HasLongForm [0xC3, 0xA9] := (hspelling "é" (by decide)).2.1 (by decide)
  have hzero : ∀ us, ¬ Spells [0x00] us := by
    intro us hspells
    rw [← unitsOfBytes?_eq_some_iff] at hspells
    cases hspells
  have hnone : ¬ HasLongForm [0x00] := fun ⟨us, forms, hbytes, hforms, _⟩ => hzero us ⟨forms, hbytes, hforms⟩
  refine ⟨hshort, rfl, rfl, hnone, hunwritten pool 3 rfl hnone fun text heq => ?_⟩
  rw [heq] at hzero
  exact hzero _ (spells_flatMap_bytesOfUnit (Text.units text))

/-- The text `A` in a pool with two spellings of it, of which one is not what is written of it. -/
theorem utf8_two_spellings :
    let pool : Pool := .ofList [⟨.utf8, [0x41]⟩, ⟨.utf8, [0xC1, 0x81]⟩]
    pool.utf8 1 = .ok "A" ∧ pool.utf8 2 = .ok "A" ∧ encode "A" = [0x41] :=
  ⟨rfl, rfl, by decide⟩

end ClassMachine.Pool
