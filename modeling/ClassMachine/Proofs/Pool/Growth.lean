/-
What a pool answers stays so while it grows. Adding constants leaves the slots before them alone, so whatever an
accessor came to holds later as well, unless an index led beyond the last slot: that slot may be there by then. A
chain of indices is followed link by link, and each link is kept (`Kept.bind`), so nothing has to be said of where
the indices lead (`Pool.keptAt_of_get`).
-/
import ClassMachine.Proofs.Pool.Layout

namespace ClassMachine

/-! ## Results that are kept -/

/-- The later result is the earlier one, unless that blames an index beyond the last slot. -/
structure Kept {α : Type} (earlier later : Except ResolveError α) : Prop where
  ok : ∀ a, earlier = .ok a → later = .ok a
  error : ∀ error, earlier = .error error → (∀ index size, error ≠ .outOfRange index size) → later = .error error

theorem Kept.refl {α : Type} (result : Except ResolveError α) : Kept result result where
  ok _ h := h
  error _ h _ := h

theorem Kept.trans {α : Type} {first second third : Except ResolveError α} (h : Kept first second)
    (h' : Kept second third) : Kept first third where
  ok a hok := h'.ok a (h.ok a hok)
  error error herror hrange := h'.error error (h.error error herror hrange) hrange

theorem Kept.bind {α β : Type} {earlier later : Except ResolveError α} {next next' : α → Except ResolveError β}
    (h : Kept earlier later) (h' : ∀ a, Kept (next a) (next' a)) : Kept (earlier >>= next) (later >>= next') := by
  rcases earlier with error | a
  · refine ⟨nofun, fun found hfound hrange => ?_⟩
    cases hfound
    rw [h.error error rfl hrange]
    rfl
  · rw [h.ok a rfl]
    exact h' a

/-- Every accessor keeps at this index what it came to before. -/
structure Pool.KeptAt (pool later : Pool) (index : UInt16) : Prop where
  get : Kept (pool.get index) (later.get index)
  tag : Kept (pool.tag index) (later.tag index)
  utf8 : Kept (pool.utf8 index) (later.utf8 index)
  integer : Kept (pool.integer index) (later.integer index)
  className : Kept (pool.className index) (later.className index)
  string : Kept (pool.string index) (later.string index)
  nameAndType : Kept (pool.nameAndType index) (later.nameAndType index)
  fieldRef : Kept (pool.fieldRef index) (later.fieldRef index)
  methodRef : Kept (pool.methodRef index) (later.methodRef index)
  interfaceMethodRef : Kept (pool.interfaceMethodRef index) (later.interfaceMethodRef index)

namespace Pool

/-! ## Accessors -/

section

variable {pool later : Pool} (hget : ∀ index, Kept (pool.get index) (later.get index))

include hget

theorem kept_payload (kind : Tag) (index : UInt16) : Kept (pool.payload kind index) (later.payload kind index) :=
  (hget index).bind fun _ => .refl _

theorem kept_link (kind : Tag) (index : UInt16) (offset : Nat) :
    Kept (pool.link kind index offset) (later.link kind index offset) :=
  (kept_payload hget kind index).bind fun _ => .refl _

theorem kept_utf8 (index : UInt16) : Kept (pool.utf8 index) (later.utf8 index) :=
  (kept_payload hget .utf8 index).bind fun _ => .refl _

/-- A link that leads to a text. -/
theorem kept_linkedText (kind : Tag) (index : UInt16) :
    Kept (pool.link kind index 0 >>= pool.utf8) (later.link kind index 0 >>= later.utf8) :=
  (kept_link hget kind index 0).bind (kept_utf8 hget)

theorem kept_nameAndType (index : UInt16) : Kept (pool.nameAndType index) (later.nameAndType index) :=
  (kept_link hget .nameAndType index 0).bind fun nameIndex =>
    (kept_link hget .nameAndType index 2).bind fun descriptorIndex =>
      (kept_utf8 hget nameIndex).bind fun _ => (kept_utf8 hget descriptorIndex).bind fun _ => .refl _

theorem kept_memberRef (kind : Tag) (index : UInt16) :
    Kept (pool.memberRef kind index) (later.memberRef kind index) :=
  (kept_link hget kind index 0).bind fun classIndex =>
    (kept_link hget kind index 2).bind fun nameAndTypeIndex =>
      (kept_linkedText hget .classRef classIndex).bind fun _ =>
        (kept_nameAndType hget nameAndTypeIndex).bind fun _ => .refl _

/-- If looking at slots is kept, so is all that rests on it. -/
theorem keptAt_of_get (index : UInt16) : pool.KeptAt later index where
  get := hget index
  tag := (hget index).bind fun _ => .refl _
  utf8 := kept_utf8 hget index
  integer := (kept_payload hget .integer index).bind fun _ => .refl _
  className := kept_linkedText hget .classRef index
  string := kept_linkedText hget .string index
  nameAndType := kept_nameAndType hget index
  fieldRef := kept_memberRef hget .fieldRef index
  methodRef := kept_memberRef hget .methodRef index
  interfaceMethodRef := kept_memberRef hget .interfaceMethodRef index

end

/-! ## Pools that grow -/

theorem kept_get_push (pool : Pool) (constant : Constant) (index : UInt16) :
    Kept (pool.get index) ((pool.push constant).get index) := by
  by_cases hlt : index.toNat < pool.count
  · have hsame : (pool.push constant).get index = pool.get index := by
      unfold get
      rw [getElem?_push, if_pos hlt]
      rcases hslot : pool.slots[index.toNat]? with _ | slot
      · exact absurd hlt (Nat.not_lt.2 (Array.getElem?_eq_none_iff.1 hslot))
      · cases slot <;> rfl
    rw [hsame]
    exact .refl _
  · -- only an index in range keeps what it led to
    rw [get_eq_outOfRange_iff.2 (Nat.le_of_not_lt hlt)]
    refine ⟨nofun, fun error h hne => ?_⟩
    cases h
    exact absurd rfl (hne index pool.count)

theorem kept_get_foldl (constants : List Constant) : ∀ (pool : Pool) (index : UInt16),
    Kept (pool.get index) ((constants.foldl push pool).get index) := by
  induction constants with
  | nil => exact fun pool index => .refl _
  | cons constant rest ih =>
    intro pool index
    exact (kept_get_push pool constant index).trans (ih (pool.push constant) index)

/-- Whatever an accessor came to, a value or an error that blames no index beyond the last slot, it comes to again
after a constant was added, and after any number of them. -/
theorem kept_when_growing (pool : Pool) :
    (∀ constant index, pool.KeptAt (pool.push constant) index) ∧
      ∀ constants index, pool.KeptAt (List.foldl push pool constants) index :=
  ⟨fun constant => keptAt_of_get (kept_get_push pool constant),
    fun constants => keptAt_of_get (kept_get_foldl constants pool)⟩

/-- A class whose name is in a slot beyond the last has none yet. It has one once the text is added, and keeps it
and the empty slot 0 behind further constants. -/
theorem kept_when_growing_forwardName :
    let pool := ofList [⟨.classRef, [0, 2]⟩]
    let named := pool.push ⟨.utf8, [0x50]⟩
    pool.className 1 = .error (.outOfRange 2 2) ∧ named.className 1 = .ok "P" ∧
      (∀ constants, (List.foldl push named constants).className 1 = .ok "P") ∧
      ∀ constants, (List.foldl push named constants).className 0 = .error (.emptySlot 0) := by
  intro pool named
  have hname : named.className 1 = .ok "P" := by decide
  refine ⟨by decide, hname, fun constants => ?_, fun constants => ?_⟩
  · exact ((kept_when_growing named).2 constants 1).className.ok "P" hname
  · exact ((kept_when_growing named).2 constants 0).className.error (.emptySlot 0) (by decide) nofun

end Pool

end ClassMachine
