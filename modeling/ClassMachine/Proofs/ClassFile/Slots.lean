/-
The slots of a pool that was read. Adding a constant leaves the slots before it alone and takes one slot more, or
two if the constant is wide. A file states how many slots its pool has, and constants are read until these are taken;
a wide constant in the last of them takes one slot beyond. So the pool has the stated number of slots exactly if no
wide constant stands in the last one, and constants stand in stated slots only (`count_of_parse`).
-/
import ClassMachine.Proofs.ClassFile.RoundTrip
import Mathlib.Data.List.Induction

namespace ClassMachine

namespace Pool

/-! ## Slots of a pool that is built by adding constants -/

theorem ofList_append_singleton (constants : List Constant) (constant : Constant) :
    ofList (constants ++ [constant]) = (ofList constants).push constant :=
  List.foldl_append

theorem count_ofList (constants : List Constant) : (ofList constants).count = 1 + slotsOf constants := by
  unfold ofList
  rw [count_foldl_push, count_empty]

/-- What the slots hold after a constant was added. -/
theorem getElem?_push (pool : Pool) (constant : Constant) (index : Nat) :
    (pool.push constant).slots[index]? =
      if index < pool.count then pool.slots[index]?
      else if index = pool.count then some (some constant)
      else if index = pool.count + 1 ∧ constant.tag.isWide = true then some none
      else none := by
  unfold push count
  by_cases hbefore : index < pool.slots.size
  · rw [if_pos hbefore]
    cases constant.tag.isWide with
    | false => simp [Array.getElem?_push, Nat.ne_of_lt hbefore]
    | true =>
      have hnext : index ≠ pool.slots.size + 1 := by omega
      simp [Array.getElem?_push, Nat.ne_of_lt hbefore, hnext]
  · rw [if_neg hbefore]
    have hnone : pool.slots[index]? = none := Array.getElem?_eq_none (Nat.le_of_not_lt hbefore)
    cases constant.tag.isWide with
    | false => simp [Array.getElem?_push, hnone]
    | true =>
      show ((pool.slots.push (some constant)).push none)[index]? = _
      rw [Array.getElem?_push, Array.getElem?_push, Array.size_push]
      by_cases hfirst : index = pool.slots.size
      · rw [if_neg (by omega), if_pos hfirst, if_pos hfirst]
      · simp [hfirst, hnone]

/-- The slot after a wide constant is there, and it is empty. -/
theorem getElem?_after_wide {constants : List Constant} {index : Nat} {constant : Constant}
    (h : (ofList constants).slots[index]? = some (some constant)) (hwide : constant.tag.isWide = true) :
    (ofList constants).slots[index + 1]? = some none := by
  -- The induction is on the constant that was added last.
  induction constants using List.reverseRecOn with
  | nil =>
    have hlt : index < 1 := (Array.getElem?_eq_some_iff.1 h).1
    have hzero : index = 0 := by omega
    subst hzero
    cases h
  | append_singleton before last ih =>
    rw [ofList_append_singleton] at h ⊢
    rw [getElem?_push] at h ⊢
    by_cases hbefore : index < (ofList before).count
    · rw [if_pos hbefore] at h
      have hnext := ih h
      have hlt : index + 1 < (ofList before).count := (Array.getElem?_eq_some_iff.1 hnext).1
      rw [if_pos hlt, hnext]
    · rw [if_neg hbefore] at h
      by_cases hlast : index = (ofList before).count
      · rw [if_pos hlast] at h
        cases h
        rw [if_neg (by omega), if_neg (by omega), if_pos ⟨by omega, hwide⟩]
      · rw [if_neg hlast] at h
        split at h <;> cases h

/-! ## Constants that fill the slots a file states -/

/-- Constants that fill so many slots take just as many, or the last of them is wide and stands in the last slot. -/
theorem slotsOf_of_fill {constants : List Constant} {missing : Nat} (h : Fill constants missing) :
    slotsOf constants = missing ∨
      ∃ before last, constants = before ++ [last] ∧ last.tag.isWide = true ∧ slotsOf before + 1 = missing := by
  induction constants generalizing missing with
  | nil => exact .inl h.symm
  | cons constant rest ih =>
    obtain ⟨hpos, hrest⟩ := h
    by_cases hfits : constant.slots ≤ missing
    · rcases ih hrest with htaken | ⟨before, last, rfl, hwide, htaken⟩
      · left
        rw [slotsOf, htaken]
        omega
      · right
        refine ⟨constant :: before, last, rfl, hwide, ?_⟩
        rw [slotsOf]
        omega
    · -- one slot is missing and the constant takes two, so nothing is left to read
      have hwide : constant.tag.isWide = true := by
        rcases hnarrow : constant.tag.isWide with _ | _
        · rw [Constant.slots, hnarrow] at hfits
          exact absurd hpos hfits
        · rfl
      have hslots : constant.slots = 2 := by rw [Constant.slots, if_pos hwide]
      have hmissing : missing = 1 := by omega
      subst hmissing
      right
      cases rest with
      | nil => exact ⟨[], constant, rfl, hwide, rfl⟩
      | cons next others =>
        rw [hslots] at hrest
        exact absurd hrest.1 (Nat.lt_irrefl 0)

/-- A wide constant stands in the slot. -/
def HoldsWide (pool : Pool) (index : Nat) : Prop :=
  ∃ constant, pool.slots[index]? = some (some constant) ∧ constant.tag.isWide = true

/-- The pool has the slots that are stated, or one more after a wide constant in the last of them. -/
theorem Fits.count {pool : Pool} {stated : UInt16} (h : pool.Fits stated) (hpos : 1 ≤ stated.toNat) :
    (pool.count = stated.toNat ∧ ¬ pool.HoldsWide (stated.toNat - 1)) ∨
      (pool.count = stated.toNat + 1 ∧ pool.HoldsWide (stated.toNat - 1) ∧ pool.slots[stated.toNat]? = some none) := by
  obtain ⟨hpool, -, hfill⟩ := h
  have hcount : pool.count = 1 + slotsOf pool.toList := by
    rw [hpool, toList_ofList, count_ofList]
  rcases slotsOf_of_fill hfill with htaken | ⟨before, last, hlist, hwide, htaken⟩
  · left
    refine ⟨by omega, ?_⟩
    rintro ⟨constant, hslot, hwide⟩
    rw [hpool] at hslot
    have hnext := getElem?_after_wide hslot hwide
    rw [← hpool] at hnext
    have hlt : stated.toNat - 1 + 1 < pool.count := (Array.getElem?_eq_some_iff.1 hnext).1
    omega
  · right
    have hbefore : (ofList before).count = stated.toNat - 1 := by
      rw [count_ofList]
      omega
    have hlast : pool = (ofList before).push last := by
      rw [hpool, hlist, ofList_append_singleton]
    have hholds : pool.slots[stated.toNat - 1]? = some (some last) := by
      rw [hlast, getElem?_push, hbefore, if_neg (Nat.lt_irrefl _), if_pos rfl]
    refine ⟨?_, ⟨last, hholds, hwide⟩, ?_⟩
    · rw [hlast, count_push, hbefore, if_pos hwide]
      omega
    · rw [hlast, getElem?_push, hbefore, if_neg (by omega), if_neg (by omega), if_pos ⟨by omega, hwide⟩]

end Pool

namespace ClassFile

/-- The pool of a class that was read has as many slots as the file states, exactly if no wide constant stands in
the last of these; if one does, there is one slot more, the empty one after it. In either case all constants stand
in slots that the file states. -/
theorem count_of_parse {bytes : List UInt8} {classFile : ClassFile} {stated : UInt16}
    (hparse : parse bytes = .ok classFile) (hstated : statedCount? bytes = some stated) (hpos : 1 ≤ stated.toNat) :
    (classFile.pool.count = stated.toNat ↔ ¬ classFile.pool.HoldsWide (stated.toNat - 1)) ∧
      (classFile.pool.HoldsWide (stated.toNat - 1) → classFile.pool.count = stated.toNat + 1 ∧
        classFile.pool.slots[stated.toNat]? = some none) ∧
      ∀ index constant, classFile.pool.slots[index]? = some (some constant) → index < stated.toNat := by
  obtain ⟨rest, hrest⟩ := parse_eq_ok_iff.1 hparse
  obtain ⟨count, hfits, -, rfl⟩ := parseWithRest_eq_ok_iff.1 hrest
  rw [statedCount?_encode_append] at hstated
  cases hstated
  have hslot {index : Nat} {constant : Constant} (h : classFile.pool.slots[index]? = some (some constant)) :
      index < classFile.pool.count := (Array.getElem?_eq_some_iff.1 h).1
  rcases hfits.count hpos with ⟨hcount, hnot⟩ | ⟨hcount, hholds, hempty⟩
  · refine ⟨iff_of_true hcount hnot, fun hholds => absurd hholds hnot, fun index constant h => ?_⟩
    rw [← hcount]
    exact hslot h
  · refine ⟨iff_of_false (by omega) (not_not_intro hholds), fun _ => ⟨hcount, hempty⟩, fun index constant h => ?_⟩
    have hlt := hslot h
    -- the slot beyond is empty
    have hne : index ≠ stated.toNat := by
      rintro rfl
      rw [hempty] at h
      cases h
    omega

/-- Of the ten slots of class `P` all are stated, or nine, the last of which holds a wide constant. -/
theorem count_of_parse_pointClass :
    (parse (pointClass.encode 10) = .ok pointClass ∧ ¬ pointClass.pool.HoldsWide 9 ∧
      pointClass.pool.count = 10) ∧
    parse (pointClass.encode 9) = .ok pointClass ∧ pointClass.pool.HoldsWide 8 ∧
      pointClass.pool.slots[9]? = some none ∧
      ∀ index constant, pointClass.pool.slots[index]? = some (some constant) → index < 9 := by
  have hten : parse (pointClass.encode 10) = .ok pointClass := rfl
  have hnine : parse (pointClass.encode 9) = .ok pointClass := rfl
  have hall := count_of_parse hten (statedCount?_encode_append pointClass 10 []) (by decide)
  have hless := count_of_parse hnine (statedCount?_encode_append pointClass 9 []) (by decide)
  have hwide : pointClass.pool.HoldsWide 8 := ⟨⟨.double, [0x3F, 0xF0, 0, 0, 0, 0, 0, 0]⟩, rfl, rfl⟩
  exact ⟨⟨hten, hall.1.1 rfl, rfl⟩, hnine, hwide, (hless.2.1 hwide).2, hless.2.2⟩

/-- A file may state fewer slots than its pool has. -/
theorem count_ne_stated :
    ¬ ∀ bytes classFile stated, parse bytes = .ok classFile → statedCount? bytes = some stated →
      1 ≤ stated.toNat → classFile.pool.count = stated.toNat := by
  intro h
  have hcount : pointClass.pool.count = 9 := h (pointClass.encode 9) pointClass 9 rfl rfl (by decide)
  exact absurd hcount (by decide)

end ClassFile

end ClassMachine
