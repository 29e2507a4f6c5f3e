/-
Where constants stand in a pool. A pool to which constants are added one after the other is laid out by them alone:
each stands behind the slots that those before it take, and a slot stays empty only behind a wide constant
(`LaidOut`). A file states fewer than 65536 slots and at most one is taken beyond these, so the number of every slot
that is read fits an index, and what an unknown kind is reported with is the slot its constant would have stood in
(`Numbered`).
-/
import ClassMachine.Proofs.ClassFile.Prefixes
import ClassMachine.Proofs.ClassFile.Slots

namespace ClassMachine

open ClassFile

namespace Pool

/-! ## Slots -/

/-- Each constant takes a slot, and each wide one a second. -/
theorem slotsOf_eq (constants : List Constant) :
    slotsOf constants = constants.length + constants.countP fun constant => constant.tag.isWide := by
  induction constants with
  | nil => rfl
  | cons constant rest ih =>
    rw [slotsOf, Constant.slots, ih, List.length_cons, List.countP_cons]
    split <;> omega

theorem getElem?_zero_ofList (constants : List Constant) : (ofList constants).slots[0]? = some none := by
  induction constants using List.reverseRecOn with
  | nil => rfl
  | append_singleton before last ih =>
    have hpos : 0 < (ofList before).count := by rw [count_ofList]; omega
    rw [ofList_append_singleton, getElem?_push, if_pos hpos, ih]

/-- Behind slot 0, a slot is empty exactly if a wide constant stands before it. -/
theorem getElem?_succ_eq_none_iff (constants : List Constant) (index : Nat) :
    (ofList constants).slots[index + 1]? = some none ↔ (ofList constants).HoldsWide index := by
  constructor
  · intro hempty
    -- The induction is on the constant that was added last.
    induction constants using List.reverseRecOn with
    | nil =>
      have hlt : index + 1 < 1 := (Array.getElem?_eq_some_iff.1 hempty).1
      omega
    | append_singleton before last ih =>
      unfold HoldsWide
      rw [ofList_append_singleton] at hempty ⊢
      rw [getElem?_push] at hempty
      by_cases hbefore : index + 1 < (ofList before).count
      · rw [if_pos hbefore] at hempty
        obtain ⟨constant, hslot, hwide⟩ := ih hempty
        exact ⟨constant, by rw [getElem?_push, if_pos (by omega), hslot], hwide⟩
      · rw [if_neg hbefore] at hempty
        by_cases hlast : index + 1 = (ofList before).count
        · rw [if_pos hlast] at hempty
          cases hempty
        · rw [if_neg hlast] at hempty
          split at hempty
          · rename_i hbehind
            exact ⟨last, by rw [getElem?_push, if_neg (by omega), if_pos (by omega)], hbehind.2⟩
          · cases hempty
  · rintro ⟨constant, hslot, hwide⟩
    exact getElem?_after_wide hslot hwide

/-- The constants that stand in the slots are those that were added, each behind the slots of those before it. -/
theorem getElem?_eq_some_some_iff (constants : List Constant) (index : Nat) (constant : Constant) :
    (ofList constants).slots[index]? = some (some constant) ↔
      ∃ place, constants[place]? = some constant ∧ index = 1 + slotsOf (constants.take place) := by
  induction constants using List.reverseRecOn with
  | nil =>
    constructor
    · intro h
      have hlt : index < 1 := (Array.getElem?_eq_some_iff.1 h).1
      obtain rfl : index = 0 := by omega
      cases h
    · rintro ⟨place, h, -⟩
      cases h
  | append_singleton before last ih =>
    rw [ofList_append_singleton, getElem?_push]
    constructor
    · intro h
      split at h
      · obtain ⟨place, hplace, hindex⟩ := ih.1 h
        have hlt : place < before.length := (List.getElem?_eq_some_iff.1 hplace).1
        refine ⟨place, by rw [List.getElem?_append_left hlt, hplace], ?_⟩
        rw [hindex, List.take_append_of_le_length (Nat.le_of_lt hlt)]
      · split at h
        · rename_i hlast
          cases h
          refine ⟨before.length, List.getElem?_concat_length, ?_⟩
          rw [hlast, count_ofList, List.take_left]
        · split at h <;> cases h
    · rintro ⟨place, hplace, hindex⟩
      have hle : place < (before ++ [last]).length := (List.getElem?_eq_some_iff.1 hplace).1
      rw [List.length_append, List.length_singleton] at hle
      rcases Nat.lt_or_eq_of_le (Nat.le_of_lt_succ hle) with hlt | rfl
      · rw [List.getElem?_append_left hlt] at hplace
        rw [List.take_append_of_le_length (Nat.le_of_lt hlt)] at hindex
        have hslot := ih.2 ⟨place, hplace, hindex⟩
        have hcount : index < (ofList before).count := (Array.getElem?_eq_some_iff.1 hslot).1
        rw [if_pos hcount, hslot]
      · rw [List.getElem?_concat_length] at hplace
        cases hplace
        rw [List.take_left] at hindex
        rw [if_neg (by rw [count_ofList]; omega), if_pos (by rw [count_ofList]; exact hindex)]

/-! ## Looking at a slot -/

section

variable {pool : Pool} {index : UInt16}

theorem get_eq_ok_iff {constant : Constant} :
    pool.get index = .ok constant ↔ pool.slots[index.toNat]? = some (some constant) := by
  unfold get
  split <;> simp_all

theorem get_eq_emptySlot_iff : pool.get index = .error (.emptySlot index) ↔ pool.slots[index.toNat]? = some none := by
  unfold get
  split <;> simp_all

theorem get_eq_outOfRange_iff :
    pool.get index = .error (.outOfRange index pool.count) ↔ pool.count ≤ index.toNat := by
  unfold get count
  rw [← Array.getElem?_eq_none_iff]
  split <;> simp_all

end

/-! ## The list of constants with their slots -/

/-- While all slots have a number, the list has a constant under a number exactly if the slot holds it. -/
theorem mem_entries_iff {pool : Pool} (hcount : pool.count ≤ 65536) (index : UInt16) (constant : Constant) :
    (index, constant) ∈ pool.entries ↔ pool.get index = .ok constant := by
  rw [get_eq_ok_iff, entries, List.mem_filterMap]
  constructor
  · rintro ⟨⟨slot, place⟩, hmem, hslot⟩
    obtain ⟨found, rfl, heq⟩ := Option.map_eq_some_iff.1 hslot
    have hplace := List.mem_zipIdx_iff_getElem?.1 hmem
    rw [Array.getElem?_toList] at hplace
    have hlt : place < pool.count := (Array.getElem?_eq_some_iff.1 hplace).1
    cases heq
    rw [UInt16.toNat_ofNat_of_lt' (Nat.lt_of_lt_of_le hlt hcount)]
    exact hplace
  · intro h
    refine ⟨(some constant, index.toNat), List.mem_zipIdx_iff_getElem?.2 ?_, ?_⟩
    · rw [Array.getElem?_toList]
      exact h
    · show some (UInt16.ofNat index.toNat, constant) = _
      rw [UInt16.ofNat_toNat]

/-- While all slots have a number, the list goes up by it. -/
theorem pairwise_entries {pool : Pool} (hcount : pool.count ≤ 65536) :
    pool.entries.Pairwise fun earlier later => earlier.1 < later.1 := by
  have hplaces : pool.slots.toList.zipIdx.Pairwise fun earlier later => earlier.2 < later.2 := by
    apply List.pairwise_map.1
    rw [List.zipIdx_map_snd]
    exact List.pairwise_lt_range'
  unfold entries
  refine (List.Pairwise.and_mem.1 hplaces).filterMap _ ?_
  rintro ⟨slot, place⟩ ⟨slot', place'⟩ ⟨hmem, hmem', hlt⟩ earlier hearlier later hlater
  have hbound {slot : Option Constant} {place : Nat} (h : (slot, place) ∈ pool.slots.toList.zipIdx) :
      place < 65536 := by
    have hplace := List.mem_zipIdx_iff_getElem?.1 h
    rw [Array.getElem?_toList] at hplace
    exact Nat.lt_of_lt_of_le (Array.getElem?_eq_some_iff.1 hplace).1 hcount
  obtain ⟨constant, -, rfl⟩ := Option.map_eq_some_iff.1 hearlier
  obtain ⟨constant', -, rfl⟩ := Option.map_eq_some_iff.1 hlater
  rw [UInt16.lt_iff_toNat_lt, UInt16.toNat_ofNat_of_lt' (hbound hmem), UInt16.toNat_ofNat_of_lt' (hbound hmem')]
  exact hlt

end Pool

/-! ## Reading constants one after the other -/

namespace ClassFile.Reader

variable {α β : Type} {reader : Reader α} {next : α → Reader β} {cursor : Cursor}

theorem bind_of_ok {a : α} {middle : Cursor} (h : reader cursor = .ok (a, middle)) :
    (reader >>= next) cursor = next a middle := by
  show StateT.bind reader next cursor = _
  unfold StateT.bind
  rw [h]
  rfl

theorem bind_of_error {error : FormatError} (h : reader cursor = .error error) :
    (reader >>= next) cursor = .error error :=
  bind_eq_error_iff.2 (.inl h)

end ClassFile.Reader

open ClassFile.Reader

theorem Tag.isTruncated_of_readLength {tag : Tag} {place : Cursor} {error : FormatError}
    (h : tag.readLength place = .error error) : error.IsTruncated := by
  unfold Tag.readLength at h
  rcases hfixed : tag.payloadLength with _ | length
  · rw [hfixed] at h
    rcases bind_eq_error_iff.1 h with hnumber | ⟨_, _, -, hpure⟩
    · rw [error_of_u16 hnumber]
      trivial
    · cases hpure
  · rw [hfixed] at h
    cases h

/-- A constant is refused for its kind only if its first byte announces none. -/
theorem Constant.read_eq_unknownTag {index reported : UInt16} {byte : UInt8} {place : Cursor}
    (h : Constant.read index place = .error (.unknownTag byte reported)) :
    place.rest.head? = some byte ∧ Tag.ofByte? byte = none ∧ reported = index := by
  unfold Constant.read at h
  rcases bind_eq_error_iff.1 h with hbyte | ⟨first, middle, hbyte, hrest⟩
  · cases error_of_u8 hbyte
  · obtain ⟨-, hbefore⟩ := (exact_u8 _ _ _ _).1 hbyte
    rcases htag : Tag.ofByte? first with _ | tag
    · rw [htag] at hrest
      cases hrest
      exact ⟨by rw [hbefore.rest]; rfl, htag, rfl⟩
    · -- behind a known kind, only the bytes can run out
      rw [htag] at hrest
      rcases bind_eq_error_iff.1 hrest with hlength | ⟨length, behind, -, hpayload⟩
      · exact (Tag.isTruncated_of_readLength hlength).elim
      · rcases bind_eq_error_iff.1 hpayload with hbytes | ⟨_, _, -, hpure⟩
        · cases error_of_bytes hbytes
        · cases hpure

namespace Pool

/-- Where a file states so many slots, these constants were read from `start` on up to a place. Each was read while
slots were missing, for the slot that comes next. -/
inductive Reads (stated : UInt16) (start : Cursor) : List Constant → Cursor → Prop where
  | nothing : Reads stated start [] start
  | next {constants : List Constant} {place after : Cursor} {constant : Constant} :
      Reads stated start constants place → (ofList constants).count < stated.toNat →
      Constant.read (UInt16.ofNat (ofList constants).count) place = .ok (constant, after) →
      Reads stated start (constants ++ [constant]) after

/-- What reading the constants of a pool comes to: no slot is missing any more, or one could not be read. -/
inductive ReadCase (stated : UInt16) (start : Cursor) : Except FormatError (Pool × Cursor) → Prop where
  | filled {constants : List Constant} {after : Cursor} :
      Reads stated start constants after → stated.toNat ≤ (ofList constants).count →
      ReadCase stated start (.ok (ofList constants, after))
  | refused {constants : List Constant} {place : Cursor} {error : FormatError} :
      Reads stated start constants place → (ofList constants).count < stated.toNat →
      Constant.read (UInt16.ofNat (ofList constants).count) place = .error error →
      ReadCase stated start (.error error)

section

variable {stated : UInt16} {start place : Cursor} {constants : List Constant}

theorem Reads.readCase_readMissing (h : Reads stated start constants place) {missing : Nat}
    (hmissing : missing = stated.toNat - (ofList constants).count) :
    ReadCase stated start (readMissing missing (ofList constants) place) := by
  -- The induction is strong: a wide constant takes two of the missing slots.
  induction missing using Nat.strongRecOn generalizing constants place with
  | ind missing ih =>
    cases missing with
    | zero =>
      rw [readMissing]
      exact .filled h (by omega)
    | succ missing =>
      have hlt : (ofList constants).count < stated.toNat := by omega
      rw [readMissing_succ]
      rcases hread : Constant.read (UInt16.ofNat (ofList constants).count) place with error | ⟨constant, after⟩
      · rw [bind_of_error hread]
        exact .refused h hlt hread
      · rw [bind_of_ok hread, ← ofList_append_singleton]
        have hslots : 1 ≤ constant.slots := by
          unfold Constant.slots
          split <;> omega
        have hcount : (ofList (constants ++ [constant])).count = (ofList constants).count + constant.slots := by
          rw [ofList_append_singleton, count_push, Constant.slots]
        exact ih (missing + 1 - constant.slots) (by omega) (h.next hlt hread) (by omega)

/-- Reading a pool reads its constants one after the other behind the number that is stated. -/
theorem readCase_read {cursor : Cursor} (h : Reader.u16 .poolCount cursor = .ok (stated, start)) :
    ReadCase stated start (Pool.read cursor) := by
  unfold Pool.read
  rw [bind_of_ok h]
  exact Reads.nothing.readCase_readMissing rfl

/-- At most one slot is taken beyond those that are stated. -/
theorem Reads.count_le (h : Reads stated start constants place) : (ofList constants).count ≤ 65536 := by
  cases h with
  | nothing => decide
  | next _ hlt _ =>
    rw [ofList_append_singleton, count_push]
    have hstated := stated.toNat_lt
    split <;> omega

/-- While slots are missing, the next one has a number. -/
theorem toNat_nextSlot (hlt : (ofList constants).count < stated.toNat) :
    (UInt16.ofNat (ofList constants).count).toNat = (ofList constants).count :=
  UInt16.toNat_ofNat_of_lt' (Nat.lt_trans hlt stated.toNat_lt)

end

/-! ## Layout -/

/-- The slots of the pool hold these constants one after the other, and looking at them yields what they hold. -/
structure LaidOut (pool : Pool) (constants : List Constant) : Prop where
  first : pool.slots[0]? = some none
  empty_iff : ∀ index, pool.slots[index + 1]? = some none ↔ pool.HoldsWide index
  count : pool.count = 1 + constants.length + constants.countP fun constant => constant.tag.isWide
  stands_iff : ∀ index constant, pool.slots[index]? = some (some constant) ↔
    ∃ place, constants[place]? = some constant ∧ index = 1 + slotsOf (constants.take place)
  outOfRange_iff : ∀ index : UInt16,
    pool.get index = .error (.outOfRange index pool.count) ↔ pool.count ≤ index.toNat
  emptySlot_iff : ∀ index : UInt16,
    pool.get index = .error (.emptySlot index) ↔ index = 0 ∨ pool.HoldsWide (index.toNat - 1)
  ok_iff : ∀ index : UInt16, (∃ constant, pool.get index = .ok constant) ↔
    index.toNat < pool.count ∧ ¬ (index = 0 ∨ pool.HoldsWide (index.toNat - 1))
  /-- The list of constants leaves none out and has none twice. -/
  entries : pool.count ≤ 65536 →
    (pool.entries.Pairwise fun earlier later => earlier.1 < later.1) ∧
      ∀ index constant, (index, constant) ∈ pool.entries ↔ pool.get index = .ok constant

/-- An empty slot is slot 0 or the one behind a wide constant. -/
theorem getElem?_eq_none_iff (constants : List Constant) (index : UInt16) :
    (ofList constants).slots[index.toNat]? = some none ↔
      index = 0 ∨ (ofList constants).HoldsWide (index.toNat - 1) := by
  by_cases hzero : index = 0
  · subst hzero
    exact iff_of_true (getElem?_zero_ofList constants) (.inl rfl)
  · have hpos : index.toNat - 1 + 1 = index.toNat := by
      have hne : index.toNat ≠ 0 := fun h => hzero (UInt16.toNat_inj.1 h)
      omega
    rw [← hpos, getElem?_succ_eq_none_iff, Nat.add_sub_cancel]
    exact ⟨.inr, fun h => h.resolve_left hzero⟩

theorem laidOut_ofList (constants : List Constant) : (ofList constants).LaidOut constants where
  first := getElem?_zero_ofList constants
  empty_iff := getElem?_succ_eq_none_iff constants
  count := by rw [count_ofList, slotsOf_eq, Nat.add_assoc]
  stands_iff := getElem?_eq_some_some_iff constants
  outOfRange_iff _ := get_eq_outOfRange_iff
  emptySlot_iff index := by rw [get_eq_emptySlot_iff, getElem?_eq_none_iff]
  ok_iff index := by
    rw [← getElem?_eq_none_iff]
    simp only [get_eq_ok_iff]
    constructor
    · rintro ⟨constant, h⟩
      exact ⟨(Array.getElem?_eq_some_iff.1 h).1, by rw [h]; nofun⟩
    · rintro ⟨hlt, hheld⟩
      rcases hslot : (ofList constants).slots[index.toNat]? with _ | _ | constant
      · exact absurd hlt (Nat.not_lt.2 (Array.getElem?_eq_none_iff.1 hslot))
      · exact absurd hslot hheld
      · exact ⟨constant, rfl⟩
  entries hcount := ⟨pairwise_entries hcount, mem_entries_iff hcount⟩

/-- Reading a pool at this place never comes to a slot whose number does not fit an index. -/
structure Numbered (cursor : Cursor) : Prop where
  /-- Whatever was read so far, all slots have numbers, and so has the next one while slots are missing. -/
  reads : ∀ stated start constants place, Reader.u16 .poolCount cursor = .ok (stated, start) →
    Reads stated start constants place →
      (ofList constants).count ≤ 65536 ∧
        ((ofList constants).count < stated.toNat →
          (UInt16.ofNat (ofList constants).count).toNat = (ofList constants).count)
  /-- The pool that is read in the end is one of these. -/
  ok : ∀ pool after, Pool.read cursor = .ok (pool, after) →
    ∃ stated start constants, Reader.u16 .poolCount cursor = .ok (stated, start) ∧
      Reads stated start constants after ∧ pool = ofList constants ∧ pool.count ≤ 65536
  /-- A byte that announces no kind is reported with the slot that its constant would have stood in. -/
  unknownTag : ∀ byte index, Pool.read cursor = .error (.unknownTag byte index) →
    ∃ stated start constants place, Reader.u16 .poolCount cursor = .ok (stated, start) ∧
      Reads stated start constants place ∧ (ofList constants).count < stated.toNat ∧
      place.rest.head? = some byte ∧ Tag.ofByte? byte = none ∧ index.toNat = (ofList constants).count ∧
      ∀ constant, ((ofList constants).push constant).slots[index.toNat]? = some (some constant)

theorem numbered (cursor : Cursor) : Numbered cursor where
  reads _ _ _ _ _ hreads := ⟨hreads.count_le, toNat_nextSlot⟩
  ok pool after h := by
    obtain ⟨stated, start, hstated, -⟩ := bind_eq_ok_iff.1 h
    have hcase := readCase_read hstated
    rw [h] at hcase
    cases hcase with
    | filled hreads _ => exact ⟨stated, start, _, hstated, hreads, rfl, hreads.count_le⟩
  unknownTag byte index h := by
    rcases bind_eq_error_iff.1 h with hcount | ⟨stated, start, hstated, -⟩
    · cases error_of_u16 hcount
    have hcase := readCase_read hstated
    rw [h] at hcase
    cases hcase with
    | @refused constants place _ hreads hlt hrefused =>
      obtain ⟨hbyte, htag, hindex⟩ := Constant.read_eq_unknownTag hrefused
      have hslot : index.toNat = (ofList constants).count := by rw [hindex, toNat_nextSlot hlt]
      refine ⟨stated, start, constants, place, hstated, hreads, hlt, hbyte, htag, hslot, fun constant => ?_⟩
      rw [hslot, getElem?_push, if_neg (Nat.lt_irrefl _), if_pos rfl]

/-- Any constants that are added one after the other lie in the slots of the pool as their kinds say, and reading a
pool from any bytes stays within slots that have a number. -/
theorem layout_and_numbers :
    (∀ constants, (ofList constants).LaidOut constants) ∧ ∀ cursor, Numbered cursor :=
  ⟨laidOut_ofList, numbered⟩

/-- A text behind a long number stands in slot 3 and slot 2 is empty. Where a file has a byte of no kind behind the
long number, it is reported with slot 3. -/
theorem layout_and_numbers_longFirst :
    let long : Constant := ⟨.long, [0, 0, 0, 0, 0, 0, 0, 1]⟩
    let text : Constant := ⟨.utf8, [0x50]⟩
    (ofList [long, text]).count = 4 ∧ (ofList [long, text]).slots[3]? = some (some text) ∧
      (ofList [long, text]).get 2 = .error (.emptySlot 2) ∧
      Pool.read (Cursor.start [0, 4, 5, 0, 0, 0, 0, 0, 0, 0, 1, 99]) = .error (.unknownTag 99 3) ∧
      ∃ constants, ∀ constant, ((ofList constants).push constant).slots[3]? = some (some constant) := by
  intro long text
  have hlaid := layout_and_numbers.1 [long, text]
  have hunknown : Pool.read (Cursor.start [0, 4, 5, 0, 0, 0, 0, 0, 0, 0, 1, 99]) = .error (.unknownTag 99 3) := rfl
  obtain ⟨_, _, constants, _, -, -, -, -, -, -, hslot⟩ := (layout_and_numbers.2 _).unknownTag 99 3 hunknown
  exact ⟨hlaid.count, (hlaid.stands_iff 3 text).2 ⟨1, rfl, rfl⟩, (hlaid.emptySlot_iff 2).2 (.inr ⟨long, rfl, rfl⟩),
    hunknown, constants, hslot⟩

end Pool

end ClassMachine
