/-
Exact readers. A reader is exact for a spelling if it succeeds exactly where the spelling of a fitting
value stands, yields that value and stops right behind it (`Reader.Exact`); so it undoes the
spelling, whatever bytes follow, and the spelling undoes it. The numbers, runs of bytes, counted
lists, attributes and constants of a class file are read exactly, and a pool is read exactly
as a list of constants that fills the slots stated before it.
-/
import ClassMachine.ClassFile.Decode
import ClassMachine.ClassFile.Encode

namespace ClassMachine.ClassFile

/-! ## Places -/

/-- The bytes stand at this place, and `after` is the place right behind them. -/
structure Cursor.Before (cursor : Cursor) (bytes : List UInt8) (after : Cursor) : Prop where
  rest : cursor.rest = bytes ++ after.rest
  offset : after.offset = cursor.offset + bytes.length

namespace Cursor

theorem before_nil_iff {cursor after : Cursor} : cursor.Before [] after ↔ after = cursor := by
  obtain ⟨offset, rest⟩ := cursor
  obtain ⟨offset', rest'⟩ := after
  constructor
  · rintro ⟨hrest, hoffset⟩
    simp only [List.nil_append, List.length_nil, Nat.add_zero] at hrest hoffset
    subst hrest hoffset
    rfl
  · rintro h
    cases h
    exact ⟨rfl, rfl⟩

theorem before_append_iff {cursor after : Cursor} {bytes more : List UInt8} :
    cursor.Before (bytes ++ more) after ↔ ∃ middle, cursor.Before bytes middle ∧ middle.Before more after := by
  constructor
  · rintro ⟨hrest, hoffset⟩
    rw [List.length_append] at hoffset
    exact ⟨⟨cursor.offset + bytes.length, more ++ after.rest⟩, ⟨by rw [hrest, List.append_assoc], rfl⟩,
      ⟨rfl, by dsimp only; omega⟩⟩
  · rintro ⟨middle, ⟨hrest, hoffset⟩, ⟨hrest', hoffset'⟩⟩
    exact ⟨by rw [hrest, hrest', List.append_assoc], by rw [List.length_append]; omega⟩

end Cursor

namespace Reader

/-! ## Readers in sequence -/

theorem bind_eq_ok_iff {α β : Type} {reader : Reader α} {next : α → Reader β} {cursor after : Cursor} {b : β} :
    (reader >>= next) cursor = .ok (b, after) ↔
      ∃ a middle, reader cursor = .ok (a, middle) ∧ next a middle = .ok (b, after) := by
  show StateT.bind reader next cursor = _ ↔ _
  unfold StateT.bind
  simp only [bind, Except.bind]
  rcases reader cursor with error | ⟨a, middle⟩
  · constructor
    · intro h; cases h
    · rintro ⟨_, _, h, -⟩; cases h
  · constructor
    · intro h; exact ⟨a, middle, rfl, h⟩
    · rintro ⟨_, _, h, h'⟩; cases h; exact h'

theorem pure_eq_ok_iff {α : Type} {a b : α} {cursor after : Cursor} :
    (pure a : Reader α) cursor = .ok (b, after) ↔ b = a ∧ after = cursor := by
  constructor
  · intro h; cases h; exact ⟨rfl, rfl⟩
  · rintro ⟨rfl, rfl⟩; rfl

/-- A check reads nothing. -/
theorem check_bind_iff {β : Type} {check : Except FormatError Unit} {next : Unit → Reader β}
    {cursor after : Cursor} {b : β} :
    ((liftM check : Reader Unit) >>= next) cursor = .ok (b, after) ↔
      check = .ok () ∧ next () cursor = .ok (b, after) := by
  rw [bind_eq_ok_iff]
  constructor
  · rintro ⟨⟨⟩, middle, hcheck, hnext⟩
    rcases check with error | ⟨⟩
    · cases hcheck
    · cases hcheck; exact ⟨rfl, hnext⟩
  · rintro ⟨rfl, hnext⟩
    exact ⟨(), cursor, rfl, hnext⟩

/-- The reader succeeds exactly where the spelling of a fitting value stands, and yields the value. -/
def Exact {α : Type} (reader : Reader α) (spell : α → List UInt8) (fits : α → Prop) : Prop :=
  ∀ cursor value after, reader cursor = .ok (value, after) ↔ fits value ∧ cursor.Before (spell value) after

theorem Exact.bind_iff {α β : Type} {reader : Reader α} {spell : α → List UInt8} {fits : α → Prop}
    (h : Exact reader spell fits) {next : α → Reader β} {cursor after : Cursor} {b : β} :
    (reader >>= next) cursor = .ok (b, after) ↔
      ∃ a middle, fits a ∧ cursor.Before (spell a) middle ∧ next a middle = .ok (b, after) := by
  rw [bind_eq_ok_iff]
  constructor
  · rintro ⟨a, middle, ha, hnext⟩
    obtain ⟨hfits, hbefore⟩ := (h _ _ _).1 ha
    exact ⟨a, middle, hfits, hbefore, hnext⟩
  · rintro ⟨a, middle, hfits, hbefore, hnext⟩
    exact ⟨a, middle, (h _ _ _).2 ⟨hfits, hbefore⟩, hnext⟩

/-! ## Numbers and runs of bytes -/

theorem exact_u8 (item : Item) : Exact (u8 item) (fun value => [value]) fun _ => True := by
  rintro ⟨offset, rest⟩ value ⟨offset', rest'⟩
  constructor
  · intro h
    unfold u8 at h
    split at h
    · rename_i hrest; cases h; exact ⟨trivial, ⟨hrest, rfl⟩⟩
    · cases h
  · rintro ⟨-, ⟨hrest, hoffset⟩⟩
    simp only at hrest hoffset
    subst hrest hoffset
    rfl

theorem exact_u16 (item : Item) : Exact (u16 item) Binary.bytes16 fun _ => True := by
  rintro ⟨offset, rest⟩ value ⟨offset', rest'⟩
  constructor
  · intro h
    unfold u16 at h
    split at h
    · rename_i hrest
      cases h
      exact ⟨trivial, ⟨by rw [Binary.bytes16_join16]; exact hrest, rfl⟩⟩
    · cases h
  · rintro ⟨-, ⟨hrest, hoffset⟩⟩
    simp only at hrest hoffset
    subst hrest hoffset
    simp only [u16, Binary.bytes16, List.cons_append, List.nil_append, Binary.join16_bytes16]
    rfl

theorem exact_u32 (item : Item) : Exact (u32 item) Binary.bytes32 fun _ => True := by
  rintro ⟨offset, rest⟩ value ⟨offset', rest'⟩
  constructor
  · intro h
    unfold u32 at h
    split at h
    · rename_i hrest
      cases h
      exact ⟨trivial, ⟨by rw [Binary.bytes32_join32]; exact hrest, rfl⟩⟩
    · cases h
  · rintro ⟨-, ⟨hrest, hoffset⟩⟩
    simp only at hrest hoffset
    subst hrest hoffset
    simp only [u32, Binary.bytes32, List.cons_append, List.nil_append, Binary.join32_bytes32]
    rfl

theorem exact_bytes (item : Item) (length : Nat) :
    Exact (bytes item length) id fun value => value.length = length := by
  rintro ⟨offset, rest⟩ value ⟨offset', rest'⟩
  constructor
  · intro h
    unfold bytes at h
    simp only at h
    split at h
    · rename_i hlength
      cases h
      exact ⟨hlength, ⟨(List.take_append_drop length rest).symm, by rw [id, hlength]⟩⟩
    · cases h
  · rintro ⟨rfl, ⟨hrest, hoffset⟩⟩
    simp only [id] at hrest hoffset
    subst hrest hoffset
    simp [bytes]

/-! ## Lists -/

theorem timesAfter_eq_ok_iff {α : Type} {reader : Reader α} {spell : α → List UInt8} {fits : α → Prop}
    (h : Exact reader spell fits) : ∀ (count : Nat) (done values : List α) (cursor after : Cursor),
    timesAfter reader done count cursor = .ok (values, after) ↔
      ∃ read, values = done.reverse ++ read ∧ read.length = count ∧ (∀ value ∈ read, fits value) ∧
        cursor.Before (read.flatMap spell) after
  | 0, done, values, cursor, after => by
    rw [timesAfter, pure_eq_ok_iff]
    constructor
    · rintro ⟨rfl, rfl⟩
      exact ⟨[], by simp, rfl, by simp, Cursor.before_nil_iff.2 rfl⟩
    · rintro ⟨read, rfl, hlength, -, hbefore⟩
      rw [List.length_eq_zero_iff] at hlength
      subst hlength
      exact ⟨by simp, Cursor.before_nil_iff.1 hbefore⟩
  | count + 1, done, values, cursor, after => by
    rw [timesAfter, h.bind_iff]
    constructor
    · rintro ⟨value, middle, hfits, hbefore, hrest⟩
      obtain ⟨read, rfl, rfl, hall, hread⟩ := (timesAfter_eq_ok_iff h count _ _ _ _).1 hrest
      refine ⟨value :: read, by simp, rfl, List.forall_mem_cons.2 ⟨hfits, hall⟩, ?_⟩
      rw [List.flatMap_cons]
      exact Cursor.before_append_iff.2 ⟨middle, hbefore, hread⟩
    · rintro ⟨_ | ⟨value, read⟩, rfl, hlength, hall, hbefore⟩
      · cases hlength
      · rw [List.flatMap_cons] at hbefore
        obtain ⟨middle, hvalue, hread⟩ := Cursor.before_append_iff.1 hbefore
        obtain ⟨hfits, hall⟩ := List.forall_mem_cons.1 hall
        exact ⟨value, middle, hfits, hvalue, (timesAfter_eq_ok_iff h count _ _ _ _).2
          ⟨read, by simp, Nat.succ.inj hlength, hall, hread⟩⟩

/-- Counted lists are read exactly if their members are. -/
theorem Exact.counted {α : Type} {reader : Reader α} {spell : α → List UInt8} {fits : α → Prop}
    (h : Exact reader spell fits) (item : Item) :
    Exact (counted item reader)
      (fun values => Binary.bytes16 (UInt16.ofNat values.length) ++ values.flatMap spell)
      fun values => values.length < 65536 ∧ ∀ value ∈ values, fits value := by
  intro cursor values after
  unfold Reader.counted times
  rw [(exact_u16 item).bind_iff]
  constructor
  · rintro ⟨count, middle, -, hcount, hvalues⟩
    obtain ⟨read, rfl, hlength, hall, hread⟩ := (timesAfter_eq_ok_iff h _ _ _ _ _).1 hvalues
    refine ⟨⟨hlength ▸ count.toNat_lt, hall⟩, ?_⟩
    dsimp only
    rw [hlength, UInt16.ofNat_toNat]
    exact Cursor.before_append_iff.2 ⟨middle, hcount, hread⟩
  · rintro ⟨⟨hlength, hall⟩, hbefore⟩
    obtain ⟨middle, hcount, hread⟩ := Cursor.before_append_iff.1 hbefore
    refine ⟨_, middle, trivial, hcount, ?_⟩
    refine (timesAfter_eq_ok_iff h _ _ _ _ _).2 ⟨values, by simp, ?_, hall, hread⟩
    rw [UInt16.toNat_ofNat_of_lt' hlength]

end Reader

end ClassMachine.ClassFile

namespace ClassMachine

open ClassFile ClassFile.Reader

/-! ## Attributes -/

theorem Attribute.exact_read : Exact Attribute.read Attribute.encode fun attr => attr.info.length < 4294967296 := by
  rintro cursor ⟨nameIndex, info⟩ after
  unfold Attribute.read Attribute.encode
  constructor
  · intro h
    obtain ⟨found, first, -, hname, h⟩ := (exact_u16 _).bind_iff.1 h
    obtain ⟨length, second, -, hlength, h⟩ := (exact_u32 _).bind_iff.1 h
    obtain ⟨payload, third, hfits, hinfo, h⟩ := (exact_bytes _ _).bind_iff.1 h
    obtain ⟨heq, rfl⟩ := pure_eq_ok_iff.1 h
    cases heq
    dsimp only at hfits ⊢
    rw [hfits, UInt32.ofNat_toNat]
    refine ⟨length.toNat_lt, ?_⟩
    exact Cursor.before_append_iff.2 ⟨second, Cursor.before_append_iff.2 ⟨first, hname, hlength⟩, hinfo⟩
  · rintro ⟨hfits, hbefore⟩
    obtain ⟨second, hbefore, hinfo⟩ := Cursor.before_append_iff.1 hbefore
    obtain ⟨first, hname, hlength⟩ := Cursor.before_append_iff.1 hbefore
    refine (exact_u16 _).bind_iff.2 ⟨_, first, trivial, hname, ?_⟩
    refine (exact_u32 _).bind_iff.2 ⟨_, second, trivial, hlength, ?_⟩
    refine (exact_bytes _ _).bind_iff.2 ⟨_, after, ?_, hinfo, rfl⟩
    rw [UInt32.toNat_ofNat_of_lt' hfits]

/-- Attributes that a file can hold: each length fits into four bytes, and their number into two. -/
def Attribute.Fit (attributes : List Attribute) : Prop :=
  attributes.length < 65536 ∧ ∀ attr ∈ attributes, attr.info.length < 4294967296

instance (attributes : List Attribute) : Decidable (Attribute.Fit attributes) :=
  inferInstanceAs (Decidable (_ ∧ _))

theorem Attribute.exact_readAll : Exact Attribute.readAll Attribute.encodeAll Attribute.Fit :=
  Attribute.exact_read.counted .attributeCount

/-! ## Constants -/

/-- A constant of this kind may have that many payload bytes; the length of a text takes two bytes. -/
def Tag.Takes (tag : Tag) (length : Nat) : Prop :=
  match tag.payloadLength with
  | some fixed => length = fixed
  | none => length < 65536

/-- The payload has a size that goes with the tag. -/
def Constant.WellSized (constant : Constant) : Prop :=
  constant.tag.Takes constant.payload.length

instance (tag : Tag) (length : Nat) : Decidable (tag.Takes length) :=
  match h : tag.payloadLength with
  | some fixed => decidable_of_iff (length = fixed) (by rw [Tag.Takes, h])
  | none => decidable_of_iff (length < 65536) (by rw [Tag.Takes, h])

instance (constant : Constant) : Decidable constant.WellSized :=
  inferInstanceAs (Decidable (constant.tag.Takes _))

/-- The bytes that state the size of a payload, if the file states it. -/
def Tag.lengthBytes (tag : Tag) (length : Nat) : List UInt8 :=
  match tag.payloadLength with
  | some _ => []
  | none => Binary.bytes16 (UInt16.ofNat length)

theorem Tag.byte_of_ofByte? {byte : UInt8} {tag : Tag} (h : Tag.ofByte? byte = some tag) : tag.byte = byte := by
  unfold Tag.ofByte? at h
  split at h <;> cases h <;> rfl

theorem Tag.exact_readLength (tag : Tag) : Exact tag.readLength tag.lengthBytes tag.Takes := by
  intro cursor length after
  unfold Tag.readLength Tag.lengthBytes Tag.Takes
  rcases tag.payloadLength with _ | fixed
  · constructor
    · intro h
      obtain ⟨found, middle, -, hbefore, h⟩ := (exact_u16 _).bind_iff.1 h
      obtain ⟨rfl, rfl⟩ := pure_eq_ok_iff.1 h
      refine ⟨found.toNat_lt, ?_⟩
      dsimp only
      rw [UInt16.ofNat_toNat]
      exact hbefore
    · rintro ⟨hlength, hbefore⟩
      refine (exact_u16 _).bind_iff.2 ⟨_, after, trivial, hbefore, ?_⟩
      rw [pure_eq_ok_iff, UInt16.toNat_ofNat_of_lt' hlength]
      exact ⟨rfl, rfl⟩
  · exact pure_eq_ok_iff.trans (and_congr Iff.rfl Cursor.before_nil_iff.symm)

theorem Constant.encode_eq (constant : Constant) : constant.encode =
    [constant.tag.byte] ++ (constant.tag.lengthBytes constant.payload.length ++ constant.payload) := by
  unfold Constant.encode Tag.lengthBytes
  cases constant.tag.payloadLength <;> simp

theorem Constant.exact_read (index : UInt16) :
    Exact (Constant.read index) Constant.encode Constant.WellSized := by
  rintro cursor ⟨tag, payload⟩ after
  rw [Constant.encode_eq]
  unfold Constant.read
  constructor
  · intro h
    obtain ⟨byte, first, -, hbyte, h⟩ := (exact_u8 _).bind_iff.1 h
    rcases hfound : Tag.ofByte? byte with _ | found
    · rw [hfound] at h
      cases h
    · rw [hfound] at h
      obtain ⟨length, second, htakes, hlength, h⟩ := found.exact_readLength.bind_iff.1 h
      obtain ⟨taken, third, rfl, htaken, h⟩ := (exact_bytes _ _).bind_iff.1 h
      obtain ⟨heq, rfl⟩ := pure_eq_ok_iff.1 h
      cases heq
      refine ⟨htakes, ?_⟩
      dsimp only
      rw [Tag.byte_of_ofByte? hfound]
      exact Cursor.before_append_iff.2 ⟨first, hbyte, Cursor.before_append_iff.2 ⟨second, hlength, htaken⟩⟩
  · rintro ⟨hsized, hbefore⟩
    obtain ⟨first, hbyte, hbefore⟩ := Cursor.before_append_iff.1 hbefore
    obtain ⟨second, hlength, htaken⟩ := Cursor.before_append_iff.1 hbefore
    refine (exact_u8 _).bind_iff.2 ⟨_, first, trivial, hbyte, ?_⟩
    rw [Tag.ofByte?_byte]
    refine tag.exact_readLength.bind_iff.2 ⟨_, second, hsized, hlength, ?_⟩
    exact (exact_bytes _ _).bind_iff.2 ⟨_, after, rfl, htaken, rfl⟩

/-! ## Pools -/

/-- The number of slots that constants take. -/
def Constant.slots (constant : Constant) : Nat :=
  if constant.tag.isWide then 2 else 1

/-- The number of slots that constants take together. -/
def Pool.slotsOf : List Constant → Nat
  | [] => 0
  | constant :: rest => constant.slots + Pool.slotsOf rest

/-- Read one after the other, the constants take `missing` slots, but for one that a wide constant at
the end may take beyond. -/
def Pool.Fill : List Constant → Nat → Prop
  | [], missing => missing = 0
  | constant :: rest, missing => 0 < missing ∧ Pool.Fill rest (missing - constant.slots)

theorem Pool.readMissing_succ (missing : Nat) (pool : Pool) :
    Pool.readMissing (missing + 1) pool = (do
      let constant ← Constant.read (UInt16.ofNat pool.count)
      Pool.readMissing (missing + 1 - constant.slots) (pool.push constant)) := by
  unfold Constant.slots
  cases missing with
  | zero =>
    rw [Pool.readMissing]
    refine bind_congr fun constant => ?_
    cases constant.tag.isWide <;> rfl
  | succ missing =>
    rw [Pool.readMissing]
    refine bind_congr fun constant => ?_
    cases constant.tag.isWide <;> rfl

/-- Reading the missing slots adds the constants that stand at the place and fill these slots. -/
theorem Pool.readMissing_eq_ok_iff (missing : Nat) (pool filled : Pool) (cursor after : Cursor) :
    Pool.readMissing missing pool cursor = .ok (filled, after) ↔
      ∃ constants : List Constant, filled = constants.foldl Pool.push pool ∧
        (∀ constant ∈ constants, constant.WellSized) ∧ Pool.Fill constants missing ∧
        cursor.Before (constants.flatMap Constant.encode) after := by
  -- The induction is strong: a wide constant takes two of the missing slots.
  induction missing using Nat.strongRecOn generalizing pool cursor with
  | ind missing ih =>
    cases missing with
    | zero =>
      rw [Pool.readMissing, pure_eq_ok_iff]
      constructor
      · rintro ⟨rfl, rfl⟩
        exact ⟨[], rfl, by simp, rfl, Cursor.before_nil_iff.2 rfl⟩
      · rintro ⟨_ | ⟨constant, rest⟩, hfilled, -, hfill, hbefore⟩
        · exact ⟨hfilled, Cursor.before_nil_iff.1 hbefore⟩
        · exact absurd hfill.1 (Nat.lt_irrefl 0)
    | succ missing =>
      have hless (constant : Constant) : missing + 1 - constant.slots < missing + 1 := by
        unfold Constant.slots
        split <;> omega
      rw [Pool.readMissing_succ, (Constant.exact_read _).bind_iff]
      constructor
      · rintro ⟨constant, middle, hsized, hbefore, hrest⟩
        obtain ⟨rest, rfl, hall, hfill, hread⟩ := (ih _ (hless constant) _ _).1 hrest
        refine ⟨constant :: rest, rfl, List.forall_mem_cons.2 ⟨hsized, hall⟩,
          ⟨Nat.succ_pos missing, hfill⟩, ?_⟩
        rw [List.flatMap_cons]
        exact Cursor.before_append_iff.2 ⟨middle, hbefore, hread⟩
      · rintro ⟨_ | ⟨constant, rest⟩, hfilled, hall, hfill, hbefore⟩
        · cases hfill
        · rw [List.flatMap_cons] at hbefore
          obtain ⟨middle, hconstant, hrest⟩ := Cursor.before_append_iff.1 hbefore
          obtain ⟨hsized, hall⟩ := List.forall_mem_cons.1 hall
          exact ⟨constant, middle, hsized, hconstant,
            (ih _ (hless constant) _ _).2 ⟨rest, hfilled, hall, hfill.2, hrest⟩⟩

theorem Pool.toList_foldl_push (constants : List Constant) : ∀ pool : Pool,
    (constants.foldl Pool.push pool).toList = pool.toList ++ constants := by
  induction constants with
  | nil => intro pool; exact (List.append_nil _).symm
  | cons constant rest ih => intro pool; rw [List.foldl_cons, ih, Pool.toList_push, List.append_assoc]; rfl

/-- A pool that is built by adding constants has these constants. -/
theorem Pool.toList_ofList (constants : List Constant) : (Pool.ofList constants).toList = constants :=
  Pool.toList_foldl_push constants Pool.empty

theorem Pool.count_foldl_push (constants : List Constant) : ∀ pool : Pool,
    (constants.foldl Pool.push pool).count = pool.count + Pool.slotsOf constants := by
  induction constants with
  | nil => intro pool; rfl
  | cons constant rest ih =>
    intro pool
    rw [List.foldl_cons, ih, Pool.count_push, Pool.slotsOf, ← Nat.add_assoc]
    rfl

/-- Constants fill the slots that they take. -/
theorem Pool.fill_slotsOf (constants : List Constant) : Pool.Fill constants (Pool.slotsOf constants) := by
  induction constants with
  | nil => rfl
  | cons constant rest ih =>
    rw [Pool.slotsOf]
    refine ⟨?_, ?_⟩
    · unfold Constant.slots
      split <;> omega
    · rw [Nat.add_sub_cancel_left]
      exact ih

/-- The pool holds constants of sound sizes that fill the slots stated for them, slot 0 being one. -/
def Pool.Fits (pool : Pool) (count : UInt16) : Prop :=
  pool = Pool.ofList pool.toList ∧ (∀ constant ∈ pool.toList, constant.WellSized) ∧
    Pool.Fill pool.toList (count.toNat - 1)

/-- A file states as many slots as a pool built by adding constants has. -/
theorem Pool.fits_ofList {constants : List Constant} (hsized : ∀ constant ∈ constants, constant.WellSized)
    (hcount : (Pool.ofList constants).count < 65536) :
    (Pool.ofList constants).Fits (UInt16.ofNat (Pool.ofList constants).count) := by
  unfold Pool.Fits
  rw [Pool.toList_ofList, UInt16.toNat_ofNat_of_lt' hcount]
  refine ⟨rfl, hsized, ?_⟩
  unfold Pool.ofList
  rw [Pool.count_foldl_push, Pool.count_empty, Nat.add_sub_cancel_left]
  exact Pool.fill_slotsOf constants

theorem Pool.read_eq_ok_iff {pool : Pool} {cursor after : Cursor} :
    Pool.read cursor = .ok (pool, after) ↔ ∃ count : UInt16, pool.Fits count ∧
      cursor.Before (Binary.bytes16 count ++ pool.toList.flatMap Constant.encode) after := by
  unfold Pool.read
  rw [(exact_u16 _).bind_iff]
  constructor
  · rintro ⟨count, middle, -, hcount, hpool⟩
    obtain ⟨constants, hfilled, hsized, hfill, hbefore⟩ := (Pool.readMissing_eq_ok_iff _ _ _ _ _).1 hpool
    have hlist : pool.toList = constants := by rw [hfilled]; exact Pool.toList_ofList constants
    rw [← hlist] at hfilled hsized hfill hbefore
    exact ⟨count, ⟨hfilled, hsized, hfill⟩, Cursor.before_append_iff.2 ⟨middle, hcount, hbefore⟩⟩
  · rintro ⟨count, ⟨hpool, hsized, hfill⟩, hbefore⟩
    obtain ⟨middle, hcount, hbefore⟩ := Cursor.before_append_iff.1 hbefore
    exact ⟨count, middle, trivial, hcount,
      (Pool.readMissing_eq_ok_iff _ _ _ _ _).2 ⟨pool.toList, hpool, hsized, hfill, hbefore⟩⟩

end ClassMachine
