/-
What a part of a file tells. A reader that does not run out of bytes comes to the same, whatever bytes follow
(`Steady`). A file is a list of fields, numbers and runs of bytes (`ClassFile.layout`); cut off anywhere before its
end, it is refused at the first field that is not there in full (`Spells`). So the verdict on a file rests on the
bytes that were read, and every shorter piece of it is refused as such.
-/
import ClassMachine.Proofs.ClassFile.RoundTrip

namespace ClassMachine.ClassFile

/-! ## More bytes -/

/-- The bytes end before an item does. -/
def FormatError.IsTruncated : FormatError → Prop
  | truncated .. => True
  | _ => False

/-- The place with more bytes behind those that are left. -/
def Cursor.extend (cursor : Cursor) (more : List UInt8) : Cursor :=
  { cursor with rest := cursor.rest ++ more }

theorem Cursor.Before.extend {cursor after : Cursor} {bytes : List UInt8} (h : cursor.Before bytes after)
    (more : List UInt8) : (cursor.extend more).Before bytes (after.extend more) where
  rest := by
    show cursor.rest ++ more = bytes ++ (after.rest ++ more)
    rw [h.rest, List.append_assoc]
  offset := h.offset

namespace Reader

theorem bind_eq_error_iff {α β : Type} {reader : Reader α} {next : α → Reader β} {cursor : Cursor}
    {error : FormatError} :
    (reader >>= next) cursor = .error error ↔
      reader cursor = .error error ∨ ∃ a middle, reader cursor = .ok (a, middle) ∧ next a middle = .error error := by
  show StateT.bind reader next cursor = _ ↔ _
  unfold StateT.bind
  simp only [bind, Except.bind]
  rcases reader cursor with cause | ⟨a, middle⟩
  · constructor
    · intro h; cases h; exact .inl rfl
    · rintro (h | ⟨_, _, h, -⟩)
      · cases h; rfl
      · cases h
  · constructor
    · intro h; exact .inr ⟨a, middle, rfl, h⟩
    · rintro (h | ⟨_, _, h, h'⟩)
      · cases h
      · cases h; exact h'

/-- Unless the bytes run out, more bytes make no difference. -/
structure Steady {α : Type} (reader : Reader α) : Prop where
  ok : ∀ {cursor a after} more, reader cursor = .ok (a, after) →
    reader (cursor.extend more) = .ok (a, after.extend more)
  error : ∀ {cursor error} more, reader cursor = .error error →
    error.IsTruncated ∨ reader (cursor.extend more) = .error error

theorem Steady.bind {α β : Type} {reader : Reader α} {next : α → Reader β} (h : Steady reader)
    (h' : ∀ a, Steady (next a)) : Steady (reader >>= next) where
  ok more hok := by
    obtain ⟨a, middle, hreader, hnext⟩ := bind_eq_ok_iff.1 hok
    exact bind_eq_ok_iff.2 ⟨a, _, h.ok more hreader, (h' a).ok more hnext⟩
  error more herror := by
    rcases bind_eq_error_iff.1 herror with hreader | ⟨a, middle, hreader, hnext⟩
    · exact (h.error more hreader).imp id fun hsame => bind_eq_error_iff.2 (.inl hsame)
    · exact ((h' a).error more hnext).imp id fun hsame => bind_eq_error_iff.2 (.inr ⟨a, _, h.ok more hreader, hsame⟩)

theorem steady_pure {α : Type} (a : α) : Steady (pure a) where
  ok more h := by cases h; rfl
  error more h := by cases h

theorem steady_throw {α : Type} (error : FormatError) : Steady (throw error : Reader α) where
  ok more h := by cases h
  error more h := by cases h; exact .inr rfl

theorem steady_check (check : Except FormatError Unit) : Steady (liftM check : Reader Unit) := by
  rcases check with error | ⟨⟩
  · exact steady_throw error
  · exact steady_pure ()

/-- A reader that is exact and fails for want of bytes only. -/
theorem Exact.steady {α : Type} {reader : Reader α} {spell : α → List UInt8} {fits : α → Prop}
    (h : Exact reader spell fits)
    (herror : ∀ cursor error, reader cursor = .error error → error.IsTruncated) : Steady reader where
  ok more hok := by
    obtain ⟨hfits, hbefore⟩ := (h _ _ _).1 hok
    exact (h _ _ _).2 ⟨hfits, hbefore.extend more⟩
  error more hfails := .inl (herror _ _ hfails)

theorem error_of_u8 {item : Item} {cursor : Cursor} {error : FormatError} (h : u8 item cursor = .error error) :
    error = .truncated item cursor.offset := by
  unfold u8 at h
  split at h <;> cases h
  rfl

theorem error_of_u16 {item : Item} {cursor : Cursor} {error : FormatError} (h : u16 item cursor = .error error) :
    error = .truncated item cursor.offset := by
  unfold u16 at h
  split at h <;> cases h
  rfl

theorem error_of_u32 {item : Item} {cursor : Cursor} {error : FormatError} (h : u32 item cursor = .error error) :
    error = .truncated item cursor.offset := by
  unfold u32 at h
  split at h <;> cases h
  rfl

theorem error_of_bytes {item : Item} {length : Nat} {cursor : Cursor} {error : FormatError}
    (h : bytes item length cursor = .error error) : error = .truncated item cursor.offset := by
  unfold bytes at h
  dsimp only at h
  split at h <;> cases h
  rfl

theorem steady_u8 (item : Item) : Steady (u8 item) := by
  refine (exact_u8 item).steady fun cursor error h => ?_
  rw [error_of_u8 h]
  trivial

theorem steady_u16 (item : Item) : Steady (u16 item) := by
  refine (exact_u16 item).steady fun cursor error h => ?_
  rw [error_of_u16 h]
  trivial

theorem steady_u32 (item : Item) : Steady (u32 item) := by
  refine (exact_u32 item).steady fun cursor error h => ?_
  rw [error_of_u32 h]
  trivial

theorem steady_bytes (item : Item) (length : Nat) : Steady (bytes item length) := by
  refine (exact_bytes item length).steady fun cursor error h => ?_
  rw [error_of_bytes h]
  trivial

theorem Steady.timesAfter {α : Type} {reader : Reader α} (h : Steady reader) : ∀ (count : Nat) (done : List α),
    Steady (timesAfter reader done count)
  | 0, _ => steady_pure _
  | count + 1, done => h.bind fun value => h.timesAfter count (value :: done)

theorem Steady.counted {α : Type} {reader : Reader α} (h : Steady reader) (item : Item) :
    Steady (counted item reader) :=
  (steady_u16 item).bind fun count => h.timesAfter count.toNat []

end Reader

end ClassMachine.ClassFile

namespace ClassMachine

open ClassFile ClassFile.Reader

theorem Attribute.steady_readAll : Steady Attribute.readAll := by
  refine Steady.counted ?_ .attributeCount
  refine (steady_u16 _).bind fun nameIndex => (steady_u32 _).bind fun length => ?_
  exact (steady_bytes _ _).bind fun info => steady_pure _

theorem Constant.steady_read (index : UInt16) : Steady (Constant.read index) := by
  refine (steady_u8 _).bind fun byte => ?_
  rcases Tag.ofByte? byte with _ | tag
  · exact steady_throw _
  have hlength : Steady tag.readLength := by
    unfold Tag.readLength
    rcases tag.payloadLength with _ | fixed
    · exact (steady_u16 _).bind fun length => steady_pure _
    · exact steady_pure fixed
  exact hlength.bind fun length => (steady_bytes _ _).bind fun payload => steady_pure _

theorem Pool.steady_readMissing (missing : Nat) (pool : Pool) : Steady (Pool.readMissing missing pool) := by
  induction missing using Nat.strongRecOn generalizing pool with
  | ind missing ih =>
    cases missing with
    | zero => exact steady_pure pool
    | succ missing =>
      rw [Pool.readMissing_succ]
      refine (Constant.steady_read _).bind fun constant => ih _ ?_ _
      unfold Constant.slots
      split <;> omega

theorem Member.steady_read (pool : Pool) (holder : Holder) : Steady (Member.read pool holder) := by
  refine (steady_u16 _).bind fun accessFlags => (steady_u16 _).bind fun nameIndex => ?_
  refine (steady_u16 _).bind fun descriptorIndex => (steady_check _).bind fun _ => (steady_check _).bind fun _ => ?_
  exact Attribute.steady_readAll.bind fun attributes => (steady_check _).bind fun _ => steady_pure _

namespace ClassFile

theorem steady_read : Steady ClassFile.read := by
  refine (steady_u32 _).bind fun found => (steady_check _).bind fun _ => ?_
  refine (steady_u16 _).bind fun minorVersion => (steady_u16 _).bind fun majorVersion => ?_
  have hpool : Steady Pool.read := (steady_u16 _).bind fun count => Pool.steady_readMissing _ _
  refine hpool.bind fun pool => (steady_u16 _).bind fun accessFlags => ?_
  refine (steady_u16 _).bind fun thisClass => (steady_check _).bind fun _ => ?_
  refine (steady_u16 _).bind fun superClass => (steady_check _).bind fun _ => ?_
  refine ((steady_u16 _).counted _).bind fun interfaces => ?_
  refine ((Member.steady_read pool _).counted _).bind fun fields => ?_
  refine ((Member.steady_read pool _).counted _).bind fun methods => ?_
  exact Attribute.steady_readAll.bind fun attributes => (steady_check _).bind fun _ => steady_pure _

theorem parse_eq_error_iff {bytes : List UInt8} {error : FormatError} :
    parse bytes = .error error ↔ ClassFile.read (Cursor.start bytes) = .error error := by
  unfold parse parseWithRest
  rcases ClassFile.read (Cursor.start bytes) with cause | ⟨classFile, after⟩
  · constructor
    · intro h; cases h; rfl
    · intro h; cases h; rfl
  · exact ⟨nofun, nofun⟩

theorem parse_append {bytes : List UInt8} (h : ∀ error, parse bytes = .error error → ¬ error.IsTruncated)
    (more : List UInt8) : parse (bytes ++ more) = parse bytes := by
  rcases hparse : parse bytes with error | classFile
  · have hread := parse_eq_error_iff.1 hparse
    rcases steady_read.error more hread with htruncated | hsame
    · exact absurd htruncated (h error hparse)
    · exact parse_eq_error_iff.2 hsame
  · obtain ⟨rest, hrest⟩ := parse_eq_ok_iff.1 hparse
    obtain ⟨count, hfits, hlinked, rfl⟩ := parseWithRest_eq_ok_iff.1 hrest
    exact parse_eq_ok_iff.2 ⟨rest ++ more, parseWithRest_eq_ok_iff.2 ⟨count, hfits, hlinked, List.append_assoc ..⟩⟩

/-! ## Fields -/

/-- A number or a run of bytes as it stands in a file, by the name of the item it is. -/
structure Field where
  item : Item
  bytes : List UInt8

/-- Fields one after the other. -/
def bytesOf (fields : List Field) : List UInt8 :=
  fields.flatMap Field.bytes

@[simp] theorem bytesOf_nil : bytesOf [] = [] := rfl

@[simp] theorem bytesOf_cons (field : Field) (fields : List Field) :
    bytesOf (field :: fields) = field.bytes ++ bytesOf fields := rfl

@[simp] theorem bytesOf_append (fields more : List Field) :
    bytesOf (fields ++ more) = bytesOf fields ++ bytesOf more :=
  List.flatMap_append

theorem bytesOf_flatMap {α : Type} (values : List α) (fieldsOf : α → List Field) :
    bytesOf (values.flatMap fieldsOf) = values.flatMap fun value => bytesOf (fieldsOf value) :=
  List.flatMap_assoc

/-- A list of things after its length, as fields. -/
def countedFields {α : Type} (item : Item) (fieldsOf : α → List Field) (values : List α) : List Field :=
  ⟨item, Binary.bytes16 (UInt16.ofNat values.length)⟩ :: values.flatMap fieldsOf

/-- The first field that does not fit into so many bytes is this item, and it starts at this place. -/
def CutAt (fields : List Field) (length : Nat) (item : Item) (start : Nat) : Prop :=
  ∃ before field later, fields = before ++ field :: later ∧ field.item = item ∧ (bytesOf before).length = start ∧
    start ≤ length ∧ length < start + field.bytes.length

theorem CutAt.append_right {fields : List Field} {length start : Nat} {item : Item}
    (h : CutAt fields length item start) (more : List Field) : CutAt (fields ++ more) length item start := by
  obtain ⟨before, field, later, rfl, hitem, hstart, hle, hlt⟩ := h
  exact ⟨before, field, later ++ more, by rw [List.append_assoc]; rfl, hitem, hstart, hle, hlt⟩

theorem CutAt.append_left {fields : List Field} {length start : Nat} {item : Item}
    (h : CutAt fields length item start) (first : List Field) :
    CutAt (first ++ fields) ((bytesOf first).length + length) item ((bytesOf first).length + start) := by
  obtain ⟨before, field, later, rfl, hitem, rfl, hle, hlt⟩ := h
  refine ⟨first ++ before, field, later, by rw [List.append_assoc], hitem, ?_, by omega, by omega⟩
  rw [bytesOf_append, List.length_append]

namespace Reader

/-- The reader reads the fields as this value, and of a piece of them that ends too early it reports the first
field that does not fit. -/
structure Spells {α : Type} (reader : Reader α) (value : α) (fields : List Field) : Prop where
  whole : ∀ offset rest, reader ⟨offset, bytesOf fields ++ rest⟩ = .ok (value, ⟨offset + (bytesOf fields).length, rest⟩)
  cut : ∀ offset length, length < (bytesOf fields).length → ∃ item start, CutAt fields length item start ∧
    reader ⟨offset, (bytesOf fields).take length⟩ = .error (.truncated item (offset + start))

theorem Spells.bind {α β : Type} {reader : Reader α} {next : α → Reader β} {a : α} {b : β}
    {fields more : List Field} (h : Spells reader a fields) (h' : Spells (next a) b more) :
    Spells (reader >>= next) b (fields ++ more) where
  whole offset rest := by
    rw [bytesOf_append, List.append_assoc, List.length_append, ← Nat.add_assoc]
    exact bind_eq_ok_iff.2 ⟨a, _, h.whole offset _, h'.whole _ rest⟩
  cut offset length hlength := by
    rw [bytesOf_append, List.length_append] at hlength
    by_cases hfirst : length < (bytesOf fields).length
    · obtain ⟨item, start, hcut, hfails⟩ := h.cut offset length hfirst
      refine ⟨item, start, hcut.append_right more, bind_eq_error_iff.2 (.inl ?_)⟩
      rw [bytesOf_append, List.take_append_of_le_length (Nat.le_of_lt hfirst)]
      exact hfails
    · -- the first reader finds its fields whole, and the second one is cut
      obtain ⟨k, rfl⟩ : ∃ k, length = (bytesOf fields).length + k := ⟨length - (bytesOf fields).length, by omega⟩
      obtain ⟨item, start, hcut, hfails⟩ := h'.cut (offset + (bytesOf fields).length) k (by omega)
      refine ⟨item, _, hcut.append_left fields, ?_⟩
      rw [bytesOf_append, List.take_length_add_append, ← Nat.add_assoc]
      exact bind_eq_error_iff.2 (.inr ⟨a, _, h.whole offset _, hfails⟩)

/-- What follows reads nothing. -/
theorem Spells.bind_nil {α β : Type} {reader : Reader α} {next : α → Reader β} {a : α} {b : β} {fields : List Field}
    (h : Spells reader a fields) (h' : Spells (next a) b []) : Spells (reader >>= next) b fields := by
  have hbind := h.bind h'
  rwa [List.append_nil] at hbind

theorem spells_pure {α : Type} (a : α) : Spells (pure a) a [] where
  whole _ _ := rfl
  cut _ length hlength := absurd hlength (Nat.not_lt_zero length)

theorem spells_check {check : Except FormatError Unit} (h : check = .ok ()) :
    Spells (liftM check : Reader Unit) () [] := by
  subst h
  exact spells_pure ()

/-- A reader of one field. -/
theorem Exact.spells {α : Type} {reader : Reader α} {spell : α → List UInt8} {fits : α → Prop}
    (h : Exact reader spell fits) {value : α} (hfits : fits value) {item : Item}
    (hshort : ∀ cursor, cursor.rest.length < (spell value).length →
      reader cursor = .error (.truncated item cursor.offset)) : Spells reader value [⟨item, spell value⟩] where
  whole offset rest := by
    rw [bytesOf_cons, bytesOf_nil, List.append_nil]
    exact (h _ _ _).2 ⟨hfits, rfl, rfl⟩
  cut offset length hlength := by
    rw [bytesOf_cons, bytesOf_nil, List.append_nil] at hlength ⊢
    dsimp only at hlength ⊢
    refine ⟨item, 0, ⟨[], _, [], rfl, rfl, rfl, Nat.zero_le length, by dsimp only; omega⟩, hshort _ ?_⟩
    rw [List.length_take]
    omega

theorem spells_u8 (item : Item) (value : UInt8) : Spells (u8 item) value [⟨item, [value]⟩] := by
  refine (exact_u8 item).spells trivial fun cursor hlength => ?_
  obtain ⟨offset, rest⟩ := cursor
  match rest, hlength with
  | [], _ => rfl

theorem spells_u16 (item : Item) (value : UInt16) : Spells (u16 item) value [⟨item, Binary.bytes16 value⟩] := by
  refine (exact_u16 item).spells trivial fun cursor hlength => ?_
  obtain ⟨offset, rest⟩ := cursor
  match rest, hlength with
  | [], _ => rfl
  | [_], _ => rfl
  | _ :: _ :: rest, hlength => exact absurd hlength (by simp [Binary.bytes16])

theorem spells_u32 (item : Item) (value : UInt32) : Spells (u32 item) value [⟨item, Binary.bytes32 value⟩] := by
  refine (exact_u32 item).spells trivial fun cursor hlength => ?_
  obtain ⟨offset, rest⟩ := cursor
  match rest, hlength with
  | [], _ => rfl
  | [_], _ => rfl
  | [_, _], _ => rfl
  | [_, _, _], _ => rfl
  | _ :: _ :: _ :: _ :: rest, hlength => exact absurd hlength (by simp [Binary.bytes32])

theorem spells_bytes (item : Item) {length : Nat} {value : List UInt8} (h : value.length = length) :
    Spells (bytes item length) value [⟨item, value⟩] := by
  refine (exact_bytes item length).spells h fun cursor hlength => ?_
  have htake : (cursor.rest.take length).length ≠ length := by
    rw [List.length_take]
    simp only [id] at hlength
    omega
  unfold bytes
  dsimp only
  rw [if_neg htake]

theorem spells_timesAfter {α : Type} {reader : Reader α} {fieldsOf : α → List Field} : ∀ (values done : List α),
    (∀ value ∈ values, Spells reader value (fieldsOf value)) →
    Spells (timesAfter reader done values.length) (done.reverse ++ values) (values.flatMap fieldsOf)
  | [], done, _ => by
    rw [List.append_nil]
    exact spells_pure _
  | value :: values, done, h => by
    obtain ⟨hvalue, hvalues⟩ := List.forall_mem_cons.1 h
    have hrest := spells_timesAfter values (value :: done) hvalues
    rw [List.reverse_cons, List.append_assoc] at hrest
    exact hvalue.bind hrest

theorem spells_counted {α : Type} {reader : Reader α} {fieldsOf : α → List Field} (item : Item) {values : List α}
    (hlength : values.length < 65536) (h : ∀ value ∈ values, Spells reader value (fieldsOf value)) :
    Spells (counted item reader) values (countedFields item fieldsOf values) := by
  refine (spells_u16 item (UInt16.ofNat values.length)).bind ?_
  unfold times
  rw [UInt16.toNat_ofNat_of_lt' hlength]
  exact spells_timesAfter values [] h

end Reader

end ClassFile

/-! ## The layout of a file -/

/-- The fields of an attribute. -/
def Attribute.layout (attr : Attribute) : List Field :=
  [⟨.attributeNameIndex, Binary.bytes16 attr.nameIndex⟩,
    ⟨.attributeLength, Binary.bytes32 (UInt32.ofNat attr.info.length)⟩, ⟨.attributePayload, attr.info⟩]

/-- The field that states the size of a payload, if the file states it. -/
def Tag.lengthFields (tag : Tag) (length : Nat) : List Field :=
  match tag.payloadLength with
  | some _ => []
  | none => [⟨.textLength, Binary.bytes16 (UInt16.ofNat length)⟩]

/-- The fields of a constant. -/
def Constant.layout (constant : Constant) : List Field :=
  ⟨.constantTag, [constant.tag.byte]⟩ :: constant.tag.lengthFields constant.payload.length
    ++ [⟨.constantPayload, constant.payload⟩]

/-- The fields of a member. -/
def Member.layout (member : Member) : List Field :=
  [⟨.memberAccessFlags, Binary.bytes16 member.accessFlags⟩, ⟨.memberNameIndex, Binary.bytes16 member.nameIndex⟩,
    ⟨.memberDescriptorIndex, Binary.bytes16 member.descriptorIndex⟩]
    ++ countedFields .attributeCount Attribute.layout member.attributes

/-- The fields of a class in a file that states `count` slots for its pool. -/
def ClassFile.layout (classFile : ClassFile) (count : UInt16) : List Field :=
  [⟨.magic, Binary.bytes32 magic⟩, ⟨.minorVersion, Binary.bytes16 classFile.minorVersion⟩,
    ⟨.majorVersion, Binary.bytes16 classFile.majorVersion⟩, ⟨.poolCount, Binary.bytes16 count⟩]
    ++ classFile.pool.toList.flatMap Constant.layout
    ++ [⟨.accessFlags, Binary.bytes16 classFile.accessFlags⟩, ⟨.thisClass, Binary.bytes16 classFile.thisClass⟩,
      ⟨.superClass, Binary.bytes16 classFile.superClass⟩]
    ++ countedFields .interfaceCount (fun index => [⟨.interfaceIndex, Binary.bytes16 index⟩]) classFile.interfaces
    ++ countedFields .fieldCount Member.layout classFile.fields
    ++ countedFields .methodCount Member.layout classFile.methods
    ++ countedFields .attributeCount Attribute.layout classFile.attributes

theorem bytesOf_countedFields {α : Type} {item : Item} {fieldsOf : α → List Field} {spell : α → List UInt8}
    (h : ∀ value, bytesOf (fieldsOf value) = spell value) (values : List α) :
    bytesOf (countedFields item fieldsOf values) =
      Binary.bytes16 (UInt16.ofNat values.length) ++ values.flatMap spell := by
  unfold countedFields
  rw [bytesOf_cons, bytesOf_flatMap]
  simp only [h]

theorem Attribute.bytesOf_layout (attr : Attribute) : bytesOf attr.layout = attr.encode := by
  simp [Attribute.layout, Attribute.encode]

theorem Constant.bytesOf_layout (constant : Constant) : bytesOf constant.layout = constant.encode := by
  unfold Constant.layout Constant.encode Tag.lengthFields
  cases constant.tag.payloadLength <;> simp

theorem Member.bytesOf_layout (member : Member) : bytesOf member.layout = member.encode := by
  unfold Member.layout Member.encode Attribute.encodeAll
  rw [bytesOf_append, bytesOf_countedFields Attribute.bytesOf_layout]
  simp

/-- The fields of a class are its spelling. -/
theorem ClassFile.bytesOf_layout (classFile : ClassFile) (count : UInt16) :
    bytesOf (classFile.layout count) = classFile.encode count := by
  have hindices : bytesOf (countedFields .interfaceCount (fun index => [⟨.interfaceIndex, Binary.bytes16 index⟩])
      classFile.interfaces) = encodeIndices classFile.interfaces :=
    bytesOf_countedFields (fun index => by simp) _
  unfold ClassFile.layout ClassFile.encode Member.encodeAll Attribute.encodeAll
  simp [bytesOf_flatMap, Constant.bytesOf_layout, hindices, bytesOf_countedFields Attribute.bytesOf_layout,
    bytesOf_countedFields Member.bytesOf_layout]

/-! ## Readers and their fields -/

theorem Attribute.spells_readAll {attributes : List Attribute} (h : Attribute.Fit attributes) :
    Spells Attribute.readAll attributes (countedFields .attributeCount Attribute.layout attributes) := by
  refine spells_counted .attributeCount h.1 fun attr hattr => ?_
  refine (spells_u16 _ attr.nameIndex).bind ((spells_u32 _ (UInt32.ofNat attr.info.length)).bind ?_)
  refine (spells_bytes _ ?_).bind (spells_pure _)
  rw [UInt32.toNat_ofNat_of_lt' (h.2 attr hattr)]

theorem Tag.spells_readLength {tag : Tag} {length : Nat} (h : tag.Takes length) :
    Spells tag.readLength length (tag.lengthFields length) := by
  revert h
  unfold Tag.Takes Tag.readLength Tag.lengthFields
  rcases tag.payloadLength with _ | fixed
  · intro h
    have hpure : Spells (pure (UInt16.ofNat length).toNat) length [] := by
      rw [UInt16.toNat_ofNat_of_lt' h]
      exact spells_pure length
    exact (spells_u16 .textLength (UInt16.ofNat length)).bind_nil hpure
  · rintro rfl
    exact spells_pure length

theorem Constant.spells_read (index : UInt16) {constant : Constant} (h : constant.WellSized) :
    Spells (Constant.read index) constant constant.layout := by
  refine (spells_u8 _ constant.tag.byte).bind ?_
  rw [Tag.ofByte?_byte]
  exact (Tag.spells_readLength h).bind ((spells_bytes _ rfl).bind_nil (spells_pure _))

theorem Pool.spells_readMissing {constants : List Constant} (hsized : ∀ constant ∈ constants, constant.WellSized)
    {missing : Nat} (hfill : Pool.Fill constants missing) (pool : Pool) :
    Spells (Pool.readMissing missing pool) (constants.foldl Pool.push pool)
      (constants.flatMap Constant.layout) := by
  induction constants generalizing missing pool with
  | nil =>
    rw [show missing = 0 from hfill]
    exact spells_pure pool
  | cons constant rest ih =>
    obtain ⟨hconstant, hrest⟩ := List.forall_mem_cons.1 hsized
    obtain ⟨hpos, hfill⟩ := hfill
    -- some slot is missing, so the reader goes on, with two slots less after a wide constant
    obtain ⟨missing, rfl⟩ := Nat.exists_eq_add_one_of_ne_zero (Nat.ne_of_gt hpos)
    rw [Pool.readMissing_succ]
    exact (Constant.spells_read _ hconstant).bind (ih hrest hfill _)

theorem Member.spells_read {member : Member} {pool : Pool} (h : member.WellFormed pool) (holder : Holder) :
    Spells (Member.read pool holder) member member.layout := by
  refine (spells_u16 _ _).bind ((spells_u16 _ _).bind ((spells_u16 _ _).bind ?_))
  -- A check sees indices that were read already, and the pool, so a cut behind it does not change its answer.
  refine (spells_check ((Pool.requireText_eq_ok_iff holder).2 h.name)).bind ?_
  refine (spells_check ((Pool.requireText_eq_ok_iff holder).2 h.descriptor)).bind ?_
  refine (Attribute.spells_readAll h.attributes).bind_nil ?_
  exact (spells_check (Pool.requireNames_eq_ok_iff.2 h.attributeNames)).bind (spells_pure _)

namespace ClassFile

theorem spells_read {classFile : ClassFile} {count : UInt16} (hfits : classFile.pool.Fits count)
    (h : classFile.Linked) : Spells ClassFile.read classFile (classFile.layout count) := by
  obtain ⟨hpool, hsized, hfill⟩ := hfits
  have hread : Spells Pool.read classFile.pool
      (⟨.poolCount, Binary.bytes16 count⟩ :: classFile.pool.toList.flatMap Constant.layout) := by
    have hmissing := Pool.spells_readMissing hsized hfill Pool.empty
    rw [show classFile.pool.toList.foldl Pool.push Pool.empty = classFile.pool from hpool.symm] at hmissing
    exact (spells_u16 _ count).bind hmissing
  unfold layout
  simp only [List.append_assoc]
  refine (spells_u32 _ magic).bind ((spells_check (requireMagic_eq_ok_iff.2 rfl)).bind ?_)
  refine (spells_u16 _ _).bind ((spells_u16 _ _).bind (hread.bind ((spells_u16 _ _).bind ((spells_u16 _ _).bind ?_))))
  refine (spells_check (Pool.requireClass_eq_ok_iff.2 h.thisClass)).bind ((spells_u16 _ _).bind ?_)
  refine (spells_check (Pool.requireSuper_eq_ok_iff.2 h.superClass)).bind ?_
  refine (spells_counted _ h.interfaces fun index _ => spells_u16 _ index).bind ?_
  refine (spells_counted _ h.fieldCount fun field hfield => Member.spells_read (h.fields field hfield) _).bind ?_
  refine (spells_counted _ h.methodCount fun method hmethod => Member.spells_read (h.methods method hmethod) _).bind ?_
  refine (Attribute.spells_readAll h.attributes).bind_nil ?_
  exact (spells_check (Pool.requireNames_eq_ok_iff.2 h.attributeNames)).bind (spells_pure _)

/-- The verdict on bytes rests on those that were read. A verdict other than that the bytes end too early stays
whatever follows. Bytes that are read as a class begin with its fields, and a piece that ends before their end is
refused as such, by the name and the start of the first field that is not there in full. -/
theorem parse_append_and_take (bytes : List UInt8) :
    ((∀ item offset, parse bytes ≠ .error (.truncated item offset)) →
      ∀ more, parse (bytes ++ more) = parse bytes) ∧
    ∀ classFile rest, parseWithRest bytes = .ok (classFile, rest) →
      ∃ count, bytes = bytesOf (classFile.layout count) ++ rest ∧
        ∀ length, length + rest.length < bytes.length → ∃ item offset, offset ≤ length ∧
          CutAt (classFile.layout count) length item offset ∧
          parse (bytes.take length) = .error (.truncated item offset) := by
  refine ⟨fun h => parse_append fun error herror htruncated => ?_, fun classFile rest h => ?_⟩
  · cases error with
    | truncated item offset => exact h item offset herror
    | _ => exact htruncated
  · obtain ⟨count, hfits, hlinked, rfl⟩ := parseWithRest_eq_ok_iff.1 h
    rw [← bytesOf_layout]
    refine ⟨count, rfl, fun length hless => ?_⟩
    have hlength : length < (bytesOf (classFile.layout count)).length := by
      rw [List.length_append] at hless
      omega
    obtain ⟨item, start, hcut, hfails⟩ := (spells_read hfits hlinked).cut 0 length hlength
    rw [Nat.zero_add] at hfails
    refine ⟨item, start, ?_, hcut, ?_⟩
    · obtain ⟨_, _, _, _, _, _, hle, _⟩ := hcut
      exact hle
    · rw [List.take_append_of_le_length (Nat.le_of_lt hlength)]
      exact parse_eq_error_iff.2 hfails

-- The cut goes through the payload of the wide constant, which starts at byte 18.
theorem parse_append_and_take_pointClass :
    (∀ more, parse ([0xCA, 0xFE, 0xBA, 0xBF] ++ more) = .error (.badMagic 0xCAFEBABF)) ∧
      ∃ count, pointClass.encode 10 ++ [0xFF] = bytesOf (pointClass.layout count) ++ [0xFF] ∧
        CutAt (pointClass.layout count) 20 .constantPayload 18 ∧
        parse ((pointClass.encode 10 ++ [0xFF]).take 20) = .error (.truncated .constantPayload 18) := by
  have hmagic : parse [0xCA, 0xFE, 0xBA, 0xBF] = .error (.badMagic 0xCAFEBABF) := rfl
  have hcut : parse ((pointClass.encode 10 ++ [0xFF]).take 20) = .error (.truncated .constantPayload 18) := rfl
  refine ⟨fun more => ?_, ?_⟩
  · rw [(parse_append_and_take [0xCA, 0xFE, 0xBA, 0xBF]).1 (fun item offset h => nomatch hmagic.symm.trans h) more]
    exact hmagic
  · obtain ⟨count, hbytes, hprefix⟩ := (parse_append_and_take (pointClass.encode 10 ++ [0xFF])).2 pointClass [0xFF] rfl
    obtain ⟨item, offset, -, hat, hfails⟩ := hprefix 20 (by decide)
    cases hcut.symm.trans hfails
    exact ⟨count, hbytes, hat, hcut⟩

end ClassFile

end ClassMachine
