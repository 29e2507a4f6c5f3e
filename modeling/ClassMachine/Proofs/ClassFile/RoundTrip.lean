/-
Reading and writing class files undo each other. A class is read from exactly those bytes that begin
with its spelling, under some number of slots that its constants fill (`ClassFile.read_eq_ok_iff`);
so a well-formed class is read back from its spelling, whatever follows it, and bytes that are read
as a class begin with the spelling of that class under the number of slots that they state.
-/
import ClassMachine.Proofs.ClassFile.Spelling

namespace ClassMachine

open ClassFile ClassFile.Reader

/-! ## Indices -/

/-- The index leads to a text. -/
def Pool.HasText (pool : Pool) (index : UInt16) : Prop :=
  ∃ text, pool.utf8 index = .ok text

/-- The index leads to the name of a class. -/
def Pool.HasClass (pool : Pool) (index : UInt16) : Prop :=
  ∃ name, pool.className index = .ok name

instance (pool : Pool) (index : UInt16) : Decidable (pool.HasText index) :=
  match h : pool.utf8 index with
  | .ok text => isTrue ⟨text, h⟩
  | .error _ => isFalse fun ⟨_, htext⟩ => nomatch h.symm.trans htext

instance (pool : Pool) (index : UInt16) : Decidable (pool.HasClass index) :=
  match h : pool.className index with
  | .ok name => isTrue ⟨name, h⟩
  | .error _ => isFalse fun ⟨_, hname⟩ => nomatch h.symm.trans hname

theorem Pool.requireText_eq_ok_iff {pool : Pool} {index : UInt16} (holder : Holder) :
    pool.requireText holder index = .ok () ↔ pool.HasText index := by
  unfold Pool.requireText Pool.HasText
  rcases pool.utf8 index with error | text
  · exact ⟨nofun, nofun⟩
  · exact ⟨fun _ => ⟨text, rfl⟩, fun _ => rfl⟩

theorem Pool.requireClass_eq_ok_iff {pool : Pool} {holder : Holder} {index : UInt16} :
    pool.requireClass holder index = .ok () ↔ pool.HasClass index := by
  unfold Pool.requireClass Pool.HasClass
  rcases pool.className index with error | name
  · exact ⟨nofun, nofun⟩
  · exact ⟨fun _ => ⟨name, rfl⟩, fun _ => rfl⟩

theorem Pool.requireSuper_eq_ok_iff {pool : Pool} {index : UInt16} :
    pool.requireSuper index = .ok () ↔ index = 0 ∨ pool.HasClass index := by
  unfold Pool.requireSuper
  split
  · rename_i hzero; exact ⟨fun _ => .inl hzero, fun _ => rfl⟩
  · rename_i hzero; rw [Pool.requireClass_eq_ok_iff, or_iff_right hzero]

theorem Pool.requireNames_eq_ok_iff {pool : Pool} {attributes : List Attribute} :
    pool.requireNames attributes = .ok () ↔ ∀ attr ∈ attributes, pool.HasText attr.nameIndex := by
  unfold Pool.requireNames
  induction attributes with
  | nil => simp [pure, Except.pure]
  | cons attr rest ih =>
    rw [List.forall_mem_cons, ← ih, ← Pool.requireText_eq_ok_iff .attributeName]
    show (pool.requireText .attributeName attr.nameIndex >>= fun _ => rest.forM _) = .ok () ↔ _
    rcases pool.requireText .attributeName attr.nameIndex with error | ⟨⟩
    · exact ⟨nofun, nofun⟩
    · exact ⟨fun h => ⟨rfl, h⟩, fun ⟨_, h⟩ => h⟩

/-! ## Members -/

/-- A member that a file with this pool can hold: its names lead to texts, and so do those of its
attributes. -/
structure Member.WellFormed (member : Member) (pool : Pool) : Prop where
  name : pool.HasText member.nameIndex
  descriptor : pool.HasText member.descriptorIndex
  attributes : Attribute.Fit member.attributes
  attributeNames : ∀ attr ∈ member.attributes, pool.HasText attr.nameIndex

theorem Member.wellFormed_iff {member : Member} {pool : Pool} : member.WellFormed pool ↔
    pool.HasText member.nameIndex ∧ pool.HasText member.descriptorIndex ∧ Attribute.Fit member.attributes ∧
      ∀ attr ∈ member.attributes, pool.HasText attr.nameIndex :=
  ⟨fun ⟨h₁, h₂, h₃, h₄⟩ => ⟨h₁, h₂, h₃, h₄⟩, fun ⟨h₁, h₂, h₃, h₄⟩ => ⟨h₁, h₂, h₃, h₄⟩⟩

instance (member : Member) (pool : Pool) : Decidable (member.WellFormed pool) :=
  decidable_of_iff' _ Member.wellFormed_iff

theorem Member.exact_read (pool : Pool) (holder : Holder) :
    Exact (Member.read pool holder) Member.encode fun member => member.WellFormed pool := by
  rintro cursor ⟨accessFlags, nameIndex, descriptorIndex, attributes⟩ after
  unfold Member.read Member.encode
  constructor
  · intro h
    obtain ⟨_, first, -, hflags, h⟩ := (exact_u16 _).bind_iff.1 h
    obtain ⟨_, second, -, hname, h⟩ := (exact_u16 _).bind_iff.1 h
    obtain ⟨_, third, -, hdescriptor, h⟩ := (exact_u16 _).bind_iff.1 h
    obtain ⟨hnamed, h⟩ := check_bind_iff.1 h
    obtain ⟨hdescribed, h⟩ := check_bind_iff.1 h
    obtain ⟨_, last, hfit, hattributes, h⟩ := Attribute.exact_readAll.bind_iff.1 h
    obtain ⟨hnames, h⟩ := check_bind_iff.1 h
    obtain ⟨heq, rfl⟩ := pure_eq_ok_iff.1 h
    cases heq
    refine ⟨⟨(Pool.requireText_eq_ok_iff holder).1 hnamed, (Pool.requireText_eq_ok_iff holder).1 hdescribed, hfit,
      Pool.requireNames_eq_ok_iff.1 hnames⟩, ?_⟩
    simp only [Cursor.before_append_iff]
    exact ⟨third, ⟨second, ⟨first, hflags, hname⟩, hdescriptor⟩, hattributes⟩
  · rintro ⟨⟨hnamed, hdescribed, hfit, hnames⟩, hbefore⟩
    simp only [Cursor.before_append_iff] at hbefore
    obtain ⟨third, ⟨second, ⟨first, hflags, hname⟩, hdescriptor⟩, hattributes⟩ := hbefore
    refine (exact_u16 _).bind_iff.2 ⟨_, first, trivial, hflags, ?_⟩
    refine (exact_u16 _).bind_iff.2 ⟨_, second, trivial, hname, ?_⟩
    refine (exact_u16 _).bind_iff.2 ⟨_, third, trivial, hdescriptor, ?_⟩
    refine check_bind_iff.2 ⟨(Pool.requireText_eq_ok_iff holder).2 hnamed, ?_⟩
    refine check_bind_iff.2 ⟨(Pool.requireText_eq_ok_iff holder).2 hdescribed, ?_⟩
    refine Attribute.exact_readAll.bind_iff.2 ⟨_, after, hfit, hattributes, ?_⟩
    exact check_bind_iff.2 ⟨Pool.requireNames_eq_ok_iff.2 hnames, rfl⟩

/-! ## Classes -/

namespace ClassFile

theorem requireMagic_eq_ok_iff {found : UInt32} : requireMagic found = .ok () ↔ found = magic := by
  unfold requireMagic
  split
  · rename_i hfound; exact ⟨fun _ => hfound, fun _ => rfl⟩
  · rename_i hfound; exact ⟨nofun, fun h => absurd h hfound⟩

/-- A class whose lists and indices a file can hold: indices lead where they must, and every count and
every length fits into its bytes. -/
structure Linked (classFile : ClassFile) : Prop where
  thisClass : classFile.pool.HasClass classFile.thisClass
  superClass : classFile.superClass = 0 ∨ classFile.pool.HasClass classFile.superClass
  interfaces : classFile.interfaces.length < 65536
  fieldCount : classFile.fields.length < 65536
  fields : ∀ field ∈ classFile.fields, field.WellFormed classFile.pool
  methodCount : classFile.methods.length < 65536
  methods : ∀ method ∈ classFile.methods, method.WellFormed classFile.pool
  attributes : Attribute.Fit classFile.attributes
  attributeNames : ∀ attr ∈ classFile.attributes, classFile.pool.HasText attr.nameIndex

/-- A class is read where its spelling stands, under a number of slots that its constants fill. -/
theorem read_eq_ok_iff {classFile : ClassFile} {cursor after : Cursor} :
    ClassFile.read cursor = .ok (classFile, after) ↔
      ∃ count : UInt16, classFile.pool.Fits count ∧ classFile.Linked ∧
        cursor.Before (classFile.encode count) after := by
  obtain ⟨minor, major, pool, flags, this, super, interfaces, fields, methods, attributes⟩ := classFile
  unfold ClassFile.read ClassFile.encode
  -- Either way goes through the items in the order of the file; a check reads nothing.
  constructor
  · intro h
    obtain ⟨found, afterMagic, -, hmagic, h⟩ := (exact_u32 _).bind_iff.1 h
    obtain ⟨hfound, h⟩ := check_bind_iff.1 h
    rw [requireMagic_eq_ok_iff.1 hfound] at hmagic
    obtain ⟨_, afterMinor, -, hminor, h⟩ := (exact_u16 _).bind_iff.1 h
    obtain ⟨_, afterMajor, -, hmajor, h⟩ := (exact_u16 _).bind_iff.1 h
    obtain ⟨_, afterPool, hpool, h⟩ := bind_eq_ok_iff.1 h
    obtain ⟨_, afterFlags, -, hflags, h⟩ := (exact_u16 _).bind_iff.1 h
    obtain ⟨_, afterThis, -, hthis, h⟩ := (exact_u16 _).bind_iff.1 h
    obtain ⟨hthisClass, h⟩ := check_bind_iff.1 h
    obtain ⟨_, afterSuper, -, hsuper, h⟩ := (exact_u16 _).bind_iff.1 h
    obtain ⟨hsuperClass, h⟩ := check_bind_iff.1 h
    obtain ⟨_, afterInterfaces, ⟨hinterfaceCount, -⟩, hinterfaces, h⟩ :=
      ((exact_u16 _).counted _).bind_iff.1 h
    obtain ⟨_, afterFields, ⟨hfieldCount, hfieldsOk⟩, hfields, h⟩ :=
      ((Member.exact_read _ _).counted _).bind_iff.1 h
    obtain ⟨_, afterMethods, ⟨hmethodCount, hmethodsOk⟩, hmethods, h⟩ :=
      ((Member.exact_read _ _).counted _).bind_iff.1 h
    obtain ⟨_, last, hfit, hattributes, h⟩ := Attribute.exact_readAll.bind_iff.1 h
    obtain ⟨hnames, h⟩ := check_bind_iff.1 h
    obtain ⟨heq, rfl⟩ := pure_eq_ok_iff.1 h
    cases heq
    obtain ⟨count, hfits, hpool⟩ := Pool.read_eq_ok_iff.1 hpool
    obtain ⟨afterCount, hcount, hconstants⟩ := Cursor.before_append_iff.1 hpool
    refine ⟨count, hfits, ⟨Pool.requireClass_eq_ok_iff.1 hthisClass, Pool.requireSuper_eq_ok_iff.1 hsuperClass,
      hinterfaceCount, hfieldCount, hfieldsOk, hmethodCount, hmethodsOk, hfit,
      Pool.requireNames_eq_ok_iff.1 hnames⟩, ?_⟩
    simp only [Cursor.before_append_iff]
    exact ⟨afterMethods, ⟨afterFields, ⟨afterInterfaces, ⟨afterSuper, ⟨afterThis, ⟨afterFlags, ⟨afterPool,
      ⟨afterCount, ⟨afterMajor, ⟨afterMinor, ⟨afterMagic, hmagic, hminor⟩, hmajor⟩, hcount⟩, hconstants⟩,
      hflags⟩, hthis⟩, hsuper⟩, hinterfaces⟩, hfields⟩, hmethods⟩, hattributes⟩
  · rintro ⟨count, hfits, ⟨hthisClass, hsuperClass, hinterfaceCount, hfieldCount, hfieldsOk, hmethodCount,
      hmethodsOk, hfit, hnames⟩, hbefore⟩
    simp only [Cursor.before_append_iff] at hbefore
    obtain ⟨afterMethods, ⟨afterFields, ⟨afterInterfaces, ⟨afterSuper, ⟨afterThis, ⟨afterFlags, ⟨afterPool,
      ⟨afterCount, ⟨afterMajor, ⟨afterMinor, ⟨afterMagic, hmagic, hminor⟩, hmajor⟩, hcount⟩, hconstants⟩,
      hflags⟩, hthis⟩, hsuper⟩, hinterfaces⟩, hfields⟩, hmethods⟩, hattributes⟩ := hbefore
    refine (exact_u32 _).bind_iff.2 ⟨_, afterMagic, trivial, hmagic, ?_⟩
    refine check_bind_iff.2 ⟨requireMagic_eq_ok_iff.2 rfl, ?_⟩
    refine (exact_u16 _).bind_iff.2 ⟨_, afterMinor, trivial, hminor, ?_⟩
    refine (exact_u16 _).bind_iff.2 ⟨_, afterMajor, trivial, hmajor, ?_⟩
    refine bind_eq_ok_iff.2 ⟨_, afterPool, Pool.read_eq_ok_iff.2 ⟨count, hfits,
      Cursor.before_append_iff.2 ⟨afterCount, hcount, hconstants⟩⟩, ?_⟩
    refine (exact_u16 _).bind_iff.2 ⟨_, afterFlags, trivial, hflags, ?_⟩
    refine (exact_u16 _).bind_iff.2 ⟨_, afterThis, trivial, hthis, ?_⟩
    refine check_bind_iff.2 ⟨Pool.requireClass_eq_ok_iff.2 hthisClass, ?_⟩
    refine (exact_u16 _).bind_iff.2 ⟨_, afterSuper, trivial, hsuper, ?_⟩
    refine check_bind_iff.2 ⟨Pool.requireSuper_eq_ok_iff.2 hsuperClass, ?_⟩
    refine ((exact_u16 _).counted _).bind_iff.2
      ⟨_, afterInterfaces, ⟨hinterfaceCount, fun _ _ => trivial⟩, hinterfaces, ?_⟩
    refine ((Member.exact_read _ _).counted _).bind_iff.2
      ⟨_, afterFields, ⟨hfieldCount, hfieldsOk⟩, hfields, ?_⟩
    refine ((Member.exact_read _ _).counted _).bind_iff.2
      ⟨_, afterMethods, ⟨hmethodCount, hmethodsOk⟩, hmethods, ?_⟩
    refine Attribute.exact_readAll.bind_iff.2 ⟨_, after, hfit, hattributes, ?_⟩
    exact check_bind_iff.2 ⟨Pool.requireNames_eq_ok_iff.2 hnames, rfl⟩

theorem parseWithRest_eq_ok_iff {bytes rest : List UInt8} {classFile : ClassFile} :
    parseWithRest bytes = .ok (classFile, rest) ↔
      ∃ count : UInt16, classFile.pool.Fits count ∧ classFile.Linked ∧ bytes = classFile.encode count ++ rest := by
  have hread : parseWithRest bytes = .ok (classFile, rest) ↔
      ∃ after, ClassFile.read (Cursor.start bytes) = .ok (classFile, after) ∧ after.rest = rest := by
    unfold parseWithRest
    rcases ClassFile.read (Cursor.start bytes) with error | ⟨found, after⟩
    · exact ⟨nofun, nofun⟩
    · constructor
      · intro h; cases h; exact ⟨after, rfl, rfl⟩
      · rintro ⟨_, h, rfl⟩; cases h; rfl
  rw [hread]
  constructor
  · rintro ⟨after, h, rfl⟩
    obtain ⟨count, hfits, hlinked, hbefore⟩ := read_eq_ok_iff.1 h
    exact ⟨count, hfits, hlinked, hbefore.rest⟩
  · rintro ⟨count, hfits, hlinked, rfl⟩
    exact ⟨⟨0 + (classFile.encode count).length, rest⟩,
      read_eq_ok_iff.2 ⟨count, hfits, hlinked, ⟨rfl, rfl⟩⟩, rfl⟩

theorem parse_eq_ok_iff {bytes : List UInt8} {classFile : ClassFile} :
    parse bytes = .ok classFile ↔ ∃ rest, parseWithRest bytes = .ok (classFile, rest) := by
  unfold parse
  rcases parseWithRest bytes with error | ⟨found, rest⟩
  · exact ⟨nofun, nofun⟩
  · constructor
    · intro h; cases h; exact ⟨rest, rfl⟩
    · rintro ⟨_, h⟩; cases h; rfl

/-! ## Reading what was written -/

/-- A class that a file can hold: the pool is built by adding constants of sound sizes, its number of
slots fits into two bytes, and so do the counts of all lists, with indices that lead where they must. -/
structure WellFormed (classFile : ClassFile) : Prop extends classFile.Linked where
  pool : ∃ constants : List Constant, classFile.pool = Pool.ofList constants ∧
    ∀ constant ∈ constants, constant.WellSized
  slots : classFile.pool.count ≤ 65535

theorem WellFormed.fits {classFile : ClassFile} (h : classFile.WellFormed) :
    classFile.pool.Fits (UInt16.ofNat classFile.pool.count) := by
  obtain ⟨constants, hpool, hsized⟩ := h.pool
  have hcount := h.slots
  rw [hpool] at hcount ⊢
  exact Pool.fits_ofList hsized (Nat.lt_succ_of_le hcount)

/-- A well-formed class is read back from its spelling, whatever bytes follow. -/
theorem parse_encode_append (classFile : ClassFile) (h : classFile.WellFormed) (trailing : List UInt8) :
    parse (classFile.encode (UInt16.ofNat classFile.pool.count) ++ trailing) = .ok classFile :=
  parse_eq_ok_iff.2 ⟨trailing, parseWithRest_eq_ok_iff.2 ⟨_, h.fits, h.toLinked, rfl⟩⟩

/-- A class with wide constants in its pool and at its end, an interface that is not in the pool, an
empty attribute and two methods of one name. -/
def pointClass : ClassFile where
  minorVersion := 3
  majorVersion := 52
  pool := Pool.ofList [⟨.utf8, [0x50]⟩, ⟨.classRef, [0, 1]⟩, ⟨.long, [0, 0, 0, 0, 0, 0, 0, 7]⟩,
    ⟨.utf8, [0x78]⟩, ⟨.utf8, [0x49]⟩, ⟨.utf8, [0x28, 0x29, 0x56]⟩, ⟨.double, [0x3F, 0xF0, 0, 0, 0, 0, 0, 0]⟩]
  accessFlags := 0x21
  thisClass := 2
  superClass := 0
  interfaces := [99]
  fields := [⟨8, 5, 6, [⟨5, []⟩]⟩]
  methods := [⟨9, 5, 7, []⟩, ⟨8, 5, 7, [⟨6, [1, 2]⟩, ⟨5, [3]⟩]⟩]
  attributes := [⟨7, [0xCA, 0xFE, 0xBA]⟩]

theorem pointClass_wellFormed : pointClass.WellFormed where
  thisClass := by decide
  superClass := by decide
  interfaces := by decide
  fieldCount := by decide
  fields := by decide
  methodCount := by decide
  methods := by decide
  attributes := by decide
  attributeNames := by decide
  pool := ⟨_, rfl, by decide⟩
  slots := by decide

theorem parse_encode_pointClass :
    pointClass.WellFormed ∧ parse (pointClass.encode 10 ++ [0xFF, 0]) = .ok pointClass :=
  ⟨pointClass_wellFormed, parse_encode_append pointClass pointClass_wellFormed [0xFF, 0]⟩

/-! ## Writing what was read -/

/-- The number of slots that bytes state for a pool, in the ninth and the tenth byte. -/
def statedCount? (bytes : List UInt8) : Option UInt16 :=
  match bytes.drop 8 with
  | a :: b :: _ => some (Binary.join16 a b)
  | _ => none

theorem statedCount?_encode_append (classFile : ClassFile) (count : UInt16) (rest : List UInt8) :
    statedCount? (classFile.encode count ++ rest) = some count := by
  simp [statedCount?, encode, Binary.bytes32, Binary.bytes16, Binary.join16_bytes16]

/-- Bytes that are read as a class are its spelling under the number they state, and the rest. -/
theorem parseWithRest_of_statedCount? {bytes : List UInt8} {classFile : ClassFile} {count : UInt16}
    (h : parse bytes = .ok classFile) (hcount : statedCount? bytes = some count) :
    ∃ rest, parseWithRest bytes = .ok (classFile, rest) ∧ bytes = classFile.encode count ++ rest := by
  obtain ⟨rest, hrest⟩ := parse_eq_ok_iff.1 h
  obtain ⟨stated, -, -, rfl⟩ := parseWithRest_eq_ok_iff.1 hrest
  rw [statedCount?_encode_append] at hcount
  cases hcount
  exact ⟨rest, hrest, rfl⟩

/-- Bytes that are read as a class begin with its spelling under the number of slots they state, and the
reader stops right behind it; so bytes that are read as the same class and state the same number agree
as far as they are read. -/
theorem encode_prefix_of_parse {bytes : List UInt8} {classFile : ClassFile} (h : parse bytes = .ok classFile) :
    ∃ count, statedCount? bytes = some count ∧ classFile.encode count <+: bytes ∧
      parseWithRest bytes = .ok (classFile, bytes.drop (classFile.encode count).length) ∧
      ∀ other, parse other = .ok classFile → statedCount? other = some count →
        parseWithRest other = .ok (classFile, other.drop (classFile.encode count).length) ∧
        other.take (classFile.encode count).length = bytes.take (classFile.encode count).length := by
  obtain ⟨rest, hrest⟩ := parse_eq_ok_iff.1 h
  obtain ⟨count, -, -, hbytes⟩ := parseWithRest_eq_ok_iff.1 hrest
  refine ⟨count, by rw [hbytes]; exact statedCount?_encode_append _ _ _, ⟨rest, hbytes.symm⟩, ?_, ?_⟩
  · rw [hrest, hbytes, List.drop_left]
  · intro other hother hcount
    obtain ⟨rest', hrest', hother⟩ := parseWithRest_of_statedCount? hother hcount
    rw [hrest', hbytes, hother, List.drop_left, List.take_left, List.take_left]
    exact ⟨rfl, rfl⟩

-- Nine slots are stated for ten: the wide constant at the end takes one slot beyond.
theorem encode_pointClass_prefix_of_parse :
    parse (pointClass.encode 9 ++ [0xFF, 0]) = .ok pointClass ∧
      ∃ count, statedCount? (pointClass.encode 9 ++ [0xFF, 0]) = some count ∧
        pointClass.encode count <+: pointClass.encode 9 ++ [0xFF, 0] ∧
        parseWithRest (pointClass.encode 9 ++ [0xFF, 0]) =
          .ok (pointClass, (pointClass.encode 9 ++ [0xFF, 0]).drop (pointClass.encode count).length) ∧
        ∀ other, parse other = .ok pointClass → statedCount? other = some count →
          parseWithRest other = .ok (pointClass, other.drop (pointClass.encode count).length) ∧
          other.take (pointClass.encode count).length =
            (pointClass.encode 9 ++ [0xFF, 0]).take (pointClass.encode count).length := by
  have h : parse (pointClass.encode 9 ++ [0xFF, 0]) = .ok pointClass := rfl
  exact ⟨h, encode_prefix_of_parse h⟩

end ClassFile

end ClassMachine
