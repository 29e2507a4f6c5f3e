/-
Names in a class that was read. The reader checks indices where it meets them, so afterwards the class, its super
class, its members and all attributes of these have names; payloads have the size of their kind, so no accessor
of the pool finds one that is too short; and every method is found under its own name (`ClassFile.resolved_of_parse`).
-/
import ClassMachine.Proofs.ClassFile.RoundTrip

namespace ClassMachine

/-! ## Accessors of the pool -/

/-- Whatever the result is, no payload is to blame for it. -/
def Blameless {α : Type} (result : Except ResolveError α) : Prop :=
  ∀ index tag, result ≠ .error (.badPayload index tag)

theorem blameless_ok {α : Type} (a : α) : Blameless (.ok a) :=
  nofun

theorem Blameless.bind {α β : Type} {result : Except ResolveError α} {next : α → Except ResolveError β}
    (h : Blameless result) (h' : ∀ a, result = .ok a → Blameless (next a)) : Blameless (result >>= next) := by
  rcases result with error | a
  · intro index tag heq
    cases heq
    exact h index tag rfl
  · exact h' a rfl

/-- No accessor of the pool blames a payload at this index. -/
structure Pool.BlamelessAt (pool : Pool) (index : UInt16) : Prop where
  get : Blameless (pool.get index)
  tag : Blameless (pool.tag index)
  utf8 : Blameless (pool.utf8 index)
  integer : Blameless (pool.integer index)
  className : Blameless (pool.className index)
  string : Blameless (pool.string index)
  nameAndType : Blameless (pool.nameAndType index)
  fieldRef : Blameless (pool.fieldRef index)
  methodRef : Blameless (pool.methodRef index)
  interfaceMethodRef : Blameless (pool.interfaceMethodRef index)

namespace Pool

variable {pool : Pool}

theorem mem_toList_of_get {index : UInt16} {constant : Constant} (h : pool.get index = .ok constant) :
    constant ∈ pool.toList := by
  unfold Pool.get at h
  split at h
  · rename_i hslot
    cases h
    rw [← Array.getElem?_toList] at hslot
    exact List.mem_filterMap.2 ⟨some constant, List.mem_of_getElem? hslot, rfl⟩
  · cases h
  · cases h

theorem payload_eq_ok_iff {kind : Tag} {index : UInt16} {payload : List UInt8} :
    pool.payload kind index = .ok payload ↔ pool.get index = .ok ⟨kind, payload⟩ := by
  unfold Pool.payload
  rcases pool.get index with error | ⟨found, bytes⟩
  · exact ⟨nofun, nofun⟩
  · simp only [bind, Except.bind]
    by_cases hkind : found = kind
    · subst hkind
      rw [if_pos rfl]
      constructor
      · intro h; cases h; rfl
      · intro h; cases h; rfl
    · rw [if_neg hkind]
      constructor
      · intro h; cases h
      · intro h; cases h; exact absurd rfl hkind

theorem blameless_get (index : UInt16) : Blameless (pool.get index) := by
  intro slot tag h
  unfold Pool.get at h
  split at h <;> cases h

theorem blameless_payload (kind : Tag) (index : UInt16) : Blameless (pool.payload kind index) := by
  refine (blameless_get index).bind fun constant _ => ?_
  split
  · exact blameless_ok _
  · intro slot tag h; cases h

theorem blameless_utf8 (index : UInt16) : Blameless (pool.utf8 index) := by
  refine (blameless_payload .utf8 index).bind fun payload _ => ?_
  split
  · exact blameless_ok _
  · intro slot tag h; cases h

section

variable (hsized : ∀ constant ∈ pool.toList, constant.WellSized)

include hsized

/-- The payload of a constant has the size of its kind, if the kind has one. -/
theorem length_payload {kind : Tag} {index : UInt16} {payload : List UInt8} {length : Nat}
    (h : pool.payload kind index = .ok payload) (hlength : kind.payloadLength = some length) :
    payload.length = length := by
  have htakes := hsized _ (mem_toList_of_get (payload_eq_ok_iff.1 h))
  unfold Constant.WellSized Tag.Takes at htakes
  rw [hlength] at htakes
  exact htakes

theorem blameless_link {kind : Tag} {length offset : Nat} (hlength : kind.payloadLength = some length)
    (hoffset : offset + 2 ≤ length) (index : UInt16) : Blameless (pool.link kind index offset) := by
  refine (blameless_payload kind index).bind fun payload hpayload => ?_
  have hdrop : (payload.drop offset).length = length - offset := by
    rw [List.length_drop, length_payload hsized hpayload hlength]
  split
  · exact blameless_ok _
  · rename_i hshort
    rcases hbytes : payload.drop offset with _ | ⟨a, _ | ⟨b, rest⟩⟩
    · rw [hbytes, List.length_nil] at hdrop; omega
    · rw [hbytes, List.length_singleton] at hdrop; omega
    · exact absurd hbytes (hshort a b rest)

theorem integer_eq_ok {index : UInt16} {payload : List UInt8} (h : pool.payload .integer index = .ok payload) :
    ∃ value, pool.integer index = .ok value := by
  have hlength := length_payload hsized h rfl
  unfold Pool.integer
  rw [h]
  match payload, hlength with
  | [a, b, c, d], _ => exact ⟨_, rfl⟩

theorem blameless_integer (index : UInt16) : Blameless (pool.integer index) := by
  rcases hpayload : pool.payload .integer index with error | payload
  · intro slot tag h
    unfold Pool.integer at h
    rw [hpayload] at h
    cases h
    exact blameless_payload .integer index slot tag hpayload
  · obtain ⟨value, hvalue⟩ := integer_eq_ok hsized hpayload
    rw [hvalue]
    exact blameless_ok value

theorem blameless_className (index : UInt16) : Blameless (pool.className index) :=
  (blameless_link hsized rfl (Nat.le_refl 2) index).bind fun slot _ => blameless_utf8 slot

theorem blameless_string (index : UInt16) : Blameless (pool.string index) :=
  (blameless_link hsized rfl (Nat.le_refl 2) index).bind fun slot _ => blameless_utf8 slot

theorem blameless_nameAndType (index : UInt16) : Blameless (pool.nameAndType index) := by
  refine (blameless_link hsized rfl (by decide) index).bind fun name _ => ?_
  refine (blameless_link hsized rfl (by decide) index).bind fun descriptor _ => ?_
  exact (blameless_utf8 name).bind fun _ _ => (blameless_utf8 descriptor).bind fun _ _ => blameless_ok _

theorem blameless_memberRef {kind : Tag} (hlength : kind.payloadLength = some 4) (index : UInt16) :
    Blameless (pool.memberRef kind index) := by
  refine (blameless_link hsized hlength (by decide) index).bind fun owner _ => ?_
  refine (blameless_link hsized hlength (by decide) index).bind fun member _ => ?_
  refine (blameless_className hsized owner).bind fun _ _ => ?_
  exact (blameless_nameAndType hsized member).bind fun _ _ => blameless_ok _

theorem blamelessAt (index : UInt16) : pool.BlamelessAt index where
  get := blameless_get index
  tag := (blameless_get index).bind fun _ _ => blameless_ok _
  utf8 := blameless_utf8 index
  integer := blameless_integer hsized index
  className := blameless_className hsized index
  string := blameless_string hsized index
  nameAndType := blameless_nameAndType hsized index
  fieldRef := blameless_memberRef hsized rfl index
  methodRef := blameless_memberRef hsized rfl index
  interfaceMethodRef := blameless_memberRef hsized rfl index

end

end Pool

/-! ## Classes -/

theorem ClassFile.goesBy_iff {classFile : ClassFile} {name descriptor : String} {member : Member} :
    classFile.goesBy name descriptor member = true ↔
      member.name classFile.pool = .ok name ∧ member.descriptor classFile.pool = .ok descriptor := by
  unfold goesBy
  rcases member.name classFile.pool with error | found
  · exact ⟨nofun, nofun⟩
  rcases member.descriptor classFile.pool with error | found'
  · exact ⟨nofun, nofun⟩
  · simp

/-- A name and a descriptor lead to the first method that has both. -/
theorem ClassFile.findMethod?_eq_some_iff {classFile : ClassFile} {name descriptor : String} {found : Member} :
    classFile.findMethod? name descriptor = some found ↔
      (found.name classFile.pool = .ok name ∧ found.descriptor classFile.pool = .ok descriptor) ∧
        ∃ earlier later, classFile.methods = earlier ++ found :: later ∧ ∀ other ∈ earlier,
          ¬ (other.name classFile.pool = .ok name ∧ other.descriptor classFile.pool = .ok descriptor) := by
  unfold findMethod?
  simp only [List.find?_eq_some_iff_append, goesBy_iff, Bool.not_eq_true', Bool.eq_false_iff, ne_eq]

/-- What can be looked up in a class without fail. -/
structure ClassFile.Resolved (classFile : ClassFile) : Prop where
  name : ∃ name, classFile.name = .ok name
  superName : ∃ name, classFile.superName = .ok name
  members : ∀ member ∈ classFile.fields ++ classFile.methods,
    (∃ name, member.name classFile.pool = .ok name) ∧
      (∃ descriptor, member.descriptor classFile.pool = .ok descriptor) ∧
      ∀ attr ∈ member.attributes, ∃ name, attr.name classFile.pool = .ok name
  attributes : ∀ attr ∈ classFile.attributes, ∃ name, attr.name classFile.pool = .ok name
  /-- Only texts are of any length. -/
  payloads : ∀ constant ∈ classFile.pool.toList, constant.tag ≠ .utf8 →
    constant.tag.payloadLength = some constant.payload.length
  accessors : ∀ index, classFile.pool.BlamelessAt index
  integers : ∀ index constant, classFile.pool.get index = .ok constant → constant.tag = .integer →
    ∃ value, classFile.pool.integer index = .ok value
  /-- A method's own name and descriptor lead to the first method that has both. -/
  methods : ∀ method ∈ classFile.methods, ∃ name descriptor found,
    method.name classFile.pool = .ok name ∧ method.descriptor classFile.pool = .ok descriptor ∧
    classFile.findMethod? name descriptor = some found ∧
    (found.name classFile.pool = .ok name ∧ found.descriptor classFile.pool = .ok descriptor) ∧
    ∃ earlier later, classFile.methods = earlier ++ found :: later ∧ ∀ other ∈ earlier,
      ¬ (other.name classFile.pool = .ok name ∧ other.descriptor classFile.pool = .ok descriptor)

theorem Constant.WellSized.payloadLength {constant : Constant} (h : constant.WellSized) (htag : constant.tag ≠ .utf8) :
    constant.tag.payloadLength = some constant.payload.length := by
  obtain ⟨tag, payload⟩ := constant
  unfold Constant.WellSized Tag.Takes at h
  rcases hlength : tag.payloadLength with _ | length
  · cases tag <;> first | exact absurd rfl htag | cases hlength
  · dsimp only at h
    rw [hlength] at h
    exact congrArg some h.symm

namespace ClassFile

variable {classFile : ClassFile}

theorem Linked.superName (h : classFile.Linked) : ∃ name, classFile.superName = .ok name := by
  unfold ClassFile.superName
  by_cases hzero : classFile.superClass = 0
  · exact ⟨none, by rw [if_pos hzero]; rfl⟩
  · obtain ⟨name, hname⟩ := h.superClass.resolve_left hzero
    exact ⟨some name, by rw [if_neg hzero, hname]; rfl⟩

/-- Every method is found, or one before it that goes by the same names. -/
theorem Linked.findMethod? (h : classFile.Linked) {method : Member} (hmethod : method ∈ classFile.methods) :
    ∃ name descriptor found, method.name classFile.pool = .ok name ∧
      method.descriptor classFile.pool = .ok descriptor ∧ classFile.findMethod? name descriptor = some found := by
  obtain ⟨name, hname⟩ := (h.methods method hmethod).name
  obtain ⟨descriptor, hdescriptor⟩ := (h.methods method hmethod).descriptor
  have hsome : (classFile.findMethod? name descriptor).isSome := by
    unfold ClassFile.findMethod?
    rw [List.find?_isSome]
    exact ⟨method, hmethod, goesBy_iff.2 ⟨hname, hdescriptor⟩⟩
  obtain ⟨found, hfound⟩ := Option.isSome_iff_exists.1 hsome
  exact ⟨name, descriptor, found, hname, hdescriptor, hfound⟩

theorem Linked.resolved (h : classFile.Linked) (hsized : ∀ constant ∈ classFile.pool.toList, constant.WellSized) :
    classFile.Resolved where
  name := h.thisClass
  superName := h.superName
  members := List.forall_mem_append.2 ⟨
    fun field hfield => ⟨(h.fields field hfield).name, (h.fields field hfield).descriptor,
      (h.fields field hfield).attributeNames⟩,
    fun method hmethod => ⟨(h.methods method hmethod).name, (h.methods method hmethod).descriptor,
      (h.methods method hmethod).attributeNames⟩⟩
  attributes := h.attributeNames
  payloads constant hconstant := (hsized constant hconstant).payloadLength
  accessors := Pool.blamelessAt hsized
  integers index constant hget htag := by
    obtain ⟨tag, payload⟩ := constant
    cases htag
    exact Pool.integer_eq_ok hsized (Pool.payload_eq_ok_iff.2 hget)
  methods method hmethod := by
    obtain ⟨name, descriptor, found, hname, hdescriptor, hfound⟩ := h.findMethod? hmethod
    exact ⟨name, descriptor, found, hname, hdescriptor, hfound, findMethod?_eq_some_iff.1 hfound⟩

theorem linked_of_parse {bytes : List UInt8} (h : parse bytes = .ok classFile) : classFile.Linked := by
  obtain ⟨rest, hrest⟩ := parse_eq_ok_iff.1 h
  obtain ⟨count, -, hlinked, -⟩ := parseWithRest_eq_ok_iff.1 hrest
  exact hlinked

end ClassFile

end ClassMachine
