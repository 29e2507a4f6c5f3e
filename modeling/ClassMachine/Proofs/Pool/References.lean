/-
Where a reference to a member leads. Six constants make up a reference: the reference itself, the class, the name of
the class, the pair of name and descriptor, and these two. `Lists` and `TextAt` say what each must be, whatever is in
the pool otherwise, and `ListsNot` and `NoTextAt` how it may fail to be so. The member is found exactly if all six are
sound (`LeadsTo`); if not, the first unsound one is blamed, by its own index (`BreaksAt`).
-/
import ClassMachine.Proofs.ClassFile.Resolution
import ClassMachine.Proofs.Pool.Layout
import Mathlib.Data.List.Basic

namespace ClassMachine.Pool

variable {pool : Pool}

/-! ## A single constant -/

/-- The constant stands in the slot. -/
def Holds (pool : Pool) (index : UInt16) (constant : Constant) : Prop :=
  pool.slots[index.toNat]? = some (some constant)

/-- The constant in the slot is of this kind, and its payload starts with these indices. -/
def Lists (pool : Pool) (index : UInt16) (kind : Tag) (indices : List UInt16) : Prop :=
  ∃ rest, pool.Holds index ⟨kind, indices.flatMap Binary.bytes16 ++ rest⟩

/-- The constant in the slot is a text. -/
def TextAt (pool : Pool) (index : UInt16) (text : String) : Prop :=
  ∃ payload, pool.Holds index ⟨.utf8, payload⟩ ∧ Text.ModifiedUtf8.decode? payload = some text

/-- No constant of this kind stands in the slot. -/
inductive Lacks (pool : Pool) (index : UInt16) (kind : Tag) : ResolveError → Prop where
  | outOfRange (hcount : pool.count ≤ index.toNat) : Lacks pool index kind (.outOfRange index pool.count)
  | emptySlot (hslot : pool.slots[index.toNat]? = some none) : Lacks pool index kind (.emptySlot index)
  | wrongTag {constant : Constant} (hholds : pool.Holds index constant) (htag : constant.tag ≠ kind) :
      Lacks pool index kind (.wrongTag index kind constant.tag)

/-- The slot holds no constant of this kind, or one that is too short for so many indices. -/
inductive ListsNot (pool : Pool) (index : UInt16) (kind : Tag) (count : Nat) : ResolveError → Prop where
  | lacks {error : ResolveError} (hlacks : pool.Lacks index kind error) : ListsNot pool index kind count error
  | short {payload : List UInt8} (hholds : pool.Holds index ⟨kind, payload⟩) (hlength : payload.length < 2 * count) :
      ListsNot pool index kind count (.badPayload index kind)

/-- The slot holds no text, or one whose payload spells none. -/
inductive NoTextAt (pool : Pool) (index : UInt16) : ResolveError → Prop where
  | lacks {error : ResolveError} (hlacks : pool.Lacks index .utf8 error) : NoTextAt pool index error
  | unreadable {payload : List UInt8} (hholds : pool.Holds index ⟨.utf8, payload⟩)
      (htext : Text.ModifiedUtf8.decode? payload = none) : NoTextAt pool index (.badText index)

/-- Two bytes for each of so many indices start any payload that is long enough. -/
theorem exists_indices : ∀ (count : Nat) (payload : List UInt8), 2 * count ≤ payload.length →
    ∃ (indices : List UInt16) (rest : List UInt8), indices.length = count ∧
      payload = indices.flatMap Binary.bytes16 ++ rest
  | 0, payload, _ => ⟨[], payload, rfl, rfl⟩
  | count + 1, a :: b :: payload, h => by
    obtain ⟨indices, rest, rfl, rfl⟩ := exists_indices count payload (by
      rw [List.length_cons, List.length_cons] at h
      omega)
    refine ⟨Binary.join16 a b :: indices, rest, rfl, ?_⟩
    rw [List.flatMap_cons, Binary.bytes16_join16]
    rfl
  | count + 1, [a], h => by rw [List.length_singleton] at h; omega
  | count + 1, [], h => by rw [List.length_nil] at h; omega

theorem holds_or_lacks (pool : Pool) (index : UInt16) (kind : Tag) :
    (∃ payload, pool.Holds index ⟨kind, payload⟩) ∨ ∃ error, pool.Lacks index kind error := by
  rcases hslot : pool.slots[index.toNat]? with _ | _ | ⟨found, payload⟩
  · exact .inr ⟨_, .outOfRange (Array.getElem?_eq_none_iff.1 hslot)⟩
  · exact .inr ⟨_, .emptySlot hslot⟩
  · by_cases htag : found = kind
    · subst htag
      exact .inl ⟨payload, hslot⟩
    · exact .inr ⟨_, .wrongTag hslot htag⟩

theorem lists_or_listsNot (pool : Pool) (index : UInt16) (kind : Tag) (count : Nat) :
    (∃ indices, indices.length = count ∧ pool.Lists index kind indices) ∨
      ∃ error, pool.ListsNot index kind count error := by
  rcases pool.holds_or_lacks index kind with ⟨payload, hholds⟩ | ⟨error, hlacks⟩
  · by_cases hlength : 2 * count ≤ payload.length
    · obtain ⟨indices, rest, hcount, rfl⟩ := exists_indices count payload hlength
      exact .inl ⟨indices, hcount, rest, hholds⟩
    · exact .inr ⟨_, .short hholds (Nat.lt_of_not_le hlength)⟩
  · exact .inr ⟨error, .lacks hlacks⟩

theorem textAt_or_noTextAt (pool : Pool) (index : UInt16) :
    (∃ text, pool.TextAt index text) ∨ ∃ error, pool.NoTextAt index error := by
  rcases pool.holds_or_lacks index .utf8 with ⟨payload, hholds⟩ | ⟨error, hlacks⟩
  · rcases htext : Text.ModifiedUtf8.decode? payload with _ | text
    · exact .inr ⟨_, .unreadable hholds htext⟩
    · exact .inl ⟨text, payload, hholds, htext⟩
  · exact .inr ⟨error, .lacks hlacks⟩

/-! ## Reading a constant -/

section

variable {index : UInt16} {kind : Tag} {error : ResolveError}

theorem Holds.payload {payload : List UInt8} (h : pool.Holds index ⟨kind, payload⟩) :
    pool.payload kind index = .ok payload :=
  payload_eq_ok_iff.2 (get_eq_ok_iff.2 h)

theorem Lacks.payload (h : pool.Lacks index kind error) : pool.payload kind index = .error error := by
  unfold Pool.payload
  cases h with
  | outOfRange hcount => rw [get_eq_outOfRange_iff.2 hcount]; rfl
  | emptySlot hslot => rw [get_eq_emptySlot_iff.2 hslot]; rfl
  | wrongTag hholds htag =>
    rw [get_eq_ok_iff.2 hholds]
    exact if_neg htag

theorem Lists.first {first : UInt16} {others : List UInt16} (h : pool.Lists index kind (first :: others)) :
    pool.link kind index 0 = .ok first := by
  obtain ⟨rest, hholds⟩ := h
  unfold link
  rw [hholds.payload]
  exact congrArg Except.ok (Binary.join16_bytes16 first)

theorem Lists.second {first second : UInt16} {others : List UInt16}
    (h : pool.Lists index kind (first :: second :: others)) : pool.link kind index 2 = .ok second := by
  obtain ⟨rest, hholds⟩ := h
  unfold link
  rw [hholds.payload]
  exact congrArg Except.ok (Binary.join16_bytes16 second)

theorem Lacks.link (h : pool.Lacks index kind error) (offset : Nat) : pool.link kind index offset = .error error := by
  unfold Pool.link
  rw [h.payload]
  rfl

/-- An index that ends beyond the payload cannot be read. -/
theorem Holds.link {payload : List UInt8} {offset : Nat} (h : pool.Holds index ⟨kind, payload⟩)
    (hlength : payload.length < offset + 2) : pool.link kind index offset = .error (.badPayload index kind) := by
  have hdrop : (payload.drop offset).length < 2 := by
    rw [List.length_drop]
    omega
  unfold Pool.link
  rw [h.payload]
  simp only [bind, Except.bind]
  match payload.drop offset, hdrop with
  | [], _ => rfl
  | [a], _ => rfl

theorem ListsNot.first (h : pool.ListsNot index kind 1 error) : pool.link kind index 0 = .error error := by
  cases h with
  | lacks hlacks => exact hlacks.link 0
  | short hholds hlength => exact hholds.link hlength

/-- A constant too short for two indices is blamed at the first or at the second of them. -/
theorem ListsNot.both {α : Type} (h : pool.ListsNot index kind 2 error)
    (next : UInt16 → UInt16 → Except ResolveError α) :
    (do next (← pool.link kind index 0) (← pool.link kind index 2)) = .error error := by
  cases h with
  | lacks hlacks => rw [hlacks.link 0]; rfl
  | @short payload hholds hlength =>
    rw [hholds.link hlength]
    by_cases hone : 2 ≤ payload.length
    · obtain ⟨indices, rest, hcount, rfl⟩ := exists_indices 1 payload hone
      obtain ⟨first, rfl⟩ := List.length_eq_one_iff.1 hcount
      rw [Lists.first ⟨rest, hholds⟩]
      rfl
    · rw [hholds.link (Nat.lt_of_not_le hone)]
      rfl

theorem TextAt.utf8 {text : String} (h : pool.TextAt index text) : pool.utf8 index = .ok text := by
  obtain ⟨payload, hholds, htext⟩ := h
  unfold Pool.utf8
  rw [hholds.payload]
  simp only [bind, Except.bind, htext]
  rfl

theorem NoTextAt.utf8 (h : pool.NoTextAt index error) : pool.utf8 index = .error error := by
  unfold Pool.utf8
  cases h with
  | lacks hlacks => rw [hlacks.payload]; rfl
  | unreadable hholds htext =>
    rw [hholds.payload]
    simp only [bind, Except.bind, htext]
    rfl

end

/-! ## The chain of constants -/

/-- All six constants of the reference are sound, and they name this member. -/
def LeadsTo (pool : Pool) (kind : Tag) (index : UInt16) (ref : MemberRef) : Prop :=
  ∃ owner member ownerName name descriptor,
    pool.Lists index kind [owner, member] ∧ pool.Lists owner .classRef [ownerName] ∧
      pool.Lists member .nameAndType [name, descriptor] ∧ pool.TextAt ownerName ref.className ∧
      pool.TextAt name ref.name ∧ pool.TextAt descriptor ref.descriptor

/-- One of the six constants of the reference is not sound, for the reason that the error states. Those that are
looked at before it are sound. -/
inductive BreaksAt (pool : Pool) (kind : Tag) (index : UInt16) : ResolveError → Prop where
  | reference {error : ResolveError} (hnot : pool.ListsNot index kind 2 error) : BreaksAt pool kind index error
  | owner {owner member : UInt16} {error : ResolveError} (href : pool.Lists index kind [owner, member])
      (hnot : pool.ListsNot owner .classRef 1 error) : BreaksAt pool kind index error
  | ownerName {owner member ownerName : UInt16} {error : ResolveError} (href : pool.Lists index kind [owner, member])
      (howner : pool.Lists owner .classRef [ownerName]) (hnot : pool.NoTextAt ownerName error) :
      BreaksAt pool kind index error
  | member {owner member ownerName : UInt16} {className : String} {error : ResolveError}
      (href : pool.Lists index kind [owner, member]) (howner : pool.Lists owner .classRef [ownerName])
      (hclass : pool.TextAt ownerName className) (hnot : pool.ListsNot member .nameAndType 2 error) :
      BreaksAt pool kind index error
  | name {owner member ownerName name descriptor : UInt16} {className : String} {error : ResolveError}
      (href : pool.Lists index kind [owner, member]) (howner : pool.Lists owner .classRef [ownerName])
      (hclass : pool.TextAt ownerName className) (hmember : pool.Lists member .nameAndType [name, descriptor])
      (hnot : pool.NoTextAt name error) : BreaksAt pool kind index error
  | descriptor {owner member ownerName name descriptor : UInt16} {className memberName : String}
      {error : ResolveError} (href : pool.Lists index kind [owner, member])
      (howner : pool.Lists owner .classRef [ownerName]) (hclass : pool.TextAt ownerName className)
      (hmember : pool.Lists member .nameAndType [name, descriptor]) (hname : pool.TextAt name memberName)
      (hnot : pool.NoTextAt descriptor error) : BreaksAt pool kind index error

section

variable {kind : Tag} {index : UInt16}

/-- The constants are sound up to the last, or one of them is not. -/
theorem leadsTo_or_breaksAt (pool : Pool) (kind : Tag) (index : UInt16) :
    (∃ ref, pool.LeadsTo kind index ref) ∨ ∃ error, pool.BreaksAt kind index error := by
  rcases pool.lists_or_listsNot index kind 2 with ⟨_, htwo, href⟩ | ⟨error, hnot⟩
  case inr => exact .inr ⟨error, .reference hnot⟩
  obtain ⟨owner, member, rfl⟩ := List.length_eq_two.1 htwo
  rcases pool.lists_or_listsNot owner .classRef 1 with ⟨_, hone, howner⟩ | ⟨error, hnot⟩
  case inr => exact .inr ⟨error, .owner href hnot⟩
  obtain ⟨ownerName, rfl⟩ := List.length_eq_one_iff.1 hone
  rcases pool.textAt_or_noTextAt ownerName with ⟨className, hclass⟩ | ⟨error, hnot⟩
  case inr => exact .inr ⟨error, .ownerName href howner hnot⟩
  rcases pool.lists_or_listsNot member .nameAndType 2 with ⟨_, htwo', hmember⟩ | ⟨error, hnot⟩
  case inr => exact .inr ⟨error, .member href howner hclass hnot⟩
  obtain ⟨name, descriptor, rfl⟩ := List.length_eq_two.1 htwo'
  rcases pool.textAt_or_noTextAt name with ⟨memberName, hname⟩ | ⟨error, hnot⟩
  case inr => exact .inr ⟨error, .name href howner hclass hmember hnot⟩
  rcases pool.textAt_or_noTextAt descriptor with ⟨memberType, htype⟩ | ⟨error, hnot⟩
  case inr => exact .inr ⟨error, .descriptor href howner hclass hmember hname hnot⟩
  exact .inl ⟨⟨className, memberName, memberType⟩, owner, member, ownerName, name, descriptor, href, howner, hmember,
    hclass, hname, htype⟩

theorem Lists.memberRef {owner member : UInt16} (h : pool.Lists index kind [owner, member]) :
    pool.memberRef kind index = (do
      let className ← pool.className owner
      let (name, descriptor) ← pool.nameAndType member
      return { className, name, descriptor }) := by
  unfold Pool.memberRef
  rw [h.first, h.second]
  rfl

theorem Lists.className {owner ownerName : UInt16} (h : pool.Lists owner .classRef [ownerName]) :
    pool.className owner = pool.utf8 ownerName := by
  unfold Pool.className
  rw [h.first]
  rfl

theorem Lists.nameAndType {member name descriptor : UInt16} (h : pool.Lists member .nameAndType [name, descriptor]) :
    pool.nameAndType member = (do return (← pool.utf8 name, ← pool.utf8 descriptor)) := by
  unfold Pool.nameAndType
  rw [h.first, h.second]
  rfl

theorem LeadsTo.memberRef {ref : MemberRef} (h : pool.LeadsTo kind index ref) :
    pool.memberRef kind index = .ok ref := by
  obtain ⟨owner, member, ownerName, name, descriptor, href, howner, hmember, hclass, hname, htype⟩ := h
  rw [href.memberRef, howner.className, hclass.utf8, hmember.nameAndType, hname.utf8, htype.utf8]
  rfl

theorem BreaksAt.memberRef {error : ResolveError} (h : pool.BreaksAt kind index error) :
    pool.memberRef kind index = .error error := by
  cases h with
  | reference hnot => exact hnot.both _
  | owner href hnot =>
    rw [href.memberRef, Pool.className, hnot.first]
    rfl
  | ownerName href howner hnot =>
    rw [href.memberRef, howner.className, hnot.utf8]
    rfl
  | member href howner hclass hnot =>
    rw [href.memberRef, howner.className, hclass.utf8, Pool.nameAndType, hnot.both]
    rfl
  | name href howner hclass hmember hnot =>
    rw [href.memberRef, howner.className, hclass.utf8, hmember.nameAndType, hnot.utf8]
    rfl
  | descriptor href howner hclass hmember hname hnot =>
    rw [href.memberRef, howner.className, hclass.utf8, hmember.nameAndType, hname.utf8, hnot.utf8]
    rfl

end

/-- The result is the member that the reference leads to, or the reason for which it leads to none. -/
structure Follows (pool : Pool) (kind : Tag) (index : UInt16) (result : Except ResolveError MemberRef) : Prop where
  ok_iff : ∀ ref, result = .ok ref ↔ pool.LeadsTo kind index ref
  error_iff : ∀ error, result = .error error ↔ pool.BreaksAt kind index error

theorem follows_memberRef (pool : Pool) (kind : Tag) (index : UInt16) :
    pool.Follows kind index (pool.memberRef kind index) where
  ok_iff ref := by
    refine ⟨fun h => ?_, LeadsTo.memberRef⟩
    rcases pool.leadsTo_or_breaksAt kind index with ⟨found, hleads⟩ | ⟨error, hbreaks⟩
    · rw [hleads.memberRef] at h
      cases h
      exact hleads
    · rw [hbreaks.memberRef] at h
      cases h
  error_iff error := by
    refine ⟨fun h => ?_, BreaksAt.memberRef⟩
    rcases pool.leadsTo_or_breaksAt kind index with ⟨found, hleads⟩ | ⟨cause, hbreaks⟩
    · rw [hleads.memberRef] at h
      cases h
    · rw [hbreaks.memberRef] at h
      cases h
      exact hbreaks

/-- A constant is a reference of one kind at most. -/
theorem isOk_memberRef_of_ne {kind kind' : Tag} {index : UInt16} (hne : kind ≠ kind')
    (h : (pool.memberRef kind index).isOk = true) : (pool.memberRef kind' index).isOk = false := by
  rcases hfirst : pool.memberRef kind index with _ | ref
  · rw [hfirst] at h
    cases h
  rcases hsecond : pool.memberRef kind' index with _ | ref'
  · rfl
  obtain ⟨_, _, _, _, _, ⟨rest, hholds⟩, -⟩ := ((pool.follows_memberRef kind index).ok_iff ref).1 hfirst
  obtain ⟨_, _, _, _, _, ⟨rest', hholds'⟩, -⟩ := ((pool.follows_memberRef kind' index).ok_iff ref').1 hsecond
  unfold Holds at hholds hholds'
  rw [hholds, Option.some_inj, Option.some_inj, Constant.mk.injEq] at hholds'
  exact absurd hholds'.1 hne

/-- A reference to a field, a method or an interface method leads to a member exactly if all constants on the way
are sound, and is refused for the first that is not; at no index more than one of the three kinds leads anywhere. -/
theorem references_followed (pool : Pool) (index : UInt16) :
    pool.Follows .fieldRef index (pool.fieldRef index) ∧
      pool.Follows .methodRef index (pool.methodRef index) ∧
      pool.Follows .interfaceMethodRef index (pool.interfaceMethodRef index) ∧
      [pool.fieldRef index, pool.methodRef index, pool.interfaceMethodRef index].countP (·.isOk) ≤ 1 := by
  refine ⟨pool.follows_memberRef _ index, pool.follows_memberRef _ index, pool.follows_memberRef _ index, ?_⟩
  unfold fieldRef methodRef interfaceMethodRef
  simp only [List.countP_cons, List.countP_nil]
  by_cases hfield : (pool.memberRef .fieldRef index).isOk = true
  · have hmethod : (pool.memberRef .methodRef index).isOk = false := isOk_memberRef_of_ne (by decide) hfield
    have hinterface : (pool.memberRef .interfaceMethodRef index).isOk = false :=
      isOk_memberRef_of_ne (by decide) hfield
    rw [hfield, hmethod, hinterface]
    decide
  · rw [if_neg hfield]
    by_cases hmethod : (pool.memberRef .methodRef index).isOk = true
    · have hinterface : (pool.memberRef .interfaceMethodRef index).isOk = false :=
        isOk_memberRef_of_ne (by decide) hmethod
      rw [hmethod, hinterface]
      decide
    · rw [if_neg hmethod]
      split <;> decide

/-- A reference to the field `P.v` of type `I`, taken as a method or with its descriptor out of range, is refused at
that constant. -/
theorem references_followed_field :
    let front : List Constant := [⟨.classRef, [0, 2]⟩, ⟨.utf8, [0x50]⟩, ⟨.fieldRef, [0, 1, 0, 4, 9]⟩]
    let pool := ofList (front ++ [⟨.nameAndType, [0, 5, 0, 6]⟩, ⟨.utf8, [0x76]⟩, ⟨.utf8, [0x49]⟩])
    let broken := ofList (front ++ [⟨.nameAndType, [0, 5, 0, 6]⟩, ⟨.utf8, [0x76]⟩])
    pool.LeadsTo .fieldRef 3 ⟨"P", "v", "I"⟩ ∧ pool.BreaksAt .methodRef 3 (.wrongTag 3 .methodRef .fieldRef) ∧
      broken.BreaksAt .fieldRef 3 (.outOfRange 6 6) := by
  intro front pool broken
  obtain ⟨hfield, hmethod, -, -⟩ := references_followed pool 3
  exact ⟨(hfield.ok_iff _).1 (by decide), (hmethod.error_iff _).1 (by decide),
    ((references_followed broken 3).1.error_iff _).1 (by decide)⟩

end ClassMachine.Pool
