/-
Reading and writing instructions. An instruction is read at a place of the code exactly if its spelling stands there
(`decode_eq_ok_iff`), and it has a spelling exactly if its operand goes with its opcode (`isSome_encode?`). So reading
undoes writing, one instruction at a time and, step by step from the front, for whole code arrays
(`disassemble_of_encodeAll?`). Where nothing can be read, the byte belongs to no instruction, or there is no byte, or
the operand ends behind the code.
-/
import ClassMachine.Instruction.Basic

namespace ClassMachine

/-! ## Bytes in the code -/

/-- The bytes stand in the code from this place on. -/
def StandAt (bytes : List UInt8) (code : Array UInt8) (pc : Nat) : Prop :=
  bytes <+: code.toList.drop pc

@[simp] theorem standAt_nil (code : Array UInt8) (pc : Nat) : StandAt [] code pc :=
  List.nil_prefix

@[simp] theorem standAt_cons_iff {byte : UInt8} {bytes : List UInt8} {code : Array UInt8} {pc : Nat} :
    StandAt (byte :: bytes) code pc ↔ code[pc]? = some byte ∧ StandAt bytes code (pc + 1) := by
  unfold StandAt
  by_cases hpc : pc < code.size
  · have hdrop : code.toList.drop pc = code[pc] :: code.toList.drop (pc + 1) := List.drop_eq_getElem_cons hpc
    rw [hdrop, List.cons_prefix_cons, Array.getElem?_eq_getElem hpc, Option.some.injEq]
    exact and_congr_left' eq_comm
  · have hdrop : code.toList.drop pc = [] := List.drop_eq_nil_of_le (by simpa using hpc)
    have hnone : code[pc]? = none := Array.getElem?_eq_none (Nat.le_of_not_lt hpc)
    simp [hdrop, hnone]

theorem standAt_append_iff {bytes more : List UInt8} {code : Array UInt8} {pc : Nat} :
    StandAt (bytes ++ more) code pc ↔ StandAt bytes code pc ∧ StandAt more code (pc + bytes.length) := by
  induction bytes generalizing pc with
  | nil => simp
  | cons byte bytes ih =>
    have hplace : pc + 1 + bytes.length = pc + (bytes.length + 1) := by omega
    simp [ih, and_assoc, hplace]

/-- Bytes that stand in the code are the piece of it from there on. -/
theorem StandAt.eq_extract {bytes : List UInt8} {code : Array UInt8} {pc : Nat} (h : StandAt bytes code pc) :
    bytes = (code.extract pc (pc + bytes.length)).toList := by
  have htake := List.prefix_iff_eq_take.1 h
  simpa [List.extract_eq_take_drop] using htake

/-! ## Opcodes -/

namespace Opcode

theorem byte_of_ofByte? {byte : UInt8} {opcode : Opcode} (h : ofByte? byte = some opcode) : opcode.byte = byte := by
  unfold ofByte? at h
  split at h <;> cases h <;> rfl

theorem mem_all (opcode : Opcode) : opcode ∈ all := by
  cases opcode <;> decide

/-- A byte that is read as no instruction is not among the bytes of the table. -/
theorem ofByte?_eq_none_iff {byte : UInt8} : ofByte? byte = none ↔ byte ∉ all.map Opcode.byte := by
  constructor
  · intro h hmem
    obtain ⟨opcode, -, rfl⟩ := List.mem_map.1 hmem
    rw [ofByte?_byte] at h
    cases h
  · intro h
    rcases hfound : ofByte? byte with _ | opcode
    · rfl
    · exact absurd (List.mem_map.2 ⟨opcode, opcode.mem_all, byte_of_ofByte? hfound⟩) h

end Opcode

/-! ## Operands -/

theorem toInt32_toInt8_eq_iff {value : Int32} :
    value.toInt8.toInt32 = value ↔ -128 ≤ value.toInt ∧ value.toInt ≤ 127 := by
  have hlower := value.le_toInt
  have hupper := value.toInt_lt
  rw [← Int32.toInt_inj, Int8.toInt_toInt32, Int32.toInt_toInt8, Int.bmod_def]
  omega

theorem toUInt16_toUInt8_eq_iff {slot : UInt16} : slot.toUInt8.toUInt16 = slot ↔ slot.toNat ≤ 255 := by
  rw [← UInt16.toNat_inj, UInt8.toNat_toUInt16, UInt16.toNat_toUInt8]
  omega

namespace OperandForm

theorem length_of_write? {form : OperandForm} {operand : Operand} {bytes : List UInt8}
    (h : form.write? operand = some bytes) : bytes.length = form.width := by
  unfold write? at h
  split at h
  case h_2 => split at h <;> cases h; rfl
  case h_3 => split at h <;> cases h; rfl
  case h_6 => cases h
  all_goals cases h; rfl

/-- An operand is read exactly where its spelling stands. -/
theorem read?_eq_some_iff {form : OperandForm} {code : Array UInt8} {start : Nat} {operand : Operand} :
    form.read? code start = some operand ↔ ∃ bytes, form.write? operand = some bytes ∧ StandAt bytes code start := by
  constructor
  · intro h
    cases form with
    | absent =>
      cases h
      exact ⟨[], rfl, standAt_nil code start⟩
    | immediate =>
      obtain ⟨byte, hbyte, rfl⟩ : ∃ byte, code[start]? = some byte ∧ .immediate byte.toInt8.toInt32 = operand := by
        simpa [read?, Option.bind_eq_some_iff] using h
      exact ⟨[byte], by simp [write?], by simp [hbyte]⟩
    | shortIndex =>
      obtain ⟨byte, hbyte, rfl⟩ : ∃ byte, code[start]? = some byte ∧ .index byte.toUInt16 = operand := by
        simpa [read?, Option.bind_eq_some_iff] using h
      exact ⟨[byte], by simp [write?], by simp [hbyte]⟩
    | index =>
      obtain ⟨high, hhigh, low, hlow, rfl⟩ : ∃ high, code[start]? = some high ∧ ∃ low, code[start + 1]? = some low ∧
          .index (Binary.join16 high low) = operand := by
        simpa [read?, Option.bind_eq_some_iff] using h
      exact ⟨[high, low], by simp [write?, Binary.bytes16_join16], by simp [hhigh, hlow]⟩
    | offset =>
      obtain ⟨high, hhigh, low, hlow, rfl⟩ : ∃ high, code[start]? = some high ∧ ∃ low, code[start + 1]? = some low ∧
          .offset (Binary.join16 high low).toInt16 = operand := by
        simpa [read?, Option.bind_eq_some_iff] using h
      exact ⟨[high, low], by simp [write?, Binary.bytes16_join16], by simp [hhigh, hlow]⟩
  · rintro ⟨bytes, hbytes, hstand⟩
    unfold write? at hbytes
    split at hbytes
    · rfl
    · split at hbytes
      · rename_i hfits
        cases hbytes
        simp only [standAt_cons_iff, standAt_nil, and_true] at hstand
        simp [read?, hstand, hfits]
      · cases hbytes
    · split at hbytes
      · rename_i hfits
        cases hbytes
        simp only [standAt_cons_iff, standAt_nil, and_true] at hstand
        simp [read?, hstand, hfits]
      · cases hbytes
    · cases hbytes
      simp only [Binary.bytes16, standAt_cons_iff, standAt_nil, and_true] at hstand
      simp [read?, hstand, Binary.join16_bytes16]
    · cases hbytes
      simp only [Binary.bytes16, standAt_cons_iff, standAt_nil, and_true] at hstand
      simp [read?, hstand, Binary.join16_bytes16]
    · cases hbytes

/-- There is no operand to read exactly where the code ends before it does. -/
theorem read?_eq_none_iff {form : OperandForm} {code : Array UInt8} {start : Nat} (hstart : start ≤ code.size) :
    form.read? code start = none ↔ code.size < start + form.width := by
  cases form with
  | absent => simpa [read?, width] using hstart
  | immediate | shortIndex =>
    by_cases hend : start < code.size
    · have hfits : ¬ code.size < start + 1 := by omega
      simp [read?, width, hend, hfits]
    · have hcut : code.size < start + 1 := by omega
      simp [read?, width, hend, hcut]
  | index | offset =>
    by_cases hend : start + 1 < code.size
    · have hfirst : start < code.size := by omega
      have hfits : ¬ code.size < start + 2 := by omega
      simp [read?, width, hend, hfirst, hfits]
    · have hcut : code.size < start + 2 := by omega
      simp [read?, width, hend, hcut]

end OperandForm

namespace Instruction

/-! ## Instructions and their spellings -/

/-- The operand is one that goes with the opcode: a number that fits into a signed byte, an index that fits into the
bytes it has, any distance, and otherwise none. -/
def fits : Instruction → Bool
  | ⟨.bipush, .immediate value⟩ => -128 ≤ value.toInt ∧ value.toInt ≤ 127
  | ⟨.ldc, .index slot⟩ => slot.toNat ≤ 255
  | ⟨.getstatic, .index _⟩ | ⟨.invokestatic, .index _⟩ => true
  | ⟨.goto, .offset _⟩ | ⟨.ifIcmpne, .offset _⟩ => true
  | ⟨.iconst1, .absent⟩ | ⟨.iload0, .absent⟩ | ⟨.pop, .absent⟩ | ⟨.isub, .absent⟩ | ⟨.imul, .absent⟩
  | ⟨.ireturn, .absent⟩ | ⟨.voidReturn, .absent⟩ => true
  | _ => false

/-- The instructions that can be written are those whose operand goes with the opcode. -/
theorem isSome_encode? (instruction : Instruction) : instruction.encode?.isSome = instruction.fits := by
  obtain ⟨opcode, operand⟩ := instruction
  cases opcode with
  | bipush =>
    cases operand with
    | immediate value =>
      have hfits := @toInt32_toInt8_eq_iff value
      show (Option.map _ (if value.toInt8.toInt32 = value then some [value.toInt8.toUInt8] else none)).isSome =
        decide (-128 ≤ value.toInt ∧ value.toInt ≤ 127)
      by_cases hvalue : value.toInt8.toInt32 = value
      · rw [if_pos hvalue, decide_eq_true (hfits.1 hvalue)]
        rfl
      · rw [if_neg hvalue, decide_eq_false (mt hfits.2 hvalue)]
        rfl
    | _ => rfl
  | ldc =>
    cases operand with
    | index slot =>
      have hfits := @toUInt16_toUInt8_eq_iff slot
      show (Option.map _ (if slot.toUInt8.toUInt16 = slot then some [slot.toUInt8] else none)).isSome =
        decide (slot.toNat ≤ 255)
      by_cases hslot : slot.toUInt8.toUInt16 = slot
      · rw [if_pos hslot, decide_eq_true (hfits.1 hslot)]
        rfl
      · rw [if_neg hslot, decide_eq_false (mt hfits.2 hslot)]
        rfl
    | _ => rfl
  | _ => cases operand <;> rfl

theorem encode?_eq_some_iff {instruction : Instruction} {bytes : List UInt8} :
    instruction.encode? = some bytes ↔ ∃ operand, instruction.opcode.form.write? instruction.operand = some operand ∧
      instruction.opcode.byte :: operand = bytes :=
  Option.map_eq_some_iff

theorem length_of_encode? {instruction : Instruction} {bytes : List UInt8} (h : instruction.encode? = some bytes) :
    bytes.length = instruction.length := by
  obtain ⟨operand, hoperand, rfl⟩ := encode?_eq_some_iff.1 h
  rw [List.length_cons, OperandForm.length_of_write? hoperand, Nat.add_comm]
  rfl

/-- What there is to read at a place of the code. -/
inductive Reading (code : Array UInt8) (pc : Nat) : Except DecodeError Instruction → Prop
  | outside (hpc : code.size ≤ pc) : Reading code pc (.error .truncated)
  | unknown {byte : UInt8} (hbyte : code[pc]? = some byte) (hunknown : Opcode.ofByte? byte = none) :
      Reading code pc (.error (.unsupported byte))
  /-- The code ends inside the operand. -/
  | cut {opcode : Opcode} (hbyte : code[pc]? = some opcode.byte) (hend : code.size < pc + opcode.length) :
      Reading code pc (.error .truncated)
  | instruction {found : Instruction} {bytes : List UInt8} (hbytes : found.encode? = some bytes)
      (hstand : StandAt bytes code pc) : Reading code pc (.ok found)

theorem decode_cases (code : Array UInt8) (pc : Nat) : Reading code pc (decode code pc) := by
  unfold decode
  split
  · rename_i hbyte
    exact .outside (Array.getElem?_eq_none_iff.1 hbyte)
  rename_i byte hbyte
  have hpc : pc + 1 ≤ code.size := (Array.getElem?_eq_some_iff.1 hbyte).1
  split
  · rename_i hunknown
    exact .unknown hbyte hunknown
  rename_i opcode hopcode
  obtain rfl := Opcode.byte_of_ofByte? hopcode
  split
  · rename_i hoperand
    have hend := (OperandForm.read?_eq_none_iff hpc).1 hoperand
    rw [Nat.add_assoc] at hend
    exact .cut hbyte hend
  · rename_i operand hoperand
    obtain ⟨bytes, hbytes, hstand⟩ := OperandForm.read?_eq_some_iff.1 hoperand
    exact .instruction (encode?_eq_some_iff.2 ⟨bytes, hbytes, rfl⟩) (standAt_cons_iff.2 ⟨hbyte, hstand⟩)

/-- An instruction is read exactly where its spelling stands. -/
theorem decode_eq_ok_iff {code : Array UInt8} {pc : Nat} {instruction : Instruction} :
    decode code pc = .ok instruction ↔ ∃ bytes, instruction.encode? = some bytes ∧ StandAt bytes code pc := by
  constructor
  · intro h
    cases h ▸ decode_cases code pc with
    | instruction hbytes hstand => exact ⟨_, hbytes, hstand⟩
  · rintro ⟨bytes, hbytes, hstand⟩
    obtain ⟨operand, hoperand, rfl⟩ := encode?_eq_some_iff.1 hbytes
    obtain ⟨hbyte, hstand⟩ := standAt_cons_iff.1 hstand
    have hread := OperandForm.read?_eq_some_iff.2 ⟨operand, hoperand, hstand⟩
    simp [decode, hbyte, hread]

/-- A place has a byte of no instruction. -/
theorem decode_eq_unsupported_iff {code : Array UInt8} {pc : Nat} {byte : UInt8} :
    decode code pc = .error (.unsupported byte) ↔ code[pc]? = some byte ∧ byte ∉ Opcode.all.map Opcode.byte := by
  rw [← Opcode.ofByte?_eq_none_iff]
  constructor
  · intro h
    cases h ▸ decode_cases code pc with
    | unknown hbyte hunknown => exact ⟨hbyte, hunknown⟩
  · rintro ⟨hbyte, hunknown⟩
    simp [decode, hbyte, hunknown]

/-- A place has no byte, or the code ends inside the instruction of its byte. -/
theorem decode_eq_truncated_iff {code : Array UInt8} {pc : Nat} :
    decode code pc = .error .truncated ↔
      code.size ≤ pc ∨ ∃ opcode : Opcode, code[pc]? = some opcode.byte ∧ code.size < pc + opcode.length := by
  constructor
  · intro h
    cases h ▸ decode_cases code pc with
    | outside hpc => exact .inl hpc
    | cut hbyte hend => exact .inr ⟨_, hbyte, hend⟩
  · rintro (hpc | ⟨opcode, hbyte, hend⟩)
    · simp [decode, hpc]
    · have hpc : pc + 1 ≤ code.size := (Array.getElem?_eq_some_iff.1 hbyte).1
      have hoperand : opcode.form.read? code (pc + 1) = none := by
        rw [OperandForm.read?_eq_none_iff hpc, Nat.add_assoc]
        exact hend
      simp [decode, hbyte, hoperand]

/-- A byte that is not read as an instruction belongs to none, or the code ends too early. -/
theorem decode_error {code : Array UInt8} {pc : Nat} {byte : UInt8} {error : DecodeError}
    (hbyte : code[pc]? = some byte) (h : decode code pc = .error error) :
    error = .unsupported byte ∨ error = .truncated := by
  cases error with
  | truncated => exact .inr rfl
  | unsupported found =>
    have hfound := (decode_eq_unsupported_iff.1 h).1
    rw [hbyte] at hfound
    cases hfound
    exact .inl rfl

/-- An instruction is read where its byte stands. -/
theorem byte_of_decode {code : Array UInt8} {pc : Nat} {instruction : Instruction}
    (h : decode code pc = .ok instruction) : code[pc]? = some instruction.opcode.byte := by
  obtain ⟨bytes, hbytes, hstand⟩ := decode_eq_ok_iff.1 h
  obtain ⟨operand, -, rfl⟩ := encode?_eq_some_iff.1 hbytes
  exact (standAt_cons_iff.1 hstand).1

theorem lt_size_of_decode {code : Array UInt8} {pc : Nat} {instruction : Instruction}
    (h : decode code pc = .ok instruction) : pc < code.size :=
  (Array.getElem?_eq_some_iff.1 (byte_of_decode h)).1

/-- An instruction ends where the code does at the latest. -/
theorem end_le_size_of_decode {code : Array UInt8} {pc : Nat} {instruction : Instruction}
    (h : decode code pc = .ok instruction) : pc + instruction.length ≤ code.size := by
  refine Nat.le_of_not_lt fun hend => ?_
  have htruncated := decode_eq_truncated_iff.2 (.inr ⟨instruction.opcode, byte_of_decode h, hend⟩)
  rw [h] at htruncated
  cases htruncated

/-! ## Whole code arrays -/

/-- The spellings of instructions one after the other, `none` if one of them has none. -/
def encodeAll? : List Instruction → Option (List UInt8)
  | [] => some []
  | instruction :: rest => do return (← instruction.encode?) ++ (← encodeAll? rest)

/-- The instructions in the code from a place on, each right behind the one before it. -/
def disassemble (code : Array UInt8) (pc : Nat) : Except DecodeError (List Instruction) :=
  if pc < code.size then
    match decode code pc with
    | .error error => .error error
    | .ok instruction => (instruction :: ·) <$> disassemble code (pc + instruction.length)
  else
    .ok []
termination_by code.size - pc
decreasing_by
  have hpos : 0 < instruction.length := instruction.opcode.length_pos
  omega

theorem encodeAll?_cons_iff {instruction : Instruction} {rest : List Instruction} {bytes : List UInt8} :
    encodeAll? (instruction :: rest) = some bytes ↔ ∃ first later, instruction.encode? = some first ∧
      encodeAll? rest = some later ∧ first ++ later = bytes := by
  simp [encodeAll?, Option.bind_eq_some_iff]

/-- Instructions whose operands go with their opcodes can be written. -/
theorem encodeAll?_of_fits {instructions : List Instruction}
    (h : ∀ instruction ∈ instructions, instruction.fits = true) : ∃ bytes, encodeAll? instructions = some bytes := by
  induction instructions with
  | nil => exact ⟨[], rfl⟩
  | cons instruction rest ih =>
    obtain ⟨hfits, hrest⟩ := List.forall_mem_cons.1 h
    rw [← isSome_encode?] at hfits
    obtain ⟨first, hfirst⟩ := Option.isSome_iff_exists.1 hfits
    obtain ⟨later, hlater⟩ := ih hrest
    exact ⟨first ++ later, encodeAll?_cons_iff.2 ⟨first, later, hfirst, hlater, rfl⟩⟩

/-- Code that is the spelling of instructions from a place on is read as these. -/
theorem disassemble_of_encodeAll? {code : Array UInt8} {pc : Nat} {instructions : List Instruction}
    (h : encodeAll? instructions = some (code.toList.drop pc)) : disassemble code pc = .ok instructions := by
  induction instructions generalizing pc with
  | nil =>
    have hpc : code.size ≤ pc := by simpa [encodeAll?] using h
    unfold disassemble
    rw [if_neg (Nat.not_lt.2 hpc)]
  | cons instruction rest ih =>
    obtain ⟨first, later, hfirst, hlater, hbytes⟩ := encodeAll?_cons_iff.1 h
    have hstand : StandAt first code pc := ⟨later, hbytes⟩
    have hdecode := decode_eq_ok_iff.2 ⟨first, hfirst, hstand⟩
    -- what is left of the code behind the instruction spells the rest
    have hdrop : code.toList.drop (pc + instruction.length) = later := by
      rw [← length_of_encode? hfirst, ← List.drop_drop, ← hbytes, List.drop_left]
    have hrest := ih (hdrop ▸ hlater)
    unfold disassemble
    rw [if_pos (lt_size_of_decode hdecode), hdecode]
    dsimp only
    rw [hrest]
    rfl

/-- Instructions and code arrays spell each other. All instructions whose operands go with their opcodes can be
written, and their spellings in a row, read from the front in steps of their lengths, are these instructions again.
Conversely, at any place of any code array: what is read as an instruction is its spelling, all of it within the code;
a byte is refused as unsupported exactly if it is none of the table; and an instruction is refused as truncated exactly
if the place is outside the code or the code ends inside its operand. The end of an instruction is only looked at from
a place inside the code, so it is a number of 64 bits for code of any length that memory can hold. -/
theorem decode_iff_spelled :
    (∀ instructions : List Instruction, (∀ instruction ∈ instructions, instruction.fits = true) →
      ∃ bytes, encodeAll? instructions = some bytes ∧ disassemble bytes.toArray 0 = .ok instructions) ∧
    ∀ (code : Array UInt8) (pc : Nat),
      (∀ instruction, decode code pc = .ok instruction → instruction.fits = true ∧
        pc + instruction.length ≤ code.size ∧
        instruction.encode? = some (code.extract pc (pc + instruction.length)).toList) ∧
      (∀ byte, decode code pc = .error (.unsupported byte) ↔
        code[pc]? = some byte ∧ byte ∉ Opcode.all.map Opcode.byte) ∧
      (decode code pc = .error .truncated ↔
        code.size ≤ pc ∨ ∃ opcode : Opcode, code[pc]? = some opcode.byte ∧ code.size < pc + opcode.length) ∧
      ∀ opcode : Opcode, code.size < UInt64.size / 2 → code[pc]? = some opcode.byte →
        pc + opcode.length < UInt64.size := by
  refine ⟨fun instructions hfits => ?_, fun code pc => ⟨fun instruction hdecode => ?_,
    fun byte => decode_eq_unsupported_iff, decode_eq_truncated_iff, fun opcode hsize hbyte => ?_⟩⟩
  · obtain ⟨bytes, hbytes⟩ := encodeAll?_of_fits hfits
    exact ⟨bytes, hbytes, disassemble_of_encodeAll? (by simpa using hbytes)⟩
  · obtain ⟨bytes, hbytes, hstand⟩ := decode_eq_ok_iff.1 hdecode
    refine ⟨?_, end_le_size_of_decode hdecode, ?_⟩
    · rw [← isSome_encode?, hbytes]
      rfl
    · rw [hbytes, ← length_of_encode? hbytes, ← hstand.eq_extract]
  · have hpc : pc < code.size := (Array.getElem?_eq_some_iff.1 hbyte).1
    have hlength : opcode.length ≤ 3 := by cases opcode <;> decide
    unfold UInt64.size at hsize ⊢
    omega

/-- The instructions `bipush -5`, `goto -3`, `invokestatic #7` and `ldc #131` and their ten bytes. Read from the second
of these bytes on, which is none of the table, there is no instruction. -/
theorem decode_iff_spelled_sample :
    let instructions : List Instruction :=
      [⟨.bipush, .immediate (-5)⟩, ⟨.goto, .offset (-3)⟩, ⟨.invokestatic, .index 7⟩, ⟨.ldc, .index 0x83⟩]
    let code : Array UInt8 := #[0x10, 0xfb, 0xa7, 0xff, 0xfd, 0xb8, 0x00, 0x07, 0x12, 0x83]
    (∀ instruction ∈ instructions, instruction.fits = true) ∧ disassemble code 0 = .ok instructions ∧
    decode code 2 = .ok ⟨.goto, .offset (-3)⟩ ∧
    encode? ⟨.goto, .offset (-3)⟩ = some (code.extract 2 5).toList ∧
    decode code 1 = .error (.unsupported 0xfb) := by
  intro instructions code
  have hfits : ∀ instruction ∈ instructions, instruction.fits = true := by decide
  have hdecode : decode code 2 = .ok ⟨.goto, .offset (-3)⟩ :=
    decode_eq_ok_iff.2 ⟨[0xa7, 0xff, 0xfd], by decide, [0xb8, 0x00, 0x07, 0x12, 0x83], rfl⟩
  obtain ⟨hall, hplaces⟩ := decode_iff_spelled
  obtain ⟨bytes, hbytes, hdisassemble⟩ := hall instructions hfits
  have hspelled : encodeAll? instructions = some code.toList := by decide
  rw [hspelled] at hbytes
  cases hbytes
  obtain ⟨-, -, hencode⟩ := (hplaces code 2).1 _ hdecode
  exact ⟨hfits, hdisassemble, hdecode, hencode, ((hplaces code 1).2.1 0xfb).2 ⟨rfl, by decide⟩⟩

end Instruction

end ClassMachine
