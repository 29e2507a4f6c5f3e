/-
The bytes of code attributes. They are read exactly as they are written: `Code.read` succeeds where the spelling of code
stands whose lengths and counts fit into the bytes they have, and stops right behind it (`Code.exact_read`). Nothing
in the attribute is looked up, so the only way to fail is that the bytes end too early, and then at a place within them
(`EndsWithin`).
-/
import ClassMachine.Proofs.ClassFile.Prefixes

namespace ClassMachine

open ClassFile ClassFile.Reader

/-! ## Readers that fail for want of bytes only -/

namespace ClassFile

/-- The place behind the last byte. -/
def Cursor.stop (cursor : Cursor) : Nat :=
  cursor.offset + cursor.rest.length

theorem Cursor.Before.stop_eq {cursor after : Cursor} {bytes : List UInt8} (h : cursor.Before bytes after) :
    after.stop = cursor.stop := by
  have hlength : cursor.rest.length = bytes.length + after.rest.length := by rw [h.rest, List.length_append]
  have hoffset := h.offset
  unfold Cursor.stop
  omega

namespace Reader

/-- The reader moves on within the bytes, and it fails only because an item that starts within them does not end
there. -/
structure EndsWithin {α : Type} (reader : Reader α) : Prop where
  ok : ∀ {cursor a after}, reader cursor = .ok (a, after) → after.stop = cursor.stop
  error : ∀ {cursor error}, reader cursor = .error error →
    ∃ item offset, error = .truncated item offset ∧ offset ≤ cursor.stop

theorem EndsWithin.bind {α β : Type} {reader : Reader α} {next : α → Reader β} (h : EndsWithin reader)
    (h' : ∀ a, EndsWithin (next a)) : EndsWithin (reader >>= next) where
  ok hok := by
    obtain ⟨a, middle, hreader, hnext⟩ := bind_eq_ok_iff.1 hok
    rw [(h' a).ok hnext, h.ok hreader]
  error herror := by
    rcases bind_eq_error_iff.1 herror with hreader | ⟨a, middle, hreader, hnext⟩
    · exact h.error hreader
    · obtain ⟨item, offset, rfl, hle⟩ := (h' a).error hnext
      rw [h.ok hreader] at hle
      exact ⟨item, offset, rfl, hle⟩

theorem endsWithin_pure {α : Type} (a : α) : EndsWithin (pure a) where
  ok hok := by cases hok; rfl
  error herror := by cases herror

/-- A reader of one item. -/
theorem Exact.endsWithin {α : Type} {reader : Reader α} {spell : α → List UInt8} {fits : α → Prop} {item : Item}
    (h : Exact reader spell fits)
    (herror : ∀ cursor error, reader cursor = .error error → error = .truncated item cursor.offset) :
    EndsWithin reader where
  ok hok := ((h _ _ _).1 hok).2.stop_eq
  error hfails := ⟨item, _, herror _ _ hfails, Nat.le_add_right _ _⟩

theorem endsWithin_u16 (item : Item) : EndsWithin (u16 item) :=
  (exact_u16 item).endsWithin fun _ _ => error_of_u16

theorem endsWithin_u32 (item : Item) : EndsWithin (u32 item) :=
  (exact_u32 item).endsWithin fun _ _ => error_of_u32

theorem endsWithin_bytes (item : Item) (length : Nat) : EndsWithin (bytes item length) :=
  (exact_bytes item length).endsWithin fun _ _ => error_of_bytes

theorem EndsWithin.timesAfter {α : Type} {reader : Reader α} (h : EndsWithin reader) :
    ∀ (count : Nat) (done : List α), EndsWithin (timesAfter reader done count)
  | 0, _ => endsWithin_pure _
  | count + 1, done => h.bind fun value => h.timesAfter count (value :: done)

theorem EndsWithin.counted {α : Type} {reader : Reader α} (h : EndsWithin reader) (item : Item) :
    EndsWithin (counted item reader) :=
  (endsWithin_u16 item).bind fun count => h.timesAfter count.toNat []

end Reader

end ClassFile

/-! ## Handlers and attributes -/

theorem Handler.exact_read : Exact Handler.read Handler.encode fun _ => True := by
  rintro cursor ⟨start, stop, target, catchType⟩ after
  unfold Handler.read Handler.encode
  constructor
  · intro h
    obtain ⟨_, first, -, hstart, h⟩ := (exact_u16 _).bind_iff.1 h
    obtain ⟨_, second, -, hstop, h⟩ := (exact_u16 _).bind_iff.1 h
    obtain ⟨_, third, -, htarget, h⟩ := (exact_u16 _).bind_iff.1 h
    obtain ⟨_, fourth, -, hcatchType, h⟩ := (exact_u16 _).bind_iff.1 h
    obtain ⟨heq, rfl⟩ := pure_eq_ok_iff.1 h
    cases heq
    simp only [Cursor.before_append_iff]
    exact ⟨trivial, third, ⟨second, ⟨first, hstart, hstop⟩, htarget⟩, hcatchType⟩
  · rintro ⟨-, hbefore⟩
    simp only [Cursor.before_append_iff] at hbefore
    obtain ⟨third, ⟨second, ⟨first, hstart, hstop⟩, htarget⟩, hcatchType⟩ := hbefore
    refine (exact_u16 _).bind_iff.2 ⟨_, first, trivial, hstart, ?_⟩
    refine (exact_u16 _).bind_iff.2 ⟨_, second, trivial, hstop, ?_⟩
    refine (exact_u16 _).bind_iff.2 ⟨_, third, trivial, htarget, ?_⟩
    exact (exact_u16 _).bind_iff.2 ⟨_, after, trivial, hcatchType, rfl⟩

theorem Handler.endsWithin_read : EndsWithin Handler.read := by
  refine (endsWithin_u16 _).bind fun start => (endsWithin_u16 _).bind fun stop => ?_
  exact (endsWithin_u16 _).bind fun target => (endsWithin_u16 _).bind fun catchType => endsWithin_pure _

theorem Attribute.endsWithin_readAll : EndsWithin Attribute.readAll := by
  refine EndsWithin.counted ?_ .attributeCount
  refine (endsWithin_u16 _).bind fun nameIndex => (endsWithin_u32 _).bind fun length => ?_
  exact (endsWithin_bytes _ _).bind fun info => endsWithin_pure _

/-! ## Code -/

namespace Code

/-- Code that an attribute can hold: the lengths of the code and of its attributes fit into four bytes, and the numbers
of handlers and of attributes into two. -/
def Fits (code : Code) : Prop :=
  code.bytes.size < 4294967296 ∧ code.handlers.length ≤ 65535 ∧ Attribute.Fit code.attributes

instance (code : Code) : Decidable code.Fits :=
  inferInstanceAs (Decidable (_ ∧ _))

theorem exact_read : Exact Code.read Code.encode Code.Fits := by
  rintro cursor ⟨maxStack, maxLocals, code, handlers, attributes⟩ after
  unfold Code.read Code.encode Code.Fits
  constructor
  · intro h
    obtain ⟨_, afterStack, -, hstack, h⟩ := (exact_u16 _).bind_iff.1 h
    obtain ⟨_, afterLocals, -, hlocals, h⟩ := (exact_u16 _).bind_iff.1 h
    obtain ⟨length, afterLength, -, hlength, h⟩ := (exact_u32 _).bind_iff.1 h
    obtain ⟨taken, afterCode, hsize, hcode, h⟩ := (exact_bytes _ _).bind_iff.1 h
    obtain ⟨_, afterHandlers, ⟨hhandlerCount, -⟩, hhandlers, h⟩ := (Handler.exact_read.counted _).bind_iff.1 h
    obtain ⟨_, last, hfit, hattributes, h⟩ := Attribute.exact_readAll.bind_iff.1 h
    obtain ⟨heq, rfl⟩ := pure_eq_ok_iff.1 h
    cases heq
    have hcount : taken.toArray.size = length.toNat := by simpa using hsize
    refine ⟨⟨?_, Nat.le_of_lt_succ hhandlerCount, hfit⟩, ?_⟩
    · rw [hcount]
      exact length.toNat_lt
    · dsimp only
      rw [hcount, UInt32.ofNat_toNat]
      simp only [Cursor.before_append_iff] at hhandlers ⊢
      obtain ⟨afterCount, hhandlerCount, hhandlers⟩ := hhandlers
      exact ⟨afterHandlers, ⟨afterCount, ⟨afterCode, ⟨afterLength, ⟨afterLocals, ⟨afterStack, hstack, hlocals⟩,
        hlength⟩, hcode⟩, hhandlerCount⟩, hhandlers⟩, hattributes⟩
  · rintro ⟨⟨hsize, hhandlerCount, hfit⟩, hbefore⟩
    simp only [Cursor.before_append_iff] at hbefore
    obtain ⟨afterHandlers, ⟨afterCount, ⟨afterCode, ⟨afterLength, ⟨afterLocals, ⟨afterStack, hstack, hlocals⟩,
      hlength⟩, hcode⟩, hcount⟩, hhandlers⟩, hattributes⟩ := hbefore
    refine (exact_u16 _).bind_iff.2 ⟨_, afterStack, trivial, hstack, ?_⟩
    refine (exact_u16 _).bind_iff.2 ⟨_, afterLocals, trivial, hlocals, ?_⟩
    refine (exact_u32 _).bind_iff.2 ⟨_, afterLength, trivial, hlength, ?_⟩
    refine (exact_bytes _ _).bind_iff.2 ⟨code.toList, afterCode, ?_, hcode, ?_⟩
    · rw [UInt32.toNat_ofNat_of_lt' hsize, Array.length_toList]
    refine (Handler.exact_read.counted _).bind_iff.2 ⟨_, afterHandlers, ⟨Nat.lt_succ_of_le hhandlerCount,
      fun _ _ => trivial⟩, Cursor.before_append_iff.2 ⟨afterCount, hcount, hhandlers⟩, ?_⟩
    exact Attribute.exact_readAll.bind_iff.2 ⟨_, after, hfit, hattributes, rfl⟩

theorem endsWithin_read : EndsWithin Code.read := by
  refine (endsWithin_u16 _).bind fun maxStack => (endsWithin_u16 _).bind fun maxLocals => ?_
  refine (endsWithin_u32 _).bind fun length => (endsWithin_bytes _ _).bind fun bytes => ?_
  refine (Handler.endsWithin_read.counted _).bind fun handlers => ?_
  exact Attribute.endsWithin_readAll.bind fun attributes => endsWithin_pure _

/-- Bytes are read as code exactly if they begin with its spelling. -/
theorem decode_eq_ok_iff {info : List UInt8} {code : Code} :
    decode info = .ok code ↔ code.Fits ∧ code.encode <+: info := by
  have hread : decode info = .ok code ↔ ∃ after, Code.read (Cursor.start info) = .ok (code, after) := by
    unfold decode
    rcases Code.read (Cursor.start info) with error | ⟨found, after⟩
    · exact ⟨nofun, nofun⟩
    · constructor
      · intro h; cases h; exact ⟨after, rfl⟩
      · rintro ⟨_, h⟩; cases h; rfl
  rw [hread]
  constructor
  · rintro ⟨after, h⟩
    obtain ⟨hfits, hbefore⟩ := (exact_read _ _ _).1 h
    exact ⟨hfits, after.rest, hbefore.rest.symm⟩
  · rintro ⟨hfits, rest, rfl⟩
    exact ⟨⟨0 + code.encode.length, rest⟩, (exact_read _ _ _).2 ⟨hfits, rfl, rfl⟩⟩

theorem decode_error {info : List UInt8} {error : FormatError} (h : decode info = .error error) :
    ∃ item offset, error = .truncated item offset ∧ offset ≤ info.length := by
  have hread : Code.read (Cursor.start info) = .error error := by
    unfold decode at h
    rcases hread : Code.read (Cursor.start info) with cause | ⟨found, after⟩
    · rw [hread] at h
      cases h
      rfl
    · rw [hread] at h
      cases h
  obtain ⟨item, offset, rfl, hle⟩ := endsWithin_read.error hread
  have hstop : (Cursor.start info).stop = info.length := Nat.zero_add _
  exact ⟨item, offset, rfl, hstop ▸ hle⟩

/-- Code attributes are read exactly. Code that an attribute can hold is read back from its spelling, whatever bytes
follow. Conversely, whatever the bytes: if they are read as code, they begin with its spelling; they are refused exactly
if they begin with the spelling of no code; and they are then refused as ending too early, at a place within them, and
for no other reason. -/
theorem decode_iff_prefix :
    (∀ (code : Code) (more : List UInt8), code.Fits → decode (code.encode ++ more) = .ok code) ∧
    ∀ info : List UInt8,
      (∀ code, decode info = .ok code → code.Fits ∧ code.encode <+: info) ∧
      ((∃ error, decode info = .error error) ↔ ¬ ∃ code : Code, code.Fits ∧ code.encode <+: info) ∧
      ∀ error, decode info = .error error → ∃ item offset, error = .truncated item offset ∧ offset ≤ info.length := by
  refine ⟨fun code more hfits => decode_eq_ok_iff.2 ⟨hfits, List.prefix_append _ _⟩,
    fun info => ⟨fun code => decode_eq_ok_iff.1, ?_, fun error => decode_error⟩⟩
  simp only [← decode_eq_ok_iff]
  rcases decode info with error | code
  · simp
  · simp

/-- Code that yields 1, with a handler and an attribute of its own. -/
def guardedCode : Code where
  maxStack := 2
  maxLocals := 1
  bytes := #[0x04, 0xac]
  handlers := [⟨0, 1, 1, 7⟩]
  attributes := [⟨5, [0xAA, 0xBB, 0xCC]⟩]

/-- The code is read back from its spelling with two bytes behind it, and cut off inside its handler it is refused
there. -/
theorem decode_iff_prefix_guardedCode :
    guardedCode.Fits ∧ decode (guardedCode.encode ++ [0xFF, 0]) = .ok guardedCode ∧
    ¬ (∃ code : Code, code.Fits ∧ code.encode <+: guardedCode.encode.take 17) ∧
    decode (guardedCode.encode.take 17) = .error (.truncated .handlerTarget 16) := by
  have hfits : guardedCode.Fits := by decide
  have hcut : decode (guardedCode.encode.take 17) = .error (.truncated .handlerTarget 16) := rfl
  obtain ⟨hwhole, hbytes⟩ := decode_iff_prefix
  obtain ⟨-, hrefused, -⟩ := hbytes (guardedCode.encode.take 17)
  exact ⟨hfits, hwhole guardedCode [0xFF, 0] hfits, hrefused.1 ⟨_, hcut⟩, hcut⟩

end Code

end ClassMachine
