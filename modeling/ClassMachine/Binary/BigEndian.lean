/-
Numbers of two and four bytes, the most significant byte first. Each number has exactly one such
spelling, and any bytes spell one.
-/
namespace ClassMachine.Binary

/-- The number two bytes stand for. -/
def join16 (a b : UInt8) : UInt16 :=
  UInt16.ofNat (a.toNat * 0x100 + b.toNat)

/-- The number four bytes stand for. -/
def join32 (a b c d : UInt8) : UInt32 :=
  UInt32.ofNat (a.toNat * 0x1000000 + b.toNat * 0x10000 + c.toNat * 0x100 + d.toNat)

/-- The two bytes of a number. -/
def bytes16 (n : UInt16) : List UInt8 :=
  [UInt8.ofNat (n.toNat / 0x100), UInt8.ofNat (n.toNat % 0x100)]

/-- The four bytes of a number. -/
def bytes32 (n : UInt32) : List UInt8 :=
  [UInt8.ofNat (n.toNat / 0x1000000), UInt8.ofNat (n.toNat / 0x10000 % 0x100),
    UInt8.ofNat (n.toNat / 0x100 % 0x100), UInt8.ofNat (n.toNat % 0x100)]

theorem bytes16_join16 (a b : UInt8) : bytes16 (join16 a b) = [a, b] := by
  have ha := a.toNat_lt
  have hb := b.toNat_lt
  simp only [bytes16, join16, UInt16.toNat_ofNat', List.cons.injEq, and_true]
  constructor <;> apply UInt8.toNat_inj.mp <;> rw [UInt8.toNat_ofNat'] <;> omega

theorem bytes32_join32 (a b c d : UInt8) : bytes32 (join32 a b c d) = [a, b, c, d] := by
  have ha := a.toNat_lt
  have hb := b.toNat_lt
  have hc := c.toNat_lt
  have hd := d.toNat_lt
  simp only [bytes32, join32, UInt32.toNat_ofNat', List.cons.injEq, and_true]
  refine ⟨?_, ?_, ?_, ?_⟩ <;> apply UInt8.toNat_inj.mp <;> rw [UInt8.toNat_ofNat'] <;> omega

theorem join16_bytes16 (n : UInt16) :
    join16 (UInt8.ofNat (n.toNat / 0x100)) (UInt8.ofNat (n.toNat % 0x100)) = n := by
  have hn := n.toNat_lt
  apply UInt16.toNat_inj.mp
  simp only [join16, UInt16.toNat_ofNat', UInt8.toNat_ofNat']
  omega

theorem join32_bytes32 (n : UInt32) :
    join32 (UInt8.ofNat (n.toNat / 0x1000000)) (UInt8.ofNat (n.toNat / 0x10000 % 0x100))
      (UInt8.ofNat (n.toNat / 0x100 % 0x100)) (UInt8.ofNat (n.toNat % 0x100)) = n := by
  have hn := n.toNat_lt
  apply UInt32.toNat_inj.mp
  simp only [join32, UInt32.toNat_ofNat', UInt8.toNat_ofNat']
  omega

end ClassMachine.Binary
