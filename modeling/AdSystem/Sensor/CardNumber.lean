import Mathlib.Data.BitVec
import AdSystem.Sensor.Anticollision

/-! # The id of a card

The id is put together from the four bytes of the number. A shift binds closer than a mask,
and an addition closer than the mask at the end, so that each byte but the last keeps its
place among the bits and the sum is then cut to eight of them.
-/
namespace AdSystem.Sensor

/-- A `byte` where an `int` is wanted keeps its sign. -/
def byteToInt (b : UInt8) : BitVec 32 := b.toBitVec.signExtend 32

/-- The bytes in the order of the formula. -/
def composeId (high second third low : BitVec 32) : BitVec 32 :=
  (high &&& (0xff#32 <<< 24)) + (second &&& (0xff#32 <<< 16)) + (third &&& (0xff#32 <<< 8)) + low &&& 0xff#32

/-- `none` when a byte is missing. -/
def getRfidId (isBigEndian : Bool) (bytes : Option (List UInt8)) : Option ℤ :=
  match bytes with
  | none => some 0
  | some bytes => do
    let b0 ← bytes[0]?
    let b1 ← bytes[1]?
    let b2 ← bytes[2]?
    let b3 ← bytes[3]?
    let id :=
      if isBigEndian then composeId (byteToInt b0) (byteToInt b1) (byteToInt b2) (byteToInt b3)
      else composeId (byteToInt b3) (byteToInt b2) (byteToInt b1) (byteToInt b0)
    return id.toInt

def bigEndian (bytes : List UInt8) : ℕ := bytes.foldl (fun n b => 256 * n + b.toNat) 0

def littleEndian (bytes : List UInt8) : ℕ := bigEndian bytes.reverse

section
variable (b0 b1 b2 b3 : UInt8)

theorem bigEndian_four :
    bigEndian [b0,b1,b2,b3] = 256 * (256 * (256 * b0.toNat + b1.toNat) + b2.toNat) + b3.toNat := by
  simp [bigEndian]

theorem byteToInt_low (b : UInt8) : (byteToInt b &&& 0xff#32).toNat = b.toNat := by
  have hall : ∀ v : BitVec 8, (v.signExtend 32 &&& 0xff#32).toNat = v.toNat := by decide
  exact hall b.toBitVec

/-- A summand without low bits leaves the low byte of the sum. -/
theorem add_low {x y : BitVec 32} (h : x &&& 0xff#32 = 0#32) : (x + y) &&& 0xff#32 = y &&& 0xff#32 := by
  have hlow (z : BitVec 32) : (z &&& 0xff#32).toNat = z.toNat % 256 := by
    rw [BitVec.toNat_and]
    exact Nat.and_two_pow_sub_one_eq_mod z.toNat 8
  apply BitVec.eq_of_toNat_eq
  have hx := hlow x
  rw [h, BitVec.toNat_ofNat, Nat.zero_mod] at hx
  rw [hlow, hlow, BitVec.toNat_add]
  omega

theorem masked_low (x : BitVec 32) {m : BitVec 32} (h : m &&& 0xff#32 = 0#32) :
    (x &&& m) &&& 0xff#32 = 0#32 := by
  rw [BitVec.and_assoc, h, BitVec.and_zero]

/-- What is left of the sum is its last summand. -/
theorem composeId_toInt (x y z : BitVec 32) (b : UInt8) :
    (composeId x y z (byteToInt b)).toInt = b.toNat := by
  have hsum : composeId x y z (byteToInt b) = byteToInt b &&& 0xff#32 := by
    rw [composeId, BitVec.add_assoc, BitVec.add_assoc, add_low (masked_low x (by decide)),
      add_low (masked_low y (by decide)), add_low (masked_low z (by decide))]
  have hlow := byteToInt_low b
  have hb := b.toNat_lt
  rw [hsum, BitVec.toInt_eq_toNat_of_lt (by omega), hlow]

theorem getRfidId_true : getRfidId true (some [b0,b1,b2,b3]) = some (b3.toNat : ℤ) :=
  congrArg some (composeId_toInt _ _ _ b3)

theorem getRfidId_false : getRfidId false (some [b0,b1,b2,b3]) = some (b0.toNat : ℤ) :=
  congrArg some (composeId_toInt _ _ _ b0)

end

/-- A number that was read has an id. -/
theorem getRfidId_readCardNum {chip : Chip} {temp : Bytes} {request anticoll again : Frame}
    {bytes : List UInt8} (h : readCardNum chip temp request anticoll again = some bytes)
    (isBigEndian : Bool) :
    ∃ id, getRfidId isBigEndian (readCardNum chip temp request anticoll again) = some id := by
  have hlen := readCardNum_length h
  rw [h]
  match bytes, hlen with
  | [b0,b1,b2,b3], _ =>
    cases isBigEndian with
    | true => exact ⟨_,getRfidId_true b0 b1 b2 b3⟩
    | false => exact ⟨_,getRfidId_false b0 b1 b2 b3⟩

/-- The ids are the numbers only while the other three bytes are zero, and tell only numbers
apart that differ in the byte that is left; the one mode is the other on the bytes reversed. -/
theorem getRfidId_faithful_iff (b0 b1 b2 b3 c0 c1 c2 c3 : UInt8) :
    (getRfidId true (some [b0,b1,b2,b3]) = some (bigEndian [b0,b1,b2,b3] : ℤ) ↔
        b0 = 0 ∧ b1 = 0 ∧ b2 = 0) ∧
      (getRfidId false (some [b0,b1,b2,b3]) = some (littleEndian [b0,b1,b2,b3] : ℤ) ↔
        b1 = 0 ∧ b2 = 0 ∧ b3 = 0) ∧
      (getRfidId true (some [b0,b1,b2,b3]) ≠ getRfidId true (some [c0,c1,c2,c3]) ↔ b3 ≠ c3) ∧
      (getRfidId false (some [b0,b1,b2,b3]) ≠ getRfidId false (some [c0,c1,c2,c3]) ↔ b0 ≠ c0) ∧
      getRfidId false (some [b0,b1,b2,b3]) = getRfidId true (some [b0,b1,b2,b3].reverse) := by
  have hzero (b : UInt8) : b = 0 ↔ b.toNat = 0 := UInt8.toNat_inj.symm
  have hreverse : [b0,b1,b2,b3].reverse = [b3,b2,b1,b0] := rfl
  have hne (b c : UInt8) : some (b.toNat : ℤ) ≠ some (c.toNat : ℤ) ↔ b ≠ c := by
    rw [ne_eq, Option.some.injEq, Int.natCast_inj, UInt8.toNat_inj]
  rw [littleEndian, hreverse]
  refine ⟨?_,?_,?_,?_,?_⟩
  · rw [getRfidId_true, bigEndian_four, Option.some.injEq, Int.natCast_inj, hzero, hzero, hzero]
    omega
  · rw [getRfidId_false, bigEndian_four, Option.some.injEq, Int.natCast_inj, hzero, hzero, hzero]
    omega
  · rw [getRfidId_true, getRfidId_true]
    exact hne b3 c3
  · rw [getRfidId_false, getRfidId_false]
    exact hne b0 c0
  · rw [getRfidId_false, getRfidId_true]

/-- The card `00 00 01 00` has the id of the card `00 00 00 00`. -/
theorem getRfidId_unfaithful :
    ¬ ((∀ b0 b1 b2 b3 : UInt8,
        getRfidId true (some [b0,b1,b2,b3]) = some (bigEndian [b0,b1,b2,b3] : ℤ) ∧
          getRfidId false (some [b0,b1,b2,b3]) = some (littleEndian [b0,b1,b2,b3] : ℤ)) ∧
      (∀ b c : List UInt8, b.length = 4 → c.length = 4 → b ≠ c →
        getRfidId true (some b) ≠ getRfidId true (some c) ∧
          getRfidId false (some b) ≠ getRfidId false (some c)) ∧
      ∀ b : List UInt8, b.length = 4 → getRfidId false (some b) = getRfidId true (some b.reverse)) := by
  rintro ⟨hvalue,-,-⟩
  exact absurd (hvalue 0 0 1 0).1 (by decide)

end AdSystem.Sensor
