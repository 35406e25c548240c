import Mathlib.Algebra.Order.Ring.Int
import AdSystem.Library.LocalArray

/-! # Reading through the drivers

Each driver reads into a buffer of its own and hands an `int` array to Java. How long the
array is comes from the system call, from the first zero in the buffer or from a constant,
so that the same bytes may come back cut short, padded or not at all.
-/
namespace AdSystem.Sensor
open LocalArray

/-- What the system call `read` comes to, when `n` bytes are asked for. -/
inductive ReadResult (n : ℕ) where
  | error
  | bytes (delivered : List UInt8) (within : delivered.length ≤ n)

namespace ReadResult
variable {n : ℕ}

/-- The bytes put into the buffer. -/
def delivered : ReadResult n → List UInt8
  | .error => []
  | .bytes delivered _ => delivered

def value : ReadResult n → ℤ
  | .error => -1
  | .bytes delivered _ => delivered.length

def into (r : ReadResult n) (buffer : List UInt8) : List UInt8 :=
  r.delivered ++ buffer.drop r.delivered.length

theorem delivered_length_le (r : ReadResult n) : r.delivered.length ≤ n := by
  cases r with
  | error => exact Nat.zero_le n
  | bytes delivered within => exact within

theorem value_nonpos_iff {r : ReadResult n} : r.value ≤ 0 ↔ r.delivered = [] := by
  cases r with
  | error => exact iff_of_true (show (-1 : ℤ) ≤ 0 by decide) rfl
  | bytes delivered within =>
    rw [value, ReadResult.delivered, Int.natCast_nonpos_iff, List.length_eq_zero_iff]

theorem value_toNat (r : ReadResult n) : r.value.toNat = r.delivered.length := by
  cases r with
  | error => rfl
  | bytes delivered within => exact Int.toNat_natCast _

end ReadResult

/-- What a native method comes to: an array, `NULL`, or an access beyond a local buffer. -/
inductive NativeResult where
  | outOfBounds
  | null
  | array (values : List ℤ)
  deriving DecidableEq, Repr

def ofUnsignedChar (b : UInt8) : ℤ := b.toNat

/-- The value of a `char`, which has a sign on one platform and none on another. -/
def ofChar (signed : Bool) (b : UInt8) : ℤ := if signed then b.toInt8.toInt else b.toNat

/-- The loop into `BufToJava` over the first `len` elements, and the array made of them. -/
def toJava (convert : UInt8 → ℤ) (buffer : List UInt8) (bufToJava : List ℤ) (len : ℕ) : NativeResult :=
  match copy convert buffer len 0 bufToJava with
  | none => .outOfBounds
  | some bufToJava => if len ≤ bufToJava.length then .array (bufToJava.take len) else .outOfBounds

/-- `Java_com_bupt_sensordriver_adc_Read`, which takes the buffer for a string. -/
def adcRead (r : ReadResult 512) : NativeResult :=
  let buffer := r.into (List.replicate 512 0)
  match strlen buffer with
  | none => .outOfBounds
  | some len => toJava ofUnsignedChar buffer (List.replicate 512 0) len

/-- `Java_com_bupt_sensordriver_sensor_Read`, in which the length read is set to 6 again. -/
def sensorRead (charSigned : Bool) (r : ReadResult 6) : NativeResult :=
  let buffer := r.into (List.replicate 10 0)
  toJava (ofChar charSigned) buffer (List.replicate 10 0) 6

/-- `Java_com_bupt_sensordriver_rfid_Read`, which goes by what the system call returns. -/
def rfidRead (r : ReadResult 512) : NativeResult :=
  let buffer := r.into (List.replicate 512 0)
  if r.value ≤ 0 then .null
  else toJava ofUnsignedChar buffer (List.replicate 512 0) r.value.toNat

/-- The bytes delivered come back one by one, each as a value from 0 to 255; nothing comes back for
nothing. -/
def Faithful {n : ℕ} (r : ReadResult n) (result : NativeResult) : Prop :=
  result = .array (r.delivered.map ofUnsignedChar) ∨ r.delivered = [] ∧ result = .null

section
variable {n m : ℕ} {convert : UInt8 → ℤ} {buffer : List UInt8} {b : UInt8} {charSigned : Bool}

theorem toJava_eq {k : ℕ} (hn : n ≤ buffer.length) (hk : n ≤ k) :
    toJava convert buffer (List.replicate k 0) n = .array ((buffer.take n).map convert) := by
  have hcopy : copy convert buffer n 0 (List.replicate k 0) =
      some ((buffer.take n).map convert ++ (List.replicate k 0).drop n) := by
    rw [copy_eq (by rwa [Nat.zero_add]) (by rwa [Nat.zero_add, List.length_replicate]), List.take_zero,
      List.nil_append, List.drop_zero, Nat.zero_add]
  have hlen : ((buffer.take n).map convert).length = n := by
    rw [List.length_map, List.length_take, Nat.min_eq_left hn]
  rw [toJava, hcopy]
  dsimp only
  rw [if_pos (by rw [List.length_append, hlen]; exact Nat.le_add_right n _), List.take_left' hlen]

theorem into_length {r : ReadResult n} (h : n ≤ m) : (r.into (List.replicate m 0)).length = m := by
  have hr := r.delivered_length_le
  rw [ReadResult.into, List.length_append, List.length_drop, List.length_replicate]
  omega

/-- Where a buffer is long enough, `delivered` is what comes back of it. -/
theorem toJava_delivered {r : ReadResult n} (h : n ≤ m) :
    toJava ofUnsignedChar (r.into (List.replicate m 0)) (List.replicate m 0) r.delivered.length =
      .array (r.delivered.map ofUnsignedChar) := by
  have hr := r.delivered_length_le
  rw [toJava_eq (by rw [into_length h]; omega) (by omega), ReadResult.into, List.take_left]

theorem array_faithful_iff {r : ReadResult n} {values : List ℤ} :
    Faithful r (.array values) ↔ values = r.delivered.map ofUnsignedChar := by
  rw [Faithful, NativeResult.array.injEq]
  exact or_iff_left fun h => nomatch h.2

theorem ofChar_eq_iff : ofChar charSigned b = ofUnsignedChar b ↔ (charSigned → b < 128) := by
  cases charSigned with
  | false => exact iff_of_true rfl nofun
  | true =>
    have hvalue : b.toInt8.toInt = if 2 * b.toNat < 256 then (b.toNat : ℤ) else b.toNat - 256 :=
      BitVec.toInt_eq_toNat_cond b.toBitVec
    rw [ofChar, if_pos rfl, ofUnsignedChar, hvalue, UInt8.lt_iff_toNat_lt]
    simp only [UInt8.reduceToNat, forall_const]
    split_ifs <;> omega

end

section
variable {r : ReadResult 512} {q : ReadResult 6} {charSigned : Bool}

theorem adcRead_faithful_iff : Faithful r (adcRead r) ↔ 0 ∉ r.delivered ∧ r.delivered.length < 512 := by
  have hr := r.delivered_length_le
  have hbuffer : r.into (List.replicate 512 0) =
      r.delivered ++ List.replicate (512 - r.delivered.length) 0 := by
    rw [ReadResult.into, List.drop_replicate]
  have hstrlen : strlen (r.into (List.replicate 512 0)) = some r.delivered.length ↔
      0 ∉ r.delivered ∧ r.delivered.length < 512 := by
    rw [hbuffer, strlen_padded]
    exact and_congr_right fun _ => by omega
  rw [← hstrlen]
  constructor
  · intro h
    cases hlen : strlen (r.into (List.replicate 512 0)) with
    | none =>
      simp only [adcRead, hlen, Faithful, reduceCtorEq, and_false, or_false] at h
    | some len =>
      have hle := (strlen_lt_length hlen).le
      rw [into_length (le_refl 512)] at hle
      simp only [adcRead, hlen] at h
      rw [toJava_eq (by rw [into_length (le_refl 512)]; exact hle) hle, array_faithful_iff] at h
      have hlength := congrArg List.length h
      rw [List.length_map, List.length_take, List.length_map, into_length (le_refl 512),
        Nat.min_eq_left hle] at hlength
      rw [hlength]
  · intro h
    simp only [adcRead, h]
    rw [toJava_delivered (le_refl 512)]
    exact array_faithful_iff.mpr rfl

theorem into_sensor_length : (q.into (List.replicate 10 0)).length = 10 := into_length (by decide)

/-- Six elements come back, whatever was delivered. -/
theorem sensorRead_eq :
    sensorRead charSigned q = .array (((q.into (List.replicate 10 0)).take 6).map (ofChar charSigned)) :=
  toJava_eq (by rw [into_sensor_length]; decide) (by decide)

theorem sensorRead_faithful_iff : Faithful q (sensorRead charSigned q) ↔
    q.delivered.length = 6 ∧ (charSigned → ∀ b ∈ q.delivered, b < 128) := by
  rw [sensorRead_eq, array_faithful_iff]
  have hfull (h : q.delivered.length = 6) : (q.into (List.replicate 10 0)).take 6 = q.delivered := by
    rw [ReadResult.into, List.take_left' h]
  constructor
  · intro h
    have hlength := congrArg List.length h
    rw [List.length_map, List.length_take, List.length_map, into_sensor_length] at hlength
    rw [hfull hlength.symm, List.map_inj_left] at h
    exact ⟨hlength.symm,fun hs b hb => ofChar_eq_iff.mp (h b hb) hs⟩
  · rintro ⟨hlength,hlow⟩
    rw [hfull hlength, List.map_inj_left]
    intro b hb
    exact ofChar_eq_iff.mpr fun hs => hlow hs b hb

theorem rfidRead_faithful : Faithful r (rfidRead r) := by
  unfold rfidRead
  dsimp only
  split_ifs with h
  · exact Or.inr ⟨ReadResult.value_nonpos_iff.mp h,rfl⟩
  · rw [ReadResult.value_toNat, toJava_delivered (le_refl 512)]
    exact array_faithful_iff.mpr rfl

end

/-- The drivers return what was delivered: that of the ADC when no byte is zero and the buffer is not
full, that of the sensor when six bytes came and none has its highest bit set where `char` has a
sign, that of the card reader always. -/
theorem reads_faithful_iff (charSigned : Bool) (r : ReadResult 512) (q : ReadResult 6) (p : ReadResult 512) :
    (Faithful r (adcRead r) ↔ 0 ∉ r.delivered ∧ r.delivered.length < 512) ∧
      (Faithful q (sensorRead charSigned q) ↔
        q.delivered.length = 6 ∧ (charSigned → ∀ b ∈ q.delivered, b < 128)) ∧
      Faithful p (rfidRead p) :=
  ⟨adcRead_faithful_iff,sensorRead_faithful_iff,rfidRead_faithful⟩

/-- Bytes behind a zero are lost. -/
theorem reads_unfaithful :
    ¬ ∀ (charSigned : Bool) (r : ReadResult 512) (q : ReadResult 6) (p : ReadResult 512),
      Faithful r (adcRead r) ∧ Faithful q (sensorRead charSigned q) ∧ Faithful p (rfidRead p) := by
  intro h
  have hadc := (h true (.bytes [1,0,2] (by decide)) .error .error).1
  exact (adcRead_faithful_iff.mp hadc).1 (by decide)

end AdSystem.Sensor
