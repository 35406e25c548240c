import Mathlib.Algebra.Group.Nat.Defs
import AdSystem.Sensor.Rc522

/-! # The length reported for an answer

The number of bits is computed from the level of the FIFO before the level is confined to
what there is room for, and what is there. The two agree for the levels from one to the room;
past that the length counts bytes that were never read, and below it wraps round.
-/
namespace AdSystem.Sensor
open Registers

/-- There is room for the answer, and if it is empty its last byte is not called a part of one. -/
def LevelFits (chip : Chip) : Prop :=
  1 ≤ (level chip).toNat ∧ (level chip).toNat ≤ MAXRLEN ∨ level chip = 0 ∧ lastBits chip = 0

section
variable {chip : Chip} {n b : UInt8}

theorem unsignedInt_of_nonneg {x : ℤ} (h : 0 ≤ x) (hlt : x < 2 ^ 32) : unsignedInt x = x.toNat := by
  rw [unsignedInt, Int.emod_eq_of_lt h hlt]

theorem lastBits_lt (chip : Chip) : (lastBits chip).toNat < 8 := by
  rw [lastBits, UInt8.toNat_and]
  exact Nat.lt_succ_of_le Nat.and_le_right

/-- The length where there is a byte. -/
theorem lenBit_of_pos (h : 1 ≤ n.toNat) (hb : b.toNat < 8) :
    lenBit n b = if b ≠ 0 then 8 * (n.toNat - 1) + b.toNat else 8 * n.toNat := by
  have hn := n.toNat_lt
  unfold lenBit
  split_ifs with hzero
  · rw [unsignedInt_of_nonneg (by omega) (by omega)]
    omega
  · rw [unsignedInt_of_nonneg (by omega) (by omega)]
    omega

/-- An empty answer with a part of a byte has almost the greatest length there is. -/
theorem lenBit_zero (hb : b.toNat < 8) (hne : b ≠ 0) : lenBit 0 b = 2 ^ 32 - 8 + b.toNat := by
  have hpos : b.toNat ≠ 0 := fun h => hne (UInt8.toNat_inj.mp h)
  rw [lenBit, if_pos hne, unsignedInt]
  have hzero : (0 : UInt8).toNat = 0 := rfl
  rw [hzero]
  omega

theorem lenBit_le_iff (hb : b.toNat < 8) :
    lenBit n b ≤ 8 * copyLen n ↔ 1 ≤ n.toNat ∧ n.toNat ≤ MAXRLEN ∨ n = 0 ∧ b = 0 := by
  have hroom : MAXRLEN = 18 := rfl
  by_cases hn : n = 0
  · subst hn
    have hzero : (0 : UInt8).toNat = 0 := rfl
    have hcopy : copyLen 0 = 1 := rfl
    by_cases hb0 : b = 0
    · subst hb0
      exact iff_of_true (by decide) (Or.inr ⟨rfl,rfl⟩)
    · rw [lenBit_zero hb hb0, hcopy, hzero]
      refine iff_of_false (by omega) ?_
      rintro (⟨hpos,_⟩ | ⟨_,h⟩)
      · omega
      · exact hb0 h
  · have hpos : 1 ≤ n.toNat := Nat.one_le_iff_ne_zero.mpr fun h => hn (UInt8.toNat_inj.mp h)
    have hor : (1 ≤ n.toNat ∧ n.toNat ≤ MAXRLEN ∨ n = 0 ∧ b = 0) ↔ n.toNat ≤ MAXRLEN := by
      simp [hn, hpos]
    have hcopy : copyLen n = if n.toNat > MAXRLEN then MAXRLEN else n.toNat := by
      rw [copyLen, if_neg hn]
    rw [lenBit_of_pos hpos hb, hor, hcopy]
    by_cases hb0 : b = 0
    · rw [if_neg (by simp [hb0])]
      split_ifs <;> omega
    · have hbpos : b.toNat ≠ 0 := fun h => hb0 (UInt8.toNat_inj.mp h)
      rw [if_pos hb0]
      split_ifs <;> omega

end

/-- What is stored stays within the room for every command; the length of an answered request
is at most that of the bytes copied exactly when the level fits. -/
theorem answerLength_iff (chip : Chip) (command : UInt8) (pInData : ℕ → UInt8) (inLenByte : UInt8)
    (cells : ℕ → UInt8) (pOutLenBit : ℕ) :
    let r := pcdComMF522 chip command pInData inLenByte ⟨cells,[]⟩ pOutLenBit
    ((∀ i ∈ r.pOutData.stores, i < MAXRLEN) ∧
        (command = PCD_TRANSCEIVE → r.status = .miOk → r.pOutLenBit ≤ 8 * r.pOutData.stores.length)) ↔
      (command = PCD_TRANSCEIVE → Answered chip → LevelFits chip) := by
  intro r
  have hroom : ∀ i ∈ r.pOutData.stores, i < MAXRLEN := by
    obtain ⟨m,hm,hstores⟩ : ∃ m ≤ MAXRLEN, r.pOutData.stores = [] ++ List.range' 0 m := pcdComMF522_stores
    intro i hi
    rw [hstores, List.nil_append, List.mem_range'_1] at hi
    omega
  refine (and_iff_right hroom).trans (forall_congr' fun hcommand => ?_)
  subst hcommand
  have hok : r.status = .miOk ↔ Answered chip := transceive_ok_iff chip inLenByte pOutLenBit pInData _
  have hlen (h : r.status = .miOk) : r.pOutLenBit ≤ 8 * r.pOutData.stores.length ↔ LevelFits chip := by
    obtain ⟨hbits,hstores,-⟩ := transceive_of_ok chip inLenByte pOutLenBit pInData _ h
    have hcopied : r.pOutData.stores.length = copyLen (level chip) := by
      rw [hstores, List.nil_append, List.length_range']
    rw [hbits, hcopied]
    exact lenBit_le_iff (lastBits_lt chip)
  rw [← hok]
  exact forall_congr' hlen

/-- A chip that answers at once with nineteen bytes. -/
theorem answerLength_exceeds :
    ¬ ∀ (chip : Chip) (command : UInt8) (pInData : ℕ → UInt8) (inLenByte : UInt8) (cells : ℕ → UInt8)
      (pOutLenBit : ℕ), let r := pcdComMF522 chip command pInData inLenByte ⟨cells,[]⟩ pOutLenBit
      (∀ i ∈ r.pOutData.stores, i < MAXRLEN) ∧
        (command = PCD_TRANSCEIVE → r.status = .miOk → r.pOutLenBit ≤ 8 * r.pOutData.stores.length) := by
  intro h
  let chip : Chip := ⟨fun
    | .comIrqReg => fun _ => 0x20
    | .fifoLevelReg => fun _ => 19
    | _ => fun _ => 0,fun _ => 0,[]⟩
  have hlen := (h chip PCD_TRANSCEIVE (fun _ => 0) 1 (fun _ => 0) 0).2 rfl
  exact absurd (hlen (by decide)) (by decide)

end AdSystem.Sensor
