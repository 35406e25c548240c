import Mathlib.Algebra.Group.Int.Defs
import Mathlib.Data.Int.Notation
import AdSystem.Library.Registers

/-! # The card reader

The chip is driven through its registers. A command is given, the interrupt register is
polled until the answer is there, and the answer is read out of the chip's FIFO, whose
level the chip reports itself.
-/
namespace AdSystem.Sensor
open Registers

inductive Register where
  | commandReg
  | comIEnReg
  | comIrqReg
  | errorReg
  | status2Reg
  | fifoDataReg
  | fifoLevelReg
  | controlReg
  | bitFramingReg
  | collReg
  | txControlReg
  deriving DecidableEq, Repr

abbrev Chip := Device Register UInt8
abbrev Bytes := Buffer UInt8

inductive Status where
  | miOk
  | miNotagErr
  | miErr
  deriving DecidableEq, Repr

def MAXRLEN : ℕ := 18
def PCD_IDLE : UInt8 := 0x00
def PCD_AUTHENT : UInt8 := 0x0E
def PCD_TRANSCEIVE : UInt8 := 0x0C
def PICC_ANTICOLL1 : UInt8 := 0x93

/-- An `int` stored as an `unsigned int`. -/
def unsignedInt (x : ℤ) : ℕ := (x % 2 ^ 32).toNat

section Command
variable (chip : Chip)

/-- The value of a register, whichever one it is this time. -/
abbrev readRawRC (addr : Register) : UInt8 × Chip := chip.read addr

abbrev writeRawRC (addr : Register) (data : UInt8) : Chip := chip.write addr data

def setBitMask (reg : Register) (mask : UInt8) : Chip :=
  let tmp := (readRawRC chip reg).1 ||| mask
  writeRawRC (readRawRC chip reg).2 reg (tmp ||| mask)

def clearBitMask (reg : Register) (mask : UInt8) : Chip :=
  let tmp := (readRawRC chip reg).1 &&& ~~~mask
  writeRawRC (readRawRC chip reg).2 reg tmp

def irqEn (command : UInt8) : UInt8 :=
  if command = PCD_AUTHENT then 0x12
  else if command = PCD_TRANSCEIVE then 0x77
  else 0x00

def waitFor (command : UInt8) : UInt8 :=
  if command = PCD_AUTHENT then 0x10
  else if command = PCD_TRANSCEIVE then 0x30
  else 0x00

/-- The timer bit, or one that is waited for. -/
def Raised (waitFor n : UInt8) : Prop := n &&& 0x01 ≠ 0 ∨ n &&& waitFor ≠ 0

instance (waitFor : UInt8) : DecidablePred (Raised waitFor) :=
  fun n => inferInstanceAs (Decidable (n &&& 0x01 ≠ 0 ∨ n &&& waitFor ≠ 0))

/-- The number of bits, from the level of the FIFO and the bits of its last byte. -/
def lenBit (n lastBits : UInt8) : ℕ :=
  if lastBits ≠ 0 then unsignedInt (((n.toNat : ℤ) - 1) * 8 + lastBits.toNat)
  else unsignedInt (n.toNat * 8)

/-- The number of bytes read out: one at least, and what there is room for. -/
def copyLen (n : UInt8) : ℕ :=
  let n := if n = 0 then 1 else n.toNat
  if n > MAXRLEN then MAXRLEN else n

structure Exchange where
  status : Status
  pOutData : Bytes
  pOutLenBit : ℕ
  chip : Chip

/-- The part of `PcdComMF522` after the interrupt, with the interrupt bits. -/
def readAnswer (command n : UInt8) (pOutData : Bytes) (pOutLenBit : ℕ) : Exchange :=
  let error := readRawRC chip .errorReg
  if error.1 &&& 0x1B = 0 then
    let status := if n &&& irqEn command &&& 0x01 ≠ 0 then .miNotagErr else .miOk
    if command = PCD_TRANSCEIVE then
      let level := readRawRC error.2 .fifoLevelReg
      let control := readRawRC level.2 .controlReg
      let copied := control.2.fill .fifoDataReg (copyLen level.1) 0 pOutData
      ⟨status,copied.1,lenBit level.1 (control.1 &&& 0x07),copied.2⟩
    else ⟨status,pOutData,pOutLenBit,error.2⟩
  else ⟨.miErr,pOutData,pOutLenBit,error.2⟩

def sendCommand (command : UInt8) (pInData : ℕ → UInt8) (inLenByte : UInt8) : Chip :=
  let chip := writeRawRC chip .comIEnReg (irqEn command ||| 0x80)
  let chip := clearBitMask chip .comIrqReg 0x80
  let chip := writeRawRC chip .commandReg PCD_IDLE
  let chip := setBitMask chip .fifoLevelReg 0x80
  let chip := (List.range inLenByte.toNat).foldl (fun chip i => writeRawRC chip .fifoDataReg (pInData i)) chip
  let chip := writeRawRC chip .commandReg command
  if command = PCD_TRANSCEIVE then setBitMask chip .bitFramingReg 0x80 else chip

/-- The interrupt bits last read, what is left of the polls, and the chip. -/
def awaitIrq (command : UInt8) : UInt8 × ℕ × Chip := chip.poll (Raised (waitFor command)) .comIrqReg 6000

/-- The data given are all read before the first of the answer is stored, so both may be in
one buffer. -/
def pcdComMF522 (command : UInt8) (pInData : ℕ → UInt8) (inLenByte : UInt8) (pOutData : Bytes)
    (pOutLenBit : ℕ) : Exchange :=
  let polled := awaitIrq (sendCommand chip command pInData inLenByte) command
  let chip := clearBitMask polled.2.2 .bitFramingReg 0x80
  let exchange :=
    if polled.2.1 ≠ 0 then readAnswer chip command polled.1 pOutData pOutLenBit
    else ⟨.miErr,pOutData,pOutLenBit,chip⟩
  { exchange with chip := writeRawRC (setBitMask exchange.chip .controlReg 0x80) .commandReg PCD_IDLE }

end Command

section Chip
variable (chip : Chip)

/-- The interrupt bits that are polled, one time after the other. -/
def irq (j : ℕ) : UInt8 := chip.ahead .comIrqReg (j + 1)

/-- The level of the FIFO with the answer. -/
def level : UInt8 := chip.ahead .fifoLevelReg 1

def lastBits : UInt8 := chip.ahead .controlReg 0 &&& 0x07

def fifo (i : ℕ) : UInt8 := chip.ahead .fifoDataReg i

/-- What was sent is answered: among the polls but the last, the first with a raised bit does not
report the timer, and no error is reported. -/
def Answered : Prop :=
  (∃ k < 5999, (∀ j < k, ¬ Raised 0x30 (irq chip j)) ∧ Raised 0x30 (irq chip k) ∧
      irq chip k &&& 0x01 = 0) ∧
    chip.ahead .errorReg 0 &&& 0x1B = 0

end Chip

section
variable {chip : Chip} {reg r : Register} {mask command n inLenByte : UInt8} {k pOutLenBit : ℕ}
  {pInData : ℕ → UInt8} {pOutData : Bytes}

@[simp] theorem setBitMask_ahead_self : (setBitMask chip reg mask).ahead reg k = chip.ahead reg (k + 1) :=
  Device.read_ahead_self

theorem setBitMask_ahead_of_ne (h : r ≠ reg) : (setBitMask chip reg mask).ahead r k = chip.ahead r k :=
  Device.read_ahead_of_ne h

@[simp] theorem clearBitMask_ahead_self :
    (clearBitMask chip reg mask).ahead reg k = chip.ahead reg (k + 1) := Device.read_ahead_self

theorem clearBitMask_ahead_of_ne (h : r ≠ reg) : (clearBitMask chip reg mask).ahead r k = chip.ahead r k :=
  Device.read_ahead_of_ne h

theorem foldl_write_ahead (is : List ℕ) :
    (is.foldl (fun chip i => chip.write .fifoDataReg (pInData i)) chip).ahead r k = chip.ahead r k := by
  induction is generalizing chip with
  | nil => rfl
  | cons i is ih => rw [List.foldl_cons, ih, Device.write_ahead]

/-- Sending reads no register whose value matters later but the interrupt and level registers,
once each. -/
theorem sendCommand_ahead (h : r ≠ .bitFramingReg) :
    (sendCommand chip command pInData inLenByte).ahead r k =
      chip.ahead r (if r = .comIrqReg ∨ r = .fifoLevelReg then k + 1 else k) := by
  have hsent : (sendCommand chip command pInData inLenByte).ahead r k =
      (setBitMask ((clearBitMask (chip.write .comIEnReg (irqEn command ||| 0x80)) .comIrqReg 0x80).write
        .commandReg PCD_IDLE) .fifoLevelReg 0x80).ahead r k := by
    unfold sendCommand
    dsimp only
    split_ifs
    · rw [setBitMask_ahead_of_ne h, Device.write_ahead, foldl_write_ahead]
    · rw [Device.write_ahead, foldl_write_ahead]
  rw [hsent]
  by_cases hlevel : r = .fifoLevelReg
  · subst hlevel
    rw [setBitMask_ahead_self, Device.write_ahead, clearBitMask_ahead_of_ne (by decide), Device.write_ahead]
    rfl
  · rw [setBitMask_ahead_of_ne hlevel, Device.write_ahead]
    by_cases hirq : r = .comIrqReg
    · subst hirq
      rw [clearBitMask_ahead_self, Device.write_ahead]
      rfl
    · rw [clearBitMask_ahead_of_ne hirq, Device.write_ahead, if_neg (by simp [hlevel, hirq])]

/-- The same when the answer is waited for, of the registers that are read afterwards. -/
theorem awaitIrq_ahead (hirq : r ≠ .comIrqReg) (hframing : r ≠ .bitFramingReg) :
    (clearBitMask (awaitIrq (sendCommand chip command pInData inLenByte) command).2.2 .bitFramingReg
        0x80).ahead r k =
      chip.ahead r (if r = .fifoLevelReg then k + 1 else k) := by
  rw [clearBitMask_ahead_of_ne hframing, awaitIrq, Device.poll_ahead_of_ne hirq, sendCommand_ahead hframing]
  simp only [hirq, false_or]

theorem copyLen_le : copyLen n ≤ MAXRLEN := by
  unfold copyLen
  dsimp only
  generalize (if n = 0 then 1 else n.toNat) = m
  split_ifs with h
  · exact Nat.le_refl _
  · exact Nat.le_of_not_lt h

section ReadAnswer
variable (chip command n pOutData pOutLenBit)

theorem readAnswer_ok_iff : (readAnswer chip command n pOutData pOutLenBit).status = .miOk ↔
    chip.ahead .errorReg 0 &&& 0x1B = 0 ∧ n &&& irqEn command &&& 0x01 = 0 := by
  unfold readAnswer
  dsimp only
  by_cases herror : (chip.read .errorReg).1 &&& 0x1B = 0
  · have hstatus : (if n &&& irqEn command &&& 0x01 ≠ 0 then Status.miNotagErr else .miOk) = .miOk ↔
        n &&& irqEn command &&& 0x01 = 0 := by
      by_cases hbit : n &&& irqEn command &&& 0x01 = 0
      · simp [hbit]
      · simp [hbit]
    rw [if_pos herror]
    refine Iff.trans ?_ (and_iff_right herror).symm
    by_cases htrans : command = PCD_TRANSCEIVE
    · rw [if_pos htrans]
      exact hstatus
    · rw [if_neg htrans]
      exact hstatus
  · rw [if_neg herror]
    exact iff_of_false nofun fun h => herror h.1

/-- What is stored lies within the room there is. -/
theorem readAnswer_stores : ∃ m ≤ MAXRLEN,
    (readAnswer chip command n pOutData pOutLenBit).pOutData.stores = pOutData.stores ++ List.range' 0 m := by
  have hnone : pOutData.stores = pOutData.stores ++ List.range' 0 0 := by simp
  unfold readAnswer
  dsimp only
  by_cases herror : (chip.read .errorReg).1 &&& 0x1B = 0
  · rw [if_pos herror]
    by_cases htrans : command = PCD_TRANSCEIVE
    · rw [if_pos htrans]
      exact ⟨_,copyLen_le,Device.fill_stores⟩
    · rw [if_neg htrans]
      exact ⟨0,Nat.zero_le _,hnone⟩
  · rw [if_neg herror]
    exact ⟨0,Nat.zero_le _,hnone⟩

/-- Without an error the answer to a request is read out, and its length computed. -/
theorem readAnswer_transceive (herror : chip.ahead .errorReg 0 &&& 0x1B = 0) :
    (readAnswer chip PCD_TRANSCEIVE n pOutData pOutLenBit).pOutLenBit =
        lenBit (chip.ahead .fifoLevelReg 0) (chip.ahead .controlReg 0 &&& 0x07) ∧
      (readAnswer chip PCD_TRANSCEIVE n pOutData pOutLenBit).pOutData.stores =
        pOutData.stores ++ List.range' 0 (copyLen (chip.ahead .fifoLevelReg 0)) ∧
      ∀ i, (readAnswer chip PCD_TRANSCEIVE n pOutData pOutLenBit).pOutData.cells i =
        if i < copyLen (chip.ahead .fifoLevelReg 0) then chip.ahead .fifoDataReg i else pOutData.cells i := by
  have hlevel : (chip.read .errorReg).2.ahead .fifoLevelReg 0 = chip.ahead .fifoLevelReg 0 :=
    Device.read_ahead_of_ne (by decide)
  have hcontrol : ((chip.read .errorReg).2.read .fifoLevelReg).2.ahead .controlReg 0 =
      chip.ahead .controlReg 0 := by
    rw [Device.read_ahead_of_ne (by decide), Device.read_ahead_of_ne (by decide)]
  have hfifo (k : ℕ) :
      (((chip.read .errorReg).2.read .fifoLevelReg).2.read .controlReg).2.ahead .fifoDataReg k =
        chip.ahead .fifoDataReg k := by
    rw [Device.read_ahead_of_ne (by decide), Device.read_ahead_of_ne (by decide),
      Device.read_ahead_of_ne (by decide)]
  simp only [readAnswer, Device.read_fst, herror, if_true, hlevel, hcontrol]
  refine ⟨trivial,Device.fill_stores,fun i => ?_⟩
  split_ifs with hi
  · have hcell := Device.fill_cells (r := .fifoDataReg) (i := 0) (b := pOutData)
      (d := (((chip.read .errorReg).2.read .fifoLevelReg).2.read .controlReg).2) hi
    rw [Nat.zero_add, hfifo] at hcell
    exact hcell
  · exact Device.fill_cells_of_le (by omega)

end ReadAnswer

/-- For every command, the indices stored to are the first ones of the buffer. -/
theorem pcdComMF522_stores : ∃ m ≤ MAXRLEN,
    (pcdComMF522 chip command pInData inLenByte pOutData pOutLenBit).pOutData.stores =
      pOutData.stores ++ List.range' 0 m := by
  unfold pcdComMF522
  dsimp only
  split_ifs
  · exact readAnswer_stores _ _ _ _ _
  · exact ⟨0,Nat.zero_le _,by simp⟩

section Transceive
variable (chip pInData inLenByte pOutData pOutLenBit)

/-- The polls see what the interrupt register is read as after the first time. -/
theorem awaitIrq_iff (n : UInt8) :
    ((awaitIrq (sendCommand chip PCD_TRANSCEIVE pInData inLenByte) PCD_TRANSCEIVE).2.1 ≠ 0 ∧
      (awaitIrq (sendCommand chip PCD_TRANSCEIVE pInData inLenByte) PCD_TRANSCEIVE).1 = n) ↔
      ∃ k < 5999, (∀ j < k, ¬ Raised 0x30 (irq chip j)) ∧ Raised 0x30 (irq chip k) ∧ irq chip k = n := by
  have hahead (j : ℕ) :
      (sendCommand chip PCD_TRANSCEIVE pInData inLenByte).ahead .comIrqReg j = irq chip j :=
    sendCommand_ahead (by decide)
  have hwait : waitFor PCD_TRANSCEIVE = 0x30 := by decide
  rw [awaitIrq, Device.poll_iff]
  simp only [Device.Stops, hahead, hwait]
  refine exists_congr fun k => and_congr_left' ?_
  omega

theorem transceive_ok_iff :
    (pcdComMF522 chip PCD_TRANSCEIVE pInData inLenByte pOutData pOutLenBit).status = .miOk ↔
      Answered chip := by
  have hbit (n : UInt8) : n &&& irqEn PCD_TRANSCEIVE &&& 0x01 = n &&& 0x01 := by
    rw [UInt8.and_assoc]
    rfl
  have hirq := awaitIrq_iff chip inLenByte pInData
  unfold pcdComMF522 Answered
  dsimp only
  split_ifs with hi
  · rw [readAnswer_ok_iff, awaitIrq_ahead (by decide) (by decide), hbit, and_comm]
    refine and_congr_left' ⟨fun hn => ?_,?_⟩
    · obtain ⟨k,hk,hfirst,hraised,heq⟩ := (hirq _).mp ⟨hi,rfl⟩
      exact ⟨k,hk,hfirst,hraised,heq ▸ hn⟩
    · rintro ⟨k,hk,hfirst,hraised,hn⟩
      rw [((hirq _).mpr ⟨k,hk,hfirst,hraised,rfl⟩).2]
      exact hn
  · apply iff_of_false nofun
    rintro ⟨⟨k,hk,hfirst,hraised,-⟩,-⟩
    exact hi ((hirq _).mpr ⟨k,hk,hfirst,hraised,rfl⟩).1

/-- What an answered request leaves: the number of bits as computed from the level, and the bytes
of the FIFO in front of what the buffer held. -/
theorem transceive_of_ok
    (hok : (pcdComMF522 chip PCD_TRANSCEIVE pInData inLenByte pOutData pOutLenBit).status = .miOk) :
    (pcdComMF522 chip PCD_TRANSCEIVE pInData inLenByte pOutData pOutLenBit).pOutLenBit =
        lenBit (level chip) (lastBits chip) ∧
      (pcdComMF522 chip PCD_TRANSCEIVE pInData inLenByte pOutData pOutLenBit).pOutData.stores =
        pOutData.stores ++ List.range' 0 (copyLen (level chip)) ∧
      ∀ i, (pcdComMF522 chip PCD_TRANSCEIVE pInData inLenByte pOutData pOutLenBit).pOutData.cells i =
        if i < copyLen (level chip) then fifo chip i else pOutData.cells i := by
  revert hok
  unfold pcdComMF522
  dsimp only
  split_ifs with hi
  · intro hok
    have herror := ((readAnswer_ok_iff _ _ _ _ _).mp hok).1
    have hafter := readAnswer_transceive _
      (awaitIrq (sendCommand chip PCD_TRANSCEIVE pInData inLenByte) PCD_TRANSCEIVE).1 pOutLenBit pOutData
      herror
    have hlevel : (clearBitMask (awaitIrq (sendCommand chip PCD_TRANSCEIVE pInData inLenByte)
        PCD_TRANSCEIVE).2.2 .bitFramingReg 0x80).ahead .fifoLevelReg 0 = level chip :=
      awaitIrq_ahead (by decide) (by decide)
    have hcontrol : (clearBitMask (awaitIrq (sendCommand chip PCD_TRANSCEIVE pInData inLenByte)
        PCD_TRANSCEIVE).2.2 .bitFramingReg 0x80).ahead .controlReg 0 = chip.ahead .controlReg 0 :=
      awaitIrq_ahead (by decide) (by decide)
    have hfifo (i : ℕ) : (clearBitMask (awaitIrq (sendCommand chip PCD_TRANSCEIVE pInData inLenByte)
        PCD_TRANSCEIVE).2.2 .bitFramingReg 0x80).ahead .fifoDataReg i = fifo chip i :=
      awaitIrq_ahead (by decide) (by decide)
    simp only [hlevel, hcontrol, hfifo] at hafter
    exact hafter
  · exact nofun

end Transceive

end
end AdSystem.Sensor
