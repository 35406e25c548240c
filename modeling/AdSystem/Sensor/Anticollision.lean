import AdSystem.Sensor.AnswerLength

/-! # The number of a card

A request for the type of the card looks at the length of its answer; the request for its
number does not, and shares one buffer with the answer. What an answer is too short for is
then taken from the request, or from whatever the stack held.
-/
namespace AdSystem.Sensor
open Registers

/-- What a request returns, the bytes it stored for its caller, and the chip. -/
structure Reading where
  status : Status
  out : Bytes
  chip : Chip

/-- What a local buffer and a local length hold before they are set. -/
structure Frame where
  cells : ℕ → UInt8
  unLen : ℕ

section Source
variable (chip : Chip)

def pcdRequest (reqCode : UInt8) (pTagType : Bytes) (frame : Frame) : Reading :=
  let chip := clearBitMask chip .status2Reg 0x08
  let chip := writeRawRC chip .bitFramingReg 0x07
  let chip := setBitMask chip .txControlReg 0x03
  let ucComMF522Buf := (⟨frame.cells,[]⟩ : Bytes).set 0 reqCode
  let r := pcdComMF522 chip PCD_TRANSCEIVE ucComMF522Buf.cells 1 ucComMF522Buf frame.unLen
  if r.status = .miOk ∧ r.pOutLenBit = 0x10 then
    ⟨.miOk,(pTagType.set 0 (r.pOutData.cells 0)).set 1 (r.pOutData.cells 1),r.chip⟩
  else ⟨.miErr,pTagType,r.chip⟩

/-- The buffer of `PcdAnticoll` with the request in it. -/
def anticollRequest (frame : Frame) : Bytes :=
  ((⟨frame.cells,[]⟩ : Bytes).set 0 PICC_ANTICOLL1).set 1 0x20

/-- The loop over the four bytes of the number. -/
def storeNumber (pSnr : Bytes) (cells : ℕ → UInt8) : Bytes × UInt8 :=
  (List.range 4).foldl (fun acc i => (acc.1.set i (cells i),acc.2 ^^^ cells i)) (pSnr,0)

def pcdAnticoll (pSnr : Bytes) (frame : Frame) : Reading :=
  let chip := clearBitMask chip .status2Reg 0x08
  let chip := writeRawRC chip .bitFramingReg 0x00
  let chip := clearBitMask chip .collReg 0x80
  let ucComMF522Buf := anticollRequest frame
  let r := pcdComMF522 chip PCD_TRANSCEIVE ucComMF522Buf.cells 2 ucComMF522Buf frame.unLen
  let reading :=
    if r.status = .miOk then
      let stored := storeNumber pSnr r.pOutData.cells
      if stored.2 ≠ r.pOutData.cells 4 then (Status.miErr,stored.1) else (r.status,stored.1)
    else (r.status,pSnr)
  ⟨reading.1,reading.2,setBitMask r.chip .collReg 0x80⟩

/-- The length of the number read, `UID`, and the chip. -/
def autoReader (temp : Bytes) (request anticoll again : Frame) : ℕ × Bytes × Chip :=
  let uid : Bytes := ⟨fun _ => 0,[]⟩
  let card := pcdRequest chip 0x52 temp request
  if card.status = .miOk then
    let number := pcdAnticoll card.chip uid anticoll
    if number.status = .miOk then (4,number.out,(pcdRequest number.chip 0x52 card.out again).chip)
    else (0,number.out,number.chip)
  else (0,uid,card.chip)

def readCardNum (temp : Bytes) (request anticoll again : Frame) : Option (List UInt8) :=
  let read := autoReader chip temp request anticoll again
  if read.1 ≤ 0 then none else some ((List.range read.1).map read.2.1.cells)

end Source

/-- The answer of the chip. -/
def answer (chip : Chip) : List UInt8 := (List.range (level chip).toNat).map (fifo chip)

/-- The bits of the answer. -/
def answerBits (chip : Chip) : ℕ :=
  if lastBits chip ≠ 0 then 8 * ((level chip).toNat - 1) + (lastBits chip).toNat else 8 * (level chip).toNat

/-- What the buffer of `PcdAnticoll` holds after the exchange: the bytes read out in front of the
request, which is in front of what was there. -/
def heldByte (chip : Chip) (frame : Frame) (i : ℕ) : UInt8 :=
  if i < copyLen (level chip) then fifo chip i else (anticollRequest frame).cells i

/-- The fifth byte held is the check of the four before. -/
def Checks (chip : Chip) (frame : Frame) : Prop :=
  heldByte chip frame 0 ^^^ heldByte chip frame 1 ^^^ heldByte chip frame 2 ^^^ heldByte chip frame 3 =
    heldByte chip frame 4

section
variable {chip chip' : Chip} {pSnr pTagType : Bytes} {frame : Frame}

/-- Preparing a request reads no register that the answer is taken from. -/
theorem answered_congr
    (h : ∀ r k, r ≠ .status2Reg → r ≠ .collReg → r ≠ .txControlReg →
      chip'.ahead r k = chip.ahead r k) :
    (Answered chip' ↔ Answered chip) ∧ level chip' = level chip ∧ lastBits chip' = lastBits chip ∧
      ∀ i, fifo chip' i = fifo chip i := by
  have hirq (j : ℕ) : irq chip' j = irq chip j := h _ _ (by decide) (by decide) (by decide)
  have herror : chip'.ahead .errorReg 0 = chip.ahead .errorReg 0 := h _ _ (by decide) (by decide) (by decide)
  refine ⟨?_,h _ _ (by decide) (by decide) (by decide),?_,
    fun i => h _ _ (by decide) (by decide) (by decide)⟩
  · simp only [Answered, hirq, herror]
  · rw [lastBits, lastBits, h _ _ (by decide) (by decide) (by decide)]

theorem prepareAnticoll_ahead (r : Register) (k : ℕ) (hstatus : r ≠ .status2Reg) (hcoll : r ≠ .collReg)
    (_ : r ≠ .txControlReg) :
    (clearBitMask (writeRawRC (clearBitMask chip .status2Reg 0x08) .bitFramingReg 0x00) .collReg
      0x80).ahead r k = chip.ahead r k := by
  rw [clearBitMask_ahead_of_ne hcoll, Device.write_ahead, clearBitMask_ahead_of_ne hstatus]

theorem prepareRequest_ahead (r : Register) (k : ℕ) (hstatus : r ≠ .status2Reg) (_ : r ≠ .collReg)
    (htx : r ≠ .txControlReg) :
    (setBitMask (writeRawRC (clearBitMask chip .status2Reg 0x08) .bitFramingReg 0x07) .txControlReg
      0x03).ahead r k = chip.ahead r k := by
  rw [setBitMask_ahead_of_ne htx, Device.write_ahead, clearBitMask_ahead_of_ne hstatus]

theorem storeNumber_eq (cells : ℕ → UInt8) : storeNumber pSnr cells =
    ((((pSnr.set 0 (cells 0)).set 1 (cells 1)).set 2 (cells 2)).set 3 (cells 3),
      cells 0 ^^^ cells 1 ^^^ cells 2 ^^^ cells 3) := by
  simp [storeNumber, List.range_succ]

theorem storeNumber_cells (cells : ℕ → UInt8) {i : ℕ} (h : i < 4) :
    (storeNumber pSnr cells).1.cells i = cells i := by
  rw [storeNumber_eq]
  have hcases : i = 0 ∨ i = 1 ∨ i = 2 ∨ i = 3 := by omega
  rcases hcases with rfl | rfl | rfl | rfl
  · simp [Buffer.set]
  · simp [Buffer.set]
  · simp [Buffer.set]
  · simp [Buffer.set]

/-- The exchange for the number, in terms of the chip it is asked of. -/
theorem anticoll_exchange (chip : Chip) (frame : Frame) :
    let r := pcdComMF522 (clearBitMask (writeRawRC (clearBitMask chip .status2Reg 0x08) .bitFramingReg 0x00)
      .collReg 0x80) PCD_TRANSCEIVE (anticollRequest frame).cells 2 (anticollRequest frame) frame.unLen
    (r.status = .miOk ↔ Answered chip) ∧
      (r.status = .miOk → ∀ i, r.pOutData.cells i = heldByte chip frame i) := by
  intro r
  obtain ⟨hanswered,hlevel,-,hfifo⟩ := answered_congr (@prepareAnticoll_ahead chip)
  refine ⟨(transceive_ok_iff _ _ _ _ _).trans hanswered,fun hok i => ?_⟩
  have hcells := (transceive_of_ok _ _ _ _ _ hok).2.2 i
  rw [hlevel, hfifo] at hcells
  exact hcells

/-- The number is taken when the request is answered and the bytes held check. -/
theorem pcdAnticoll_ok_iff :
    (pcdAnticoll chip pSnr frame).status = .miOk ↔ Answered chip ∧ Checks chip frame := by
  obtain ⟨hanswered,hheld⟩ := anticoll_exchange chip frame
  unfold pcdAnticoll
  dsimp only
  split_ifs with hok hcheck
  · refine iff_of_false nofun fun h => hcheck ?_
    rw [storeNumber_eq]
    simp only [hheld hok]
    exact h.2
  · dsimp only
    refine iff_of_true hok ⟨hanswered.mp hok,?_⟩
    rw [storeNumber_eq] at hcheck
    simp only [hheld hok, ne_eq, not_not] at hcheck
    exact hcheck
  · dsimp only
    exact iff_of_false hok fun h => hok (hanswered.mpr h.1)

/-- The bytes stored for the caller are those held. -/
theorem pcdAnticoll_cells (hok : (pcdAnticoll chip pSnr frame).status = .miOk) {i : ℕ} (h : i < 4) :
    (pcdAnticoll chip pSnr frame).out.cells i = heldByte chip frame i := by
  obtain ⟨hanswered,hheld⟩ := anticoll_exchange chip frame
  have hexchange := hanswered.mpr (pcdAnticoll_ok_iff.mp hok).1
  revert hok
  unfold pcdAnticoll
  dsimp only
  rw [if_pos hexchange]
  split_ifs with hcheck
  · exact nofun
  · intro _
    rw [← hheld hexchange i]
    exact storeNumber_cells _ h

theorem level_of_complete (h : 40 ≤ answerBits chip) : 5 ≤ (level chip).toNat := by
  have hlast := lastBits_lt chip
  unfold answerBits at h
  split_ifs at h <;> omega

theorem answer_of_complete (h : 40 ≤ answerBits chip) {i : ℕ} (hi : i < 5) :
    (answer chip)[i]? = some (fifo chip i) := by
  have hlevel := level_of_complete h
  rw [answer, List.getElem?_map, List.getElem?_range (by omega), Option.map_some]

/-- An answer of forty bits fills the first five bytes of the buffer. -/
theorem heldByte_of_complete (h : 40 ≤ answerBits chip) {i : ℕ} (hi : i < 5) :
    heldByte chip frame i = fifo chip i := by
  have hroom : MAXRLEN = 18 := rfl
  have hlevel := level_of_complete h
  have hne : level chip ≠ 0 := by
    intro hzero
    rw [hzero] at hlevel
    exact absurd hlevel (by decide)
  apply if_pos
  simp only [copyLen, if_neg hne]
  split_ifs <;> omega

/-- A length of sixteen bits is that of two whole bytes. -/
theorem lenBit_eq_sixteen {n b : UInt8} (hb : b.toNat < 8) (h : lenBit n b = 0x10) :
    n.toNat = 2 ∧ b = 0 := by
  by_cases hn : n = 0
  · subst hn
    by_cases hb0 : b = 0
    · subst hb0
      exact absurd h (by decide)
    · rw [lenBit_zero hb hb0] at h
      omega
  · have hpos : 1 ≤ n.toNat := Nat.one_le_iff_ne_zero.mpr fun hzero => hn (UInt8.toNat_inj.mp hzero)
    rw [lenBit_of_pos hpos hb] at h
    split_ifs at h with hb0
    · have hbpos : b.toNat ≠ 0 := fun hzero => hb0 (UInt8.toNat_inj.mp hzero)
      omega
    · exact ⟨by omega,not_not.mp hb0⟩

/-- The type of a card, unlike its number, is taken from a whole answer only. -/
theorem pcdRequest_complete {reqCode : UInt8}
    (hok : (pcdRequest chip reqCode pTagType frame).status = .miOk) :
    lastBits chip = 0 ∧ answer chip = [(pcdRequest chip reqCode pTagType frame).out.cells 0,
      (pcdRequest chip reqCode pTagType frame).out.cells 1] := by
  obtain ⟨-,hlevel,hlast,hfifo⟩ := answered_congr (@prepareRequest_ahead chip)
  revert hok
  unfold pcdRequest
  dsimp only
  split_ifs with hexchange
  · intro _
    obtain ⟨hbits,-,hcells⟩ := transceive_of_ok _ _ _ _ _ hexchange.1
    rw [hbits, hlevel, hlast] at hexchange
    obtain ⟨htwo,hzero⟩ := lenBit_eq_sixteen (lastBits_lt chip) hexchange.2
    have hne : level chip ≠ 0 := by
      intro h0
      rw [h0] at htwo
      exact absurd htwo (by decide)
    have hcopy : copyLen (level chip) = 2 := by
      rw [copyLen, if_neg hne, htwo]
      rfl
    refine ⟨hzero,?_⟩
    have hcell0 := hcells 0
    have hcell1 := hcells 1
    rw [hlevel, hfifo, hcopy] at hcell0 hcell1
    simp only [Buffer.set_cells_self, Buffer.set_cells_of_ne (show 0 ≠ 1 by decide), hcell0, hcell1]
    rw [answer, htwo]
    rfl
  · intro hok
    cases hok

theorem autoReader_length (chip : Chip) (temp : Bytes) (request anticoll again : Frame) :
    (autoReader chip temp request anticoll again).1 = 4 ∨
      (autoReader chip temp request anticoll again).1 = 0 := by
  unfold autoReader
  dsimp only
  split_ifs
  · exact Or.inl rfl
  · exact Or.inr rfl
  · exact Or.inr rfl

/-- A card number has four bytes. -/
theorem readCardNum_length {temp : Bytes} {request anticoll again : Frame} {bytes : List UInt8}
    (h : readCardNum chip temp request anticoll again = some bytes) : bytes.length = 4 := by
  have hlen := autoReader_length chip temp request anticoll again
  unfold readCardNum at h
  dsimp only at h
  split_ifs at h with hnone
  rw [← Option.some.inj h, List.length_map, List.length_range]
  omega

end

/-- A number that is accepted is the number answered, and checked against the byte after it, if
and only if an answered request has forty bits at least or the bytes held do not check. -/
theorem pcdAnticoll_complete_iff (chip : Chip) (pSnr : Bytes) (frame : Frame) :
    let r := pcdAnticoll chip pSnr frame
    (r.status = .miOk →
        40 ≤ answerBits chip ∧ (List.range 4).map r.out.cells = (answer chip).take 4 ∧
          (answer chip)[4]? = some (r.out.cells 0 ^^^ r.out.cells 1 ^^^ r.out.cells 2 ^^^ r.out.cells 3)) ↔
      (Answered chip → 40 ≤ answerBits chip ∨ ¬ Checks chip frame) := by
  intro r
  have hok : r.status = .miOk ↔ Answered chip ∧ Checks chip frame := pcdAnticoll_ok_iff
  constructor
  · intro h hanswered
    by_cases hchecks : Checks chip frame
    · exact Or.inl (h (hok.mpr ⟨hanswered,hchecks⟩)).1
    · exact Or.inr hchecks
  · intro h hr
    obtain ⟨hanswered,hchecks⟩ := hok.mp hr
    have hbits := (h hanswered).resolve_right fun hnot => hnot hchecks
    have hcell {i : ℕ} (hi : i < 4) : r.out.cells i = fifo chip i :=
      (pcdAnticoll_cells hr hi).trans (heldByte_of_complete hbits (by omega))
    have hget {i : ℕ} (hi : i < 5) : (answer chip)[i]? = some (fifo chip i) := answer_of_complete hbits hi
    refine ⟨hbits,?_,?_⟩
    · refine List.ext_getElem? fun i => ?_
      by_cases hi : i < 4
      · rw [List.getElem?_map, List.getElem?_range hi, Option.map_some, hcell hi,
          List.getElem?_take_of_lt hi, hget (by omega)]
      · rw [List.getElem?_eq_none (by simpa using hi), List.getElem?_eq_none]
        rw [List.length_take]
        omega
    · rw [hget (by omega), hcell (by omega), hcell (by omega), hcell (by omega), hcell (by omega)]
      have hheld {i : ℕ} (hi : i < 5) : heldByte chip frame i = fifo chip i :=
        heldByte_of_complete hbits hi
      rw [Checks, hheld (by omega), hheld (by omega), hheld (by omega), hheld (by omega),
        hheld (by omega)] at hchecks
      rw [hchecks]

/-- One byte of answer, and the request behind it, pass for a number. -/
theorem pcdAnticoll_incomplete :
    ¬ ∀ (chip : Chip) (pSnr : Bytes) (frame : Frame), let r := pcdAnticoll chip pSnr frame
      r.status = .miOk →
        40 ≤ answerBits chip ∧ (List.range 4).map r.out.cells = (answer chip).take 4 ∧
          (answer chip)[4]? = some (r.out.cells 0 ^^^ r.out.cells 1 ^^^ r.out.cells 2 ^^^ r.out.cells 3) := by
  intro h
  let chip : Chip := ⟨fun
    | .comIrqReg => fun _ => 0x20
    | .fifoDataReg => fun _ => 0x20
    | _ => fun _ => 0,fun _ => 0,[]⟩
  have hbits := (h chip ⟨fun _ => 0,[]⟩ ⟨fun _ => 0,0⟩ (by decide)).1
  exact absurd hbits (by decide)

end AdSystem.Sensor
