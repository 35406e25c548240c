import AdSystem.Library.BigEndian

/-! # Start codes of an H.264 byte stream

In the byte stream an encoder puts out, a unit follows two or more zeros and a one. The
bytes of a unit never look like that, so that its end can be found; where a count of bytes
stands before the unit instead, nothing keeps the count from looking like a start code.
-/
namespace AdSystem.Stream

abbrev Bytes := List UInt8

/-- The low five bits of a unit's first byte. -/
def nalType (b : UInt8) : UInt8 := b &&& 0x1f

def nalNonIDR : UInt8 := 1
def nalIDR : UInt8 := 5
def nalSEI : UInt8 := 6
def nalSPS : UInt8 := 7
def nalPPS : UInt8 := 8
def nalAccessUnitDelimiter : UInt8 := 9

/-- A byte stream is what is left of it. The length of the start code it begins with. -/
def srsAvcStartswithAnnexb : Bytes → Option ℕ
  | b0 :: b1 :: b2 :: rest =>
    if b0 ≠ 0 ∨ b1 ≠ 0 then none
    else if b2 = 1 then some 3
    else (srsAvcStartswithAnnexb (b1 :: b2 :: rest)).map (· + 1)
  | _ => none

def errorKernelStreamInit : ℤ := 3038
def errorHlsDecode : ℤ := 3001
def errorHlsAvcTryOthers : ℤ := 3040
def errorH264ApiNoPrefixed : ℤ := 3041
def errorH264DropBeforeSpsPps : ℤ := 3043
def errorH264DuplicatedSps : ℤ := 3044
def errorH264DuplicatedPps : ℤ := 3045

/-- The frame behind the start code, and what is left of the stream: the frame is all of it. -/
def annexbDemuxPri (stream : Bytes) : Except ℤ (Bytes × Bytes) :=
  if stream.isEmpty then .ok ([],[])
  else
    match srsAvcStartswithAnnexb stream with
    | none => .error errorH264ApiNoPrefixed
    | some code => .ok (stream.drop code,[])

/-- The start codes that encoders write. -/
inductive StartCode
  | short
  | long
deriving DecidableEq, Repr

def StartCode.bytes : StartCode → Bytes
  | .short => [0,0,1]
  | .long => [0,0,0,1]

/-- Where the sender looks for a start code, it asks these two questions. -/
def startsCode (bs : Bytes) : Prop :=
  [0,0,0,1] <+: bs ∨ [0,0,1] <+: bs

instance (bs : Bytes) : Decidable (startsCode bs) := inferInstanceAs (Decidable (_ ∨ _))

/-- A unit as it may stand in a byte stream: three bytes of it are never two zeros and then a zero
or a one, and its last byte is not a zero. -/
structure NalUnit where
  header : UInt8
  payload : Bytes
  clean : ∀ i b, [0,0,b] <+: (header :: payload).drop i → 1 < b
  last_ne_zero : (header :: payload).getLast (List.cons_ne_nil _ _) ≠ 0

namespace NalUnit
variable (u v : NalUnit)

def bytes : Bytes := u.header :: u.payload

def type : UInt8 := nalType u.header

/-- No start code begins in a unit, whatever follows it. -/
theorem not_startsCode {i : ℕ} (hi : i < u.bytes.length) (rest : Bytes) :
    ¬ startsCode (u.bytes.drop i ++ rest) := by
  have hne : u.bytes.drop i ≠ [] := by
    rw [← List.length_pos_iff, List.length_drop]
    omega
  have hlast : (u.bytes.drop i).getLast hne ≠ 0 := by
    rw [List.getLast_drop]
    exact u.last_ne_zero
  have hclean := u.clean i
  rw [← bytes] at hclean
  -- a code would end inside the unit, where it is excluded, or take the last byte for a zero
  revert hne hlast hclean
  generalize u.bytes.drop i = bs
  intro hne hlast hclean hcode
  rcases bs with _ | ⟨b0,_ | ⟨b1,_ | ⟨b2,bs⟩⟩⟩
  · exact hne rfl
  · simp only [startsCode, List.cons_append, List.nil_append, List.cons_prefix_cons] at hcode
    rcases hcode with ⟨h,_⟩ | ⟨h,_⟩ <;> exact hlast h.symm
  · simp only [startsCode, List.cons_append, List.nil_append, List.cons_prefix_cons] at hcode
    rcases hcode with ⟨_,h,_⟩ | ⟨_,h,_⟩ <;> exact hlast h.symm
  · simp only [startsCode, List.cons_append, List.cons_prefix_cons] at hcode
    rcases hcode with ⟨rfl,rfl,rfl,_⟩ | ⟨rfl,rfl,rfl,_⟩
    · exact absurd (hclean 0 (by simp)) (by decide)
    · exact absurd (hclean 1 (by simp)) (by decide)

end NalUnit

theorem StartCode.startsCode (c : StartCode) (rest : Bytes) : startsCode (c.bytes ++ rest) := by
  cases c
  · exact .inr ⟨rest,rfl⟩
  · exact .inl ⟨rest,rfl⟩

theorem StartCode.startswith (c : StartCode) (rest : Bytes) :
    srsAvcStartswithAnnexb (c.bytes ++ rest) = some c.bytes.length := by
  cases c <;> rfl

/-- The frame behind a start code is demuxed unchanged. -/
theorem annexbDemuxPri_code (c : StartCode) (frame : Bytes) :
    annexbDemuxPri (c.bytes ++ frame) = .ok (frame,[]) := by
  have hne : (c.bytes ++ frame).isEmpty = false := by cases c <;> rfl
  simp only [annexbDemuxPri, hne, Bool.false_eq_true, if_false, c.startswith, List.drop_left]

/-- One turn of the sender's loop leaves nothing to the next. -/
theorem annexbDemuxPri_left {stream frame left : Bytes} (h : annexbDemuxPri stream = .ok (frame,left)) :
    left = [] := by
  unfold annexbDemuxPri at h
  split at h
  · cases h
    rfl
  · split at h
    · cases h
    · cases h
      rfl

end AdSystem.Stream
