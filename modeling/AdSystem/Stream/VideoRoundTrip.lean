import AdSystem.Stream.AvcDemux

/-! # From the sender to the player

A sequence header gives the player the parameter sets it was made of. A picture comes back as
it was sent, unless its length looks like a start code to a player that has not met another
length before.
-/
namespace AdSystem.Stream
open BigEndian

section
variable {u rest unit frame sps pps sh : Bytes} {length n : ℕ} {c : AvcCodec} {sample : CodecSample}

theorem demuxParameterSet_written (hu : u.length < 2 ^ 16) :
    demuxParameterSet (0x01 :: bytes 2 u.length ++ u ++ rest) length unit =
      (0,u.length,if 0 < u.length then u else unit,rest) := by
  have htake : (bytes 2 u.length ++ (u ++ rest)).take 2 = bytes 2 u.length :=
    List.take_left' (length_bytes 2 u.length)
  have hdrop : (bytes 2 u.length ++ (u ++ rest)).drop 2 = u ++ rest :=
    List.drop_left' (length_bytes 2 u.length)
  have hvalue : value (bytes 2 u.length) = u.length := value_bytes_of_lt (by simpa using hu)
  simp only [demuxParameterSet, List.cons_append, List.append_assoc, List.headD_cons, List.drop_succ_cons,
    List.drop_zero, htake, hdrop, hvalue, List.take_left, List.drop_left]
  have hone : (0x01 : UInt8) &&& 0x1f = 1 := by decide
  have hlen : ¬ (bytes 2 u.length ++ (u ++ rest)).length < 2 := by
    rw [List.length_append, length_bytes]
    omega
  have hrest : ¬ (u ++ rest).length < u.length := by
    rw [List.length_append]
    omega
  rw [if_neg (List.cons_ne_nil _ _), if_neg (not_not.mpr hone), if_neg hlen, if_neg hrest]

/-- The codec of a player that has read a sequence header. -/
def AvcCodec.configured (c : AvcCodec) (sps pps sh : Bytes) : AvcCodec :=
  {c with
    nalUnitLength := 3
    sequenceParameterSetLength := sps.length
    sequenceParameterSetNALUnit := sps
    pictureParameterSetLength := pps.length
    pictureParameterSetNALUnit := if 0 < pps.length then pps else c.pictureParameterSetNALUnit
    avcExtraSize := sh.length
    videoCodecId := codecAVC}

theorem avcDemuxSpsPps_written (d : Bytes → ℤ) (h : muxSequenceHeader sps pps = some sh)
    (hsps : sps.length < 2 ^ 16) (hpps : pps.length < 2 ^ 16) :
    avcDemuxSpsPps d {c with videoCodecId := codecAVC} sh = (d sps,c.configured sps pps sh) := by
  rw [muxSequenceHeader] at h
  split at h
  · cases h
  · rename_i hlen
    obtain rfl := Option.some.inj h
    have hfour : (0x03 : UInt8) &&& 0x03 = 3 := by decide
    have hdrop : ([0x01,sps.getD 1 0,0x00,sps.getD 3 0,0x03] ++ 0x01 :: bytes 2 sps.length ++ sps ++
        0x01 :: bytes 2 pps.length ++ pps).drop 5 =
        0x01 :: bytes 2 sps.length ++ sps ++ (0x01 :: bytes 2 pps.length ++ pps ++ []) := by simp
    have hpos : 0 < sps.length := by omega
    unfold avcDemuxSpsPps
    simp only [hdrop, demuxParameterSet_written hsps, demuxParameterSet_written hpps]
    simp [hfour, hpos, AvcCodec.configured]
    rw [if_neg (by omega), if_neg (List.ne_nil_of_length_pos hpos)]

theorem frameType_byte {frameType : UInt8} (h : frameType = frameKey ∨ frameType = frameInter) :
    ((frameType <<< 4 ||| codecAVC) >>> 4) &&& 0x0f = frameType ∧
      (frameType <<< 4 ||| codecAVC) &&& 0x0f = codecAVC ∧ frameType ≠ frameVideoInfo := by
  rcases h with rfl | rfl <;> decide

/-- What is read behind the five bytes of the FLV header. -/
theorem videoAvcDemux_muxed (d : Bytes → ℤ) {video : Bytes} {frameType avcPacketType : UInt8} (dts pts : UInt32)
    (h : frameType = frameKey ∨ frameType = frameInter) :
    videoAvcDemux d c (muxAvc2flv video frameType avcPacketType dts pts) =
      if avcPacketType = avcSequenceHeader then
        ((avcDemuxSpsPps d {c with videoCodecId := codecAVC} video).1,
          (avcDemuxSpsPps d {c with videoCodecId := codecAVC} video).2,⟨frameType,avcPacketType,false,[]⟩)
      else if avcPacketType = avcNALU then
        if c.avcExtraSize = 0 then (0,{c with videoCodecId := codecAVC},⟨frameType,avcPacketType,false,[]⟩)
        else demuxNalus {c with videoCodecId := codecAVC} video ⟨frameType,avcPacketType,false,[]⟩
      else (0,{c with videoCodecId := codecAVC},⟨frameType,avcPacketType,false,[]⟩) := by
  obtain ⟨htype,hcodec,hinfo⟩ := frameType_byte h
  have hlen := length_bytes 3 (pts - dts).toNat
  have hdrop : (avcPacketType :: (bytes 3 (pts - dts).toNat ++ video)).drop 4 = video := by
    rw [List.drop_succ_cons, List.drop_left' hlen]
  have hlen4 : ¬ (avcPacketType :: (bytes 3 (pts - dts).toNat ++ video)).length < 4 := by
    rw [List.length_cons, List.length_append, hlen]
    omega
  rw [muxAvc2flv, List.cons_append, List.cons_append]
  simp only [videoAvcDemux, htype, hcodec, if_neg hinfo, ne_eq, not_true_eq_false, if_false, if_neg hlen4, hdrop,
    List.headD_cons, CodecSample.new]

theorem videoAvcDemux_header (d : Bytes → ℤ) (dts pts : UInt32) (h : muxSequenceHeader sps pps = some sh)
    (hsps : sps.length < 2 ^ 16) (hpps : pps.length < 2 ^ 16) :
    videoAvcDemux d c (muxAvc2flv sh frameKey avcSequenceHeader dts pts) =
      (d sps,c.configured sps pps sh,⟨frameKey,avcSequenceHeader,false,[]⟩) := by
  rw [videoAvcDemux_muxed d dts pts (.inl rfl), if_pos rfl, avcDemuxSpsPps_written d h hsps hpps]

/-- A length that begins like a start code. -/
def looksLikeCode (n : ℕ) : Prop := n = 1 ∨ 256 ≤ n ∧ n < 512

instance (n : ℕ) : Decidable (looksLikeCode n) := inferInstanceAs (Decidable (_ ∨ _))

theorem ofNat_eq_iff {m k : ℕ} (hk : k < 256) : UInt8.ofNat m = UInt8.ofNat k ↔ m % 256 = k := by
  have hk' : k % 2 ^ 8 = k := Nat.mod_eq_of_lt hk
  rw [← UInt8.toNat_inj, UInt8.toNat_ofNat', UInt8.toNat_ofNat', hk']

theorem startswith_length (hpos : 0 < n) (hn : n < 2 ^ 32) (frame : Bytes) :
    srsAvcStartswithAnnexb (bytes 4 n ++ frame) =
      if n = 1 then some 4 else if 256 ≤ n ∧ n < 512 then some 3 else none := by
  have hbytes : bytes 4 n ++ frame = UInt8.ofNat (n / 256 / 256 / 256) :: UInt8.ofNat (n / 256 / 256) ::
    UInt8.ofNat (n / 256) :: UInt8.ofNat n :: frame := rfl
  have h3 : UInt8.ofNat (n / 256 / 256 / 256) = 0 ↔ n / 256 / 256 / 256 % 256 = 0 := ofNat_eq_iff (by decide)
  have h2 : UInt8.ofNat (n / 256 / 256) = 0 ↔ n / 256 / 256 % 256 = 0 := ofNat_eq_iff (by decide)
  have h1 : UInt8.ofNat (n / 256) = 0 ↔ n / 256 % 256 = 0 := ofNat_eq_iff (by decide)
  have h1' : UInt8.ofNat (n / 256) = 1 ↔ n / 256 % 256 = 1 := ofNat_eq_iff (by decide)
  have h0 : UInt8.ofNat n = 0 ↔ n % 256 = 0 := ofNat_eq_iff (by decide)
  have h0' : UInt8.ofNat n = 1 ↔ n % 256 = 1 := ofNat_eq_iff (by decide)
  rw [hbytes, srsAvcStartswithAnnexb]
  simp only [ne_eq, h3, h2, h1']
  by_cases hbig : 65536 ≤ n
  · rw [if_pos (by omega), if_neg (by omega), if_neg (by omega)]
  · rw [if_neg (by omega)]
    by_cases hmid : 256 ≤ n ∧ n < 512
    · rw [if_pos (by omega), if_neg (by omega), if_pos hmid]
    · -- the second byte begins the next attempt
      rw [if_neg (by omega), srsAvcStartswithAnnexb]
      simp only [ne_eq, h2, h1, h0']
      by_cases hone : n = 1
      · rw [if_neg (by omega), if_pos (by omega), if_pos hone]
        rfl
      · rw [if_neg hone, if_neg hmid]
        by_cases hsmall : n < 256
        · rw [if_neg (by omega), if_neg (by omega)]
          cases frame with
          | nil => rfl
          | cons b frame =>
            rw [srsAvcStartswithAnnexb]
            simp only [ne_eq, h1, h0]
            rw [if_pos (by omega)]
            rfl
        · rw [if_pos (by omega)]
          rfl

/-- The sample of one unit. -/
def CodecSample.single (frameType : UInt8) (frame : Bytes) : CodecSample :=
  ⟨frameType,avcNALU,decide (nalType (frame.headD 0) = nalIDR),[frame]⟩

theorem addSampleUnit_single (frameType : UInt8) (frame rest : Bytes) (hne : frame ≠ []) :
    addSampleUnit ⟨frameType,avcNALU,false,[]⟩ (frame ++ rest) frame.length = (0,.single frameType frame) := by
  obtain ⟨b,frame,rfl⟩ := List.exists_cons_of_ne_nil hne
  have hmax : ¬ maxCodecSample ≤ ([] : List Bytes).length := by decide
  rw [addSampleUnit, if_neg hmax, List.take_left]
  rfl

theorem avcDemuxIbmfFormat_written (hc : c.nalUnitLength = 3) (hne : frame ≠ []) (hlen : frame.length < 2 ^ 31)
    (frameType : UInt8) :
    avcDemuxIbmfFormat c (muxIpbFrame frame) ⟨frameType,avcNALU,false,[]⟩ = (0,.single frameType frame) := by
  have hpos := List.length_pos_iff.mpr hne
  have hvalue : value (bytes 4 frame.length) = frame.length :=
    value_bytes_of_lt (hlen.trans (by decide))
  have htotal : (bytes 4 frame.length ++ frame).length = frame.length + 3 + 1 := by
    rw [List.length_append, length_bytes]
    omega
  have htake : (bytes 4 frame.length ++ frame).take 4 = bytes 4 frame.length := List.take_left' (length_bytes _ _)
  have hdrop : (bytes 4 frame.length ++ frame).drop 4 = frame := List.drop_left' (length_bytes _ _)
  have hadd := addSampleUnit_single frameType frame [] hne
  rw [List.append_nil] at hadd
  rw [avcDemuxIbmfFormat, muxIpbFrame, hc, htotal, ibmfUnits, if_neg (by omega), htotal, if_neg (by omega)]
  simp only [lengthWidth, if_true, htake, hvalue, hdrop]
  rw [if_neg (by omega), if_neg (by omega), hadd]
  simp only [ne_eq, not_true_eq_false, if_false]
  rw [ibmfUnits, if_pos (by omega)]

theorem lastMatched_clean {bs : Bytes} (h : ∀ i, i < bs.length → srsAvcStartswithAnnexb (bs.drop i) = none) :
    lastMatched bs = (bs,[]) := by
  induction bs with
  | nil => rfl
  | cons b bs ih =>
    have hhead := h 0 (by simp)
    rw [List.drop_zero] at hhead
    rw [lastMatched, hhead, ih fun i hi => h (i + 1) (by simpa using hi)]
    rfl

/-- What a player takes for the unit, and the format it goes on with: a length that looks like a
start code hides the unit, or all of it but the length's last byte, until another length is met. -/
def takenUnit (format : PayloadFormat) (frame : Bytes) : Bytes :=
  if format ≠ .ibmf ∧ 256 ≤ frame.length ∧ frame.length < 512 then UInt8.ofNat frame.length :: frame else frame

def nextFormat (format : PayloadFormat) (frame : Bytes) : PayloadFormat :=
  if format ≠ .ibmf ∧ looksLikeCode frame.length then .annexb else .ibmf

/-- No start code begins in the bytes, and they do not begin with a zero. -/
def codeFree (bs : Bytes) : Prop :=
  bs.headD 0 ≠ 0 ∧ ∀ i, i < bs.length → srsAvcStartswithAnnexb (bs.drop i) = none

theorem codeFree.cons {bs : Bytes} (h : codeFree bs) (b : UInt8) :
    ∀ i, i < (b :: bs).length → srsAvcStartswithAnnexb ((b :: bs).drop i) = none := by
  intro i hi
  cases i with
  | succ i => exact h.2 i (by simpa using hi)
  | zero =>
    rw [List.drop_zero]
    rcases bs with _ | ⟨b0,_ | ⟨b1,bs⟩⟩
    · rfl
    · rfl
    · rw [srsAvcStartswithAnnexb, if_pos (.inr h.1)]

theorem avcDemuxAnnexbFormat_code {code : ℕ} {stream unit : Bytes} (hcode : srsAvcStartswithAnnexb stream = some code)
    (hunit : stream.drop code = unit) (hne : unit ≠ [])
    (hclean : ∀ i, i < unit.length → srsAvcStartswithAnnexb (unit.drop i) = none) (frameType : UInt8) :
    avcDemuxAnnexbFormat stream ⟨frameType,avcNALU,false,[]⟩ = (0,.single frameType unit) := by
  have hadd := addSampleUnit_single frameType unit [] hne
  rw [List.append_nil] at hadd
  have hlen : stream.length ≠ 0 := by
    rintro h
    rw [List.length_eq_zero_iff] at h
    rw [h, List.drop_nil] at hunit
    exact hne hunit.symm
  obtain ⟨fuel,hfuel⟩ := Nat.exists_eq_succ_of_ne_zero hlen
  rw [avcDemuxAnnexbFormat, hcode, if_neg (Option.some_ne_none _), hfuel, annexbUnits]
  simp only [hcode, hunit, lastMatched_clean hclean, if_neg hne, hadd, ne_eq, not_true_eq_false, if_false]
  cases fuel <;> rfl

/-- What is taken for the unit of a message, whatever lengths were met before. -/
theorem demuxNalus_written (hc : c.nalUnitLength = 3) (hne : frame ≠ []) (hlen : frame.length < 2 ^ 31)
    (hclean : c.payloadFormat ≠ .ibmf → looksLikeCode frame.length → codeFree frame) (frameType : UInt8) :
    demuxNalus c (muxIpbFrame frame) ⟨frameType,avcNALU,false,[]⟩ =
      (0,{c with payloadFormat := nextFormat c.payloadFormat frame},
        .single frameType (takenUnit c.payloadFormat frame)) := by
  have hpos := List.length_pos_iff.mpr hne
  have hibmf := avcDemuxIbmfFormat_written hc hne hlen frameType
  have hstart := startswith_length hpos (hlen.trans (by decide)) frame
  rw [← muxIpbFrame] at hstart
  unfold demuxNalus
  simp only [hibmf, ne_eq, not_true_eq_false, if_false]
  by_cases hformat : c.payloadFormat = .ibmf
  · simp [hformat, nextFormat, takenUnit]
  · rw [if_neg hformat]
    by_cases hlooks : looksLikeCode frame.length
    · have hfree := hclean hformat hlooks
      have hannexb : avcDemuxAnnexbFormat (muxIpbFrame frame) ⟨frameType,avcNALU,false,[]⟩ =
          (0,.single frameType (takenUnit c.payloadFormat frame)) := by
        rcases hlooks with hone | hmid
        · rw [if_pos hone] at hstart
          have hdrop : (muxIpbFrame frame).drop 4 = frame := List.drop_left' (length_bytes _ _)
          rw [avcDemuxAnnexbFormat_code hstart hdrop hne hfree.2, takenUnit, if_neg (by omega)]
        · rw [if_neg (by omega), if_pos hmid] at hstart
          have hdrop : (muxIpbFrame frame).drop 3 = UInt8.ofNat frame.length :: frame := rfl
          rw [avcDemuxAnnexbFormat_code hstart hdrop (List.cons_ne_nil _ _) (hfree.cons _), takenUnit,
            if_pos ⟨hformat,hmid⟩]
      have hother : (0 : ℤ) ≠ errorHlsAvcTryOthers := by decide
      simp only [hannexb, if_neg hother, not_true_eq_false, if_false]
      rw [nextFormat, if_pos ⟨hformat,hlooks⟩]
    · have hnone : srsAvcStartswithAnnexb (muxIpbFrame frame) = none := by
        rw [hstart, if_neg fun h => hlooks (.inl h), if_neg fun h => hlooks (.inr h)]
      simp only [avcDemuxAnnexbFormat, hnone, if_true]
      rw [nextFormat, if_neg fun h => hlooks h.2, takenUnit, if_neg fun h => hlooks (.inr h.2)]

end
end AdSystem.Stream
