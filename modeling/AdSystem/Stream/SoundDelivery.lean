import Mathlib.Data.List.Forall2
import AdSystem.Stream.AacDemux

/-! # Sounds from the sender to the player

The header that the player puts before a frame tells what the first frame's header told, but
for the sample rate, which is the one the sender's application has set.
-/
namespace AdSystem.Stream
open BigEndian

theorem value_two (a b : UInt8) : value [a,b] = 256 * a.toNat + b.toNat := by simp [value]

theorem value_three (a b c : UInt8) : value [a,b,c] = 256 * (256 * a.toNat + b.toNat) + c.toNat := by simp [value]

section
variable {c : AacCodec} {raw : Bytes} {n : ℕ}

theorem length_adtsHeader : (adtsHeader c n).length = 7 := rfl

/-- The player's header is read back. -/
theorem adtsDemux_adtsHeader (hraw : raw.length < 2 ^ 13 - 7) :
    adtsDemux (adtsHeader c raw.length ++ raw) =
      .ok ⟨srsCodecAacTs2rtmp (srsCodecAacRtmp2ts c.aacObject % 4),c.aacSampleRate % 16,c.aacChannels % 8,
        raw.length,7⟩ := by
  have hlen : (adtsHeader c raw.length ++ raw).length = raw.length + 7 := by
    rw [List.length_append, length_adtsHeader, Nat.add_comm]
  have hsync : (0xf9 : UInt8) &&& 0xf0 = 0xf0 := by decide
  have hstarts : srsAacStartswithAdts (adtsHeader c raw.length ++ raw) := ⟨by omega,rfl,hsync⟩
  have hone : (adtsHeader c raw.length ++ raw).getD 1 0 = 0xf9 := rfl
  have hb1 : ((adtsHeader c raw.length ++ raw).getD 1 0).toNat % 2 = 1 := by rw [hone]; decide
  have hsfiv : value (((adtsHeader c raw.length ++ raw).drop 2).take 2) =
      256 * (srsCodecAacRtmp2ts c.aacObject % 4 * 64 + c.aacSampleRate % 16 * 4 + c.aacChannels / 4 % 2) +
        (c.aacChannels % 4 * 64 + (raw.length + 7) / 2048 % 4) := by
    refine (value_two _ _).trans ?_
    rw [UInt8.toNat_ofNat', UInt8.toNat_ofNat']
    omega
  have habfv : value (((adtsHeader c raw.length ++ raw).drop 4).take 3) =
      256 * (256 * ((raw.length + 7) / 8 % 256) + ((raw.length + 7) % 8 * 32 + 31)) + 252 := by
    refine (value_three _ _ _).trans ?_
    have hlast : (0xfc : UInt8).toNat = 252 := rfl
    rw [UInt8.toNat_ofNat', UInt8.toNat_ofNat', hlast]
    omega
  rw [adtsDemux, if_neg (by omega), if_neg (not_not.mpr hstarts)]
  simp only [hb1, hsfiv, habfv, hlen, Nat.one_ne_zero, if_false]
  rw [if_neg (by omega), if_neg (by omega)]
  congr 2
  · congr 1; omega
  · omega
  · omega
  · omega

end

/-- A buffer of the encoder: one frame, all of it there, short enough for the player. -/
structure AacFrame where
  bytes : Bytes
  adts : AdtsFrame
  raw : Bytes
  demux : adtsDemux bytes = .ok adts
  raw_eq : bytes.drop adts.headerSize = raw
  size_eq : adts.rawDataSize = raw.length
  raw_ne_nil : raw ≠ []
  fits : raw.length + 7 ≤ audioPayloadSize

def AacFrame.codec (format : SoundFormat) (f : AacFrame) : RawAacStreamCodec := {
  aacObject := f.adts.aacObject
  samplingFrequencyIndex := f.adts.samplingFrequencyIndex
  channelConfiguration := f.adts.channelConfiguration
  soundFormat := format.soundFormat
  soundRate := format.soundRate
  soundSize := format.soundSize
  soundType := format.soundType
  aacPacketType := 0 }

theorem AacFrame.startswith (f : AacFrame) : srsAacStartswithAdts f.bytes ∧ 7 ≤ f.bytes.length := by
  have h := f.demux
  rw [adtsDemux] at h
  split at h
  · cases h
  · split at h
    · cases h
    · rename_i hlen hstarts
      exact ⟨not_not.mp hstarts,by omega⟩

/-- The fields of a header have the widths of their bits. -/
theorem AacFrame.field_lt (f : AacFrame) :
    f.adts.aacObject ≤ 3 ∧ f.adts.samplingFrequencyIndex < 16 ∧ f.adts.channelConfiguration < 8 := by
  have hobject (profile : ℕ) : srsCodecAacTs2rtmp profile ≤ 3 := by
    rw [srsCodecAacTs2rtmp]
    split_ifs <;> decide
  have h := f.demux
  simp only [adtsDemux] at h
  split_ifs at h
  all_goals
    rw [← Except.ok.inj h]
    exact ⟨hobject _,Nat.mod_lt _ (by decide),Nat.mod_lt _ (by decide)⟩

section
variable (net : Network) {format : SoundFormat} {ctx ctx' : Context} {f first : AacFrame} {ts : UInt32} {ret : ℤ}
  {c : AacCodec} {outs : List (Bytes × UInt32)}

theorem srsAudioWriteRawFrame_frame (hformat : format.soundFormat = codecAAC) :
    srsAudioWriteRawFrame net ctx format f.bytes ts =
      srsWriteAacAdtsFrame net ctx (f.codec format) (some f.raw) ts := by
  obtain ⟨hstarts,hlen⟩ := f.startswith
  have hne : f.bytes ≠ [] := List.ne_nil_of_length_pos (by omega)
  obtain ⟨fuel,hfuel⟩ := Nat.exists_eq_succ_of_ne_zero (n := f.bytes.length) (by omega)
  have hnonneg : ¬ (f.raw.length : ℤ) < 0 := by omega
  have hleft (ctx : Context) : aacAdtsFrames net format ts fuel ctx [] = some (0,ctx) := by
    cases fuel <;> simp [aacAdtsFrames]
  rw [srsAudioWriteRawFrame, if_pos hformat, if_neg (not_not.mpr hstarts), srsWriteAacAdtsFrames, if_neg hne,
    hfuel, aacAdtsFrames, if_neg hne, f.demux]
  simp only [f.raw_eq, f.size_eq, if_neg hnonneg, Int.toNat_natCast, List.take_length, List.drop_length, hleft]
  rw [← AacFrame.codec]
  generalize srsWriteAacAdtsFrame net ctx (f.codec format) (some f.raw) ts = result
  rcases result with _ | ⟨ret,ctx⟩
  · rfl
  · by_cases hret : ret = 0
    · subst hret
      rfl
    · simp [hret]

/-- What a player that met `f` first knows of the sounds. -/
def AacFrame.playerCodec (format : SoundFormat) (f : AacFrame) : AacCodec := {
  aacObject := f.adts.aacObject
  aacSampleRate := sequenceSampleIndex (f.codec format)
  aacChannels := f.adts.channelConfiguration
  aacExtraSize := 2
  audioCodecId := codecAAC }

theorem muxAac2flv_sound (codec : RawAacStreamCodec) (packetType : UInt8) (frame : Bytes)
    (h : codec.soundFormat = codecAAC) :
    ∃ header, muxAac2flv frame {codec with aacPacketType := packetType} = header :: packetType :: frame ∧
      header.toNat / 2 ^ 4 = codecAAC := by
  have hcodec : codecAAC = 10 := rfl
  refine ⟨_,if_pos h,?_⟩
  rw [UInt8.toNat_ofNat']
  simp only [h, hcodec]
  omega

/-- What is read behind the two bytes of the FLV header. -/
theorem audioAacDemux_sound {header packetType : UInt8} {stream : Bytes} (h : header.toNat / 2 ^ 4 = codecAAC) :
    audioAacDemux c (header :: packetType :: stream) =
      if packetType = aacSequenceHeader then
        if stream = [] then (0,{c with audioCodecId := codecAAC, aacExtraSize := 0},⟨packetType,[]⟩)
        else
          ((audioAacSequenceHeaderDemux {c with audioCodecId := codecAAC, aacExtraSize := stream.length} stream).1,
            (audioAacSequenceHeaderDemux {c with audioCodecId := codecAAC, aacExtraSize := stream.length} stream).2,
            ⟨packetType,[]⟩)
      else if packetType = aacRawData then
        if c.aacExtraSize = 0 then (0,{c with audioCodecId := codecAAC},⟨packetType,[]⟩)
        else (0,{c with audioCodecId := codecAAC},⟨packetType,[stream]⟩)
      else (0,{c with audioCodecId := codecAAC},⟨packetType,[]⟩) := by
  have hkind : codecAAC ≠ codecMP3 := by decide
  simp only [audioAacDemux, h, if_neg hkind, ne_eq, not_true_eq_false, if_false, AacSample.new]
  cases stream <;> rfl

variable (format) in
theorem sequenceSampleIndex_lt (f : AacFrame) : sequenceSampleIndex (f.codec format) < 16 := by
  have hindex := f.field_lt.2.1
  rw [sequenceSampleIndex]
  split_ifs <;> first | decide | exact hindex

/-- The two bytes of a sequence header. -/
theorem muxAacSequenceHeader_eq_ok {sh : Bytes} (h : muxAacSequenceHeader (f.codec format) = .ok sh) :
    f.adts.aacObject ≠ aacObjectReserved ∧ ∃ a b, sh = [a,b] ∧
      a.toNat = f.adts.aacObject * 8 + sequenceSampleIndex (f.codec format) / 2 ∧
      b.toNat = sequenceSampleIndex (f.codec format) % 2 * 128 + f.adts.channelConfiguration * 8 := by
  obtain ⟨hobject,-,hchannels⟩ := f.field_lt
  have hindex := sequenceSampleIndex_lt format f
  simp only [muxAacSequenceHeader] at h
  split_ifs at h with hreserved hlast
  have hobject' : (f.codec format).aacObject = f.adts.aacObject := rfl
  have hchannels' : (f.codec format).channelConfiguration = f.adts.channelConfiguration := rfl
  refine ⟨hreserved,_,_,(Except.ok.inj h).symm,?_,?_⟩
  · rw [UInt8.toNat_ofNat', hobject']
    omega
  · rw [UInt8.toNat_ofNat', hchannels']
    omega

theorem muxAacSequenceHeader_error {codec : RawAacStreamCodec} {e : ℤ}
    (h : muxAacSequenceHeader codec = .error e) : e ≠ 0 := by
  simp only [muxAacSequenceHeader] at h
  split_ifs at h <;> cases h <;> decide

theorem doReadAudio_header (hformat : format.soundFormat = codecAAC) {sh : Bytes}
    (h : muxAacSequenceHeader (f.codec format) = .ok sh) :
    doReadAudio c ts (muxAac2flv sh {f.codec format with aacPacketType := aacSequenceHeader}) = (f.playerCodec format,[]) := by
  obtain ⟨hreserved,a,b,rfl,ha,hb⟩ := muxAacSequenceHeader_eq_ok h
  obtain ⟨hobject,-,hchannels⟩ := f.field_lt
  have hindex := sequenceSampleIndex_lt format f
  have hkind : codecAAC ≠ codecMP3 := by decide
  have hdemux (c : AacCodec) : audioAacSequenceHeaderDemux c [a,b] =
      (0,{c with
        aacChannels := f.adts.channelConfiguration
        aacSampleRate := sequenceSampleIndex (f.codec format)
        aacObject := f.adts.aacObject}) := by
    have hlen : ¬ [a,b].length < 2 := by simp
    have ha0 : [a,b].getD 0 0 = a := rfl
    have hb1 : [a,b].getD 1 0 = b := rfl
    have hfirst : a.toNat / 2 ^ 3 = f.adts.aacObject := by omega
    have hmiddle : a.toNat % 2 ^ 3 * 2 + b.toNat / 2 ^ 7 = sequenceSampleIndex (f.codec format) := by omega
    have hlast : b.toNat / 2 ^ 3 % 2 ^ 4 = f.adts.channelConfiguration := by omega
    rw [audioAacSequenceHeaderDemux, if_neg hlen]
    simp only [ha0, hb1, hfirst, hmiddle, hlast, if_neg hreserved]
  obtain ⟨header,hmux,hheader⟩ := muxAac2flv_sound (f.codec format) aacSequenceHeader [a,b] hformat
  rw [doReadAudio, hmux, audioAacDemux_sound hheader, if_pos rfl, if_neg (List.cons_ne_nil _ _), hdemux]
  simp only [ne_eq, not_true_eq_false, if_false, false_and]
  rw [if_pos (.inl ⟨trivial,trivial⟩)]
  rfl

theorem doReadAudio_raw (hformat : format.soundFormat = codecAAC) :
    doReadAudio (first.playerCodec format) ts (muxAac2flv f.raw {f.codec format with aacPacketType := aacRawData}) =
      (first.playerCodec format,
        if first.adts.aacObject = aacObjectReserved then []
        else [(adtsHeader (first.playerCodec format) f.raw.length ++ f.raw,ts)]) := by
  have hextra : (first.playerCodec format).aacExtraSize ≠ 0 := by simp [AacFrame.playerCodec]
  have hpacket : aacRawData ≠ aacSequenceHeader := by decide
  have hsize : audioPayloadSize = 1024 := rfl
  have hfits : ¬ audioPayloadSize < (adtsHeader (first.playerCodec format) f.raw.length).length + f.raw.length := by
    have h := f.fits
    rw [length_adtsHeader]
    omega
  have hlong : ¬ (f.raw = [] ∨ 0x1fff < f.raw.length) := by
    have h := f.fits
    rintro (h' | h')
    · exact f.raw_ne_nil h'
    · omega
  obtain ⟨header,hmux,hheader⟩ := muxAac2flv_sound (f.codec format) aacRawData f.raw hformat
  have hsame : {first.playerCodec format with audioCodecId := codecAAC} = first.playerCodec format := rfl
  rw [doReadAudio, hmux, audioAacDemux_sound hheader, if_neg hpacket, if_pos rfl, if_neg hextra, hsame]
  have hobject : (first.playerCodec format).aacObject = first.adts.aacObject := rfl
  simp only [ne_eq, not_true_eq_false, if_false, hpacket, and_false, false_or, hobject]
  by_cases hreserved : first.adts.aacObject = aacObjectReserved
  · rw [if_pos hreserved, if_pos hreserved]
    rfl
  · rw [if_neg hreserved, if_neg hreserved]
    simp only [gotAudioSample, if_neg hlong, if_neg hfits]
    rfl

/-- The sounds among the messages a player reads. -/
def readSounds : AacCodec → List Message → AacCodec × List (Bytes × UInt32)
  | c, [] => (c,[])
  | c, m :: ms =>
    if m.type = .audio then
      let (c,out) := doReadAudio c m.timestamp m.data
      let (c,outs) := readSounds c ms
      (c,out ++ outs)
    else readSounds c ms

theorem readSounds_append (c : AacCodec) (ms ns : List Message) :
    readSounds c (ms ++ ns) =
      ((readSounds (readSounds c ms).1 ns).1,(readSounds c ms).2 ++ (readSounds (readSounds c ms).1 ns).2) := by
  induction ms generalizing c with
  | nil => rfl
  | cons m ms ih =>
    rw [List.cons_append, readSounds, readSounds]
    split_ifs
    · simp only [ih, List.append_assoc]
    · exact ih c

theorem readSounds_skip {ms : List Message} (h : ∀ m ∈ ms, m.type ≠ .audio) : readSounds c ms = (c,[]) := by
  induction ms with
  | nil => rfl
  | cons m ms ih =>
    rw [List.forall_mem_cons] at h
    rw [readSounds, if_neg h.1, ih h.2]

theorem readSounds_singleton {m : Message} (h : m.type = .audio) :
    readSounds c [m] = doReadAudio c m.timestamp m.data := by
  rw [readSounds, if_pos h]
  simp [readSounds]

/-- What the decoder is given for a frame, when `first` was the first of the connection. -/
def AacFrame.soundData (format : SoundFormat) (first f : AacFrame) (ts : UInt32) : Bytes × UInt32 :=
  (adtsHeader (first.playerCodec format) f.raw.length ++ f.raw,ts)

/-- Where the player is after the messages of a connection that has written the frames of `done`. -/
def SoundsRead (format : SoundFormat) (ctx : Context) : List (AacFrame × UInt32) → Prop
  | [] => ctx.aacSpecificConfig = [] ∧ (readSounds .new (delivered ctx.sent)).2 = []
  | x :: rest => ctx.aacSpecificConfig ≠ [] ∧ x.1.adts.aacObject ≠ aacObjectReserved ∧
      readSounds .new (delivered ctx.sent) =
        (x.1.playerCodec format,(x :: rest).map fun y => x.1.soundData format y.1 y.2)

/-- A frame behind the sequence header: it is read as what it was, or it did not get through. -/
theorem readSounds_raw (hformat : format.soundFormat = codecAAC)
    (hfirst : first.adts.aacObject ≠ aacObjectReserved)
    (hread : readSounds .new (delivered ctx.sent) = (first.playerCodec format,outs))
    (hw : srsWriteAudioRawFrame net ctx f.raw {f.codec format with aacPacketType := aacRawData} ts = (ret,ctx')) :
    ctx'.aacSpecificConfig = ctx.aacSpecificConfig ∧
      readSounds .new (delivered ctx'.sent) =
        (first.playerCodec format,if ret = 0 then outs ++ [first.soundData format f ts] else outs) := by
  simp only [srsWriteAudioRawFrame, srsRtmpWritePacket, Prod.mk.injEq] at hw
  obtain ⟨hret,rfl⟩ := hw
  refine ⟨rfl,?_⟩
  simp only [delivered_append, delivered_singleton, readSounds_append, hread, hret]
  by_cases hzero : ret = 0
  · rw [if_pos hzero, if_pos hzero, readSounds_singleton rfl]
    simp only [doReadAudio_raw hformat, if_neg hfirst]
    rfl
  · rw [if_neg hzero, if_neg hzero, readSounds, List.append_nil]

theorem readSounds_header (hformat : format.soundFormat = codecAAC) {sh : Bytes}
    (hsh : muxAacSequenceHeader (f.codec format) = .ok sh) (hread : (readSounds .new (delivered ctx.sent)).2 = [])
    (hw : srsWriteAudioRawFrame net ctx sh {f.codec format with aacPacketType := aacSequenceHeader} ts = (ret,ctx')) :
    ctx'.aacSpecificConfig = ctx.aacSpecificConfig ∧ (readSounds .new (delivered ctx'.sent)).2 = [] ∧
      (ret = 0 → (readSounds .new (delivered ctx'.sent)).1 = f.playerCodec format) := by
  simp only [srsWriteAudioRawFrame, srsRtmpWritePacket, Prod.mk.injEq] at hw
  obtain ⟨hret,rfl⟩ := hw
  simp only [delivered_append, delivered_singleton, readSounds_append, hread, hret]
  by_cases hzero : ret = 0
  · rw [if_pos hzero, readSounds_singleton rfl, doReadAudio_header hformat hsh]
    exact ⟨trivial,rfl,fun _ => rfl⟩
  · rw [if_neg hzero]
    exact ⟨trivial,rfl,fun h => absurd h hzero⟩

theorem srsWriteAudioRawFrame_answer {codec : RawAacStreamCodec} {frame : Bytes}
    (hw : srsWriteAudioRawFrame net ctx frame codec ts = (ret,ctx')) : ∃ m ∈ ctx'.sent, m.2 = ret := by
  simp only [srsWriteAudioRawFrame, srsRtmpWritePacket, Prod.mk.injEq] at hw
  obtain ⟨rfl,rfl⟩ := hw
  exact ⟨_,List.mem_append_right _ (List.mem_singleton.mpr rfl),rfl⟩

theorem SoundsRead.write {done : List (AacFrame × UInt32)} (h : SoundsRead format ctx done)
    (hformat : format.soundFormat = codecAAC)
    (hw : srsAudioWriteRawFrame net ctx format f.bytes ts = some (ret,ctx')) :
    if ret = 0 then SoundsRead format ctx' (done ++ [(f,ts)])
    else (readSounds .new (delivered ctx'.sent)).2 = (readSounds .new (delivered ctx.sent)).2 ∧
      ((∃ m ∈ ctx'.sent, m.2 ≠ 0) ∨ done = [] ∧ muxAacSequenceHeader (f.codec format) = .error ret) := by
  have hanswer {codec : RawAacStreamCodec} {frame : Bytes} {ctx₁ ctx₂ : Context} {ret : ℤ} (hret : ret ≠ 0)
      (h : srsWriteAudioRawFrame net ctx₁ frame codec ts = (ret,ctx₂)) : ∃ m ∈ ctx₂.sent, m.2 ≠ 0 := by
    obtain ⟨m,hm,rfl⟩ := srsWriteAudioRawFrame_answer net h
    exact ⟨m,hm,hret⟩
  rw [srsAudioWriteRawFrame_frame net hformat, srsWriteAacAdtsFrame] at hw
  cases done with
  | cons x rest =>
    obtain ⟨hconfig,hobject,hread⟩ := h
    simp only [if_neg hconfig, Option.map_some, Option.some.injEq] at hw
    obtain ⟨hconfig',hread'⟩ := readSounds_raw net hformat hobject hread hw
    by_cases hzero : ret = 0
    · rw [if_pos hzero] at hread' ⊢
      refine ⟨hconfig' ▸ hconfig,hobject,?_⟩
      rw [hread']
      exact Prod.ext rfl (List.map_append : List.map _ (x :: rest ++ [(f,ts)]) = _).symm
    · rw [if_neg hzero] at hread' ⊢
      exact ⟨by rw [hread', hread],.inl (hanswer hzero hw)⟩
  | nil =>
    obtain ⟨hconfig,hread⟩ := h
    rw [if_pos hconfig] at hw
    cases hsh : muxAacSequenceHeader (f.codec format) with
    | error e =>
      simp only [hsh, Option.some.injEq, Prod.mk.injEq] at hw
      obtain ⟨rfl,rfl⟩ := hw
      rw [if_neg (muxAacSequenceHeader_error hsh)]
      exact ⟨rfl,.inr ⟨rfl,rfl⟩⟩
    | ok sh =>
      obtain ⟨hobject,a,b,rfl,-⟩ := muxAacSequenceHeader_eq_ok hsh
      simp only [hsh, Option.map_some] at hw
      cases hwrite : srsWriteAudioRawFrame net {ctx with aacSpecificConfig := [a,b]} [a,b]
        {f.codec format with aacPacketType := 0} ts with
      | mk ret1 ctx1 =>
        rw [hwrite] at hw
        have hread' : (readSounds .new (delivered {ctx with aacSpecificConfig := [a,b]}.sent)).2 = [] := hread
        obtain ⟨hconfig1,houts1,hcodec1⟩ := readSounds_header net hformat hsh hread' hwrite
        by_cases hzero1 : ret1 = 0
        · simp only [hzero1, ne_eq, not_true_eq_false, if_false, Option.some.injEq] at hw
          obtain ⟨hconfig2,hread2⟩ :=
            readSounds_raw net hformat hobject (Prod.ext (hcodec1 hzero1) houts1) hw
          by_cases hzero : ret = 0
          · rw [if_pos hzero] at hread2 ⊢
            refine ⟨?_,hobject,hread2⟩
            rw [hconfig2, hconfig1]
            exact List.cons_ne_nil _ _
          · rw [if_neg hzero] at hread2 ⊢
            exact ⟨by rw [hread2, hread],.inl (hanswer hzero hw)⟩
        · simp only [ne_eq, hzero1, not_false_eq_true, if_true, Option.some.injEq, Prod.mk.injEq] at hw
          obtain ⟨rfl,rfl⟩ := hw
          rw [if_neg hzero1]
          exact ⟨by rw [houts1, hread],.inl (hanswer hzero1 hwrite)⟩

/-- Frames are written one after the other, until one does not get through: the answers, and the context. -/
def writeSounds (format : SoundFormat) : Context → List (AacFrame × UInt32) → Option (List ℤ × Context)
  | ctx, [] => some ([],ctx)
  | ctx, (f,ts) :: rest =>
    (srsAudioWriteRawFrame net ctx format f.bytes ts).bind fun (ret,ctx) =>
      if ret ≠ 0 then some ([ret],ctx) else (writeSounds format ctx rest).map fun (rets,ctx) => (ret :: rets,ctx)

/-- Of `n` calls the first `k` succeed, and the next one, if there is one, is the last that is made. -/
def StopsAfter (k n : ℕ) (rets : List ℤ) : Prop :=
  k = n ∧ rets = List.replicate k 0 ∨ k < n ∧ ∃ ret, ret ≠ 0 ∧ rets = List.replicate k 0 ++ [ret]

theorem StopsAfter.succ {k n : ℕ} {rets : List ℤ} (h : StopsAfter k n rets) :
    StopsAfter (k + 1) (n + 1) (0 :: rets) := by
  obtain ⟨rfl,rfl⟩ | ⟨hlt,ret,hret,rfl⟩ := h
  · exact .inl ⟨rfl,rfl⟩
  · exact .inr ⟨Nat.succ_lt_succ hlt,ret,hret,rfl⟩

theorem SoundsRead.read_eq {done : List (AacFrame × UInt32)} (h : SoundsRead format ctx done)
    (frames : List (AacFrame × UInt32)) : ∀ x ∈ (done ++ frames).head?,
      (readSounds .new (delivered ctx.sent)).2 = done.map fun y => x.1.soundData format y.1 y.2 := by
  intro x hx
  cases done with
  | nil => exact h.2
  | cons y rest =>
    cases Option.some.inj hx
    rw [h.2.2]

/-- Of the frames behind those of `done`, the player reads those that got through. -/
theorem SoundsRead.writeSounds {done frames : List (AacFrame × UInt32)} {rets : List ℤ} (h : SoundsRead format ctx done)
    (hformat : format.soundFormat = codecAAC) (hw : writeSounds net format ctx frames = some (rets,ctx')) :
    ∃ k, StopsAfter k frames.length rets ∧
      (∀ x ∈ (done ++ frames).head?, (readSounds .new (delivered ctx'.sent)).2 =
        (done ++ frames.take k).map fun y => x.1.soundData format y.1 y.2) ∧
      ((∀ m ∈ ctx'.sent, m.2 = 0) →
        (∀ x ∈ (done ++ frames).head?, ∀ e, muxAacSequenceHeader (x.1.codec format) ≠ .error e) →
          k = frames.length) := by
  induction frames generalizing ctx done rets with
  | nil =>
    cases hw
    refine ⟨0,.inl ⟨rfl,rfl⟩,fun x hx => ?_,fun _ _ => rfl⟩
    rw [h.read_eq [] x hx, List.take_nil, List.append_nil]
  | cons y frames ih =>
    obtain ⟨f,ts⟩ := y
    rw [Stream.writeSounds, Option.bind_eq_some_iff] at hw
    obtain ⟨⟨ret,ctx1⟩,hwrite,hw⟩ := hw
    have hstep := h.write net hformat hwrite
    by_cases hzero : ret = 0
    · subst hzero
      simp only [ne_eq, not_true_eq_false, if_false, Option.map_eq_some_iff, Prod.exists, Prod.mk.injEq] at hw
      obtain ⟨rets,ctx2,hw,rfl,rfl⟩ := hw
      obtain ⟨k,hstops,houts,hall⟩ := ih hstep hw
      rw [List.append_assoc, List.singleton_append] at houts hall
      refine ⟨k + 1,hstops.succ,fun x hx => ?_,fun hsent hheader => ?_⟩
      · rw [houts x hx, List.take_succ_cons, List.append_assoc, List.singleton_append]
      · rw [hall hsent hheader, List.length_cons]
    · simp only [ne_eq, hzero, not_false_eq_true, if_true, Option.some.injEq, Prod.mk.injEq] at hw
      obtain ⟨rfl,rfl⟩ := hw
      rw [if_neg hzero] at hstep
      refine ⟨0,.inr ⟨Nat.succ_pos _,ret,hzero,rfl⟩,fun x hx => ?_,fun hsent hheader => ?_⟩
      · rw [hstep.1, h.read_eq _ x hx, List.take_zero, List.append_nil]
      · rcases hstep.2 with ⟨m,hm,hne⟩ | ⟨rfl,herror⟩
        · exact absurd (hsent m hm) hne
        · exact absurd herror (hheader (f,ts) rfl ret)

/-- What a decoder makes of a frame: the same sounds behind a header that is read back. -/
theorem AacFrame.soundData_parse (first f : AacFrame) (ts : UInt32) :
    adtsDemux (first.soundData format f ts).1 =
      .ok {
        aacObject := first.adts.aacObject
        samplingFrequencyIndex := sequenceSampleIndex (first.codec format)
        channelConfiguration := first.adts.channelConfiguration
        rawDataSize := f.raw.length
        headerSize := 7 } := by
  obtain ⟨hobject,-,hchannels⟩ := first.field_lt
  have hindex := sequenceSampleIndex_lt format first
  have hfits : f.raw.length + 7 ≤ 1024 := f.fits
  rw [soundData, adtsDemux_adtsHeader (by omega)]
  have hprofile : ∀ object ≤ 3, srsCodecAacTs2rtmp (srsCodecAacRtmp2ts object % 4) = object := by decide
  simp only [AacFrame.playerCodec, hprofile _ hobject, Nat.mod_eq_of_lt hindex, Nat.mod_eq_of_lt hchannels]

/-- Whatever the network answers, the decoder is given the frames in the order they were written, up to the first
whose writing failed and without it, each behind a header that tells what the first frame's did, but for the sample
rate. -/
theorem sounds_delivered (format : SoundFormat) (hformat : format.soundFormat = codecAAC)
    (frames : List (AacFrame × UInt32)) (x : AacFrame × UInt32) (hx : frames.head? = some x) (rets : List ℤ)
    (hw : writeSounds net format srsRtmpCreate frames = some (rets,ctx)) :
    ∃ k, StopsAfter k frames.length rets ∧
      List.Forall₂ (fun y out => out.2 = y.2 ∧ out.1.drop 7 = y.1.raw ∧
        adtsDemux out.1 = .ok ⟨x.1.adts.aacObject,sequenceSampleIndex (x.1.codec format),
          x.1.adts.channelConfiguration,y.1.raw.length,7⟩)
        (frames.take k) (readSounds .new (delivered ctx.sent)).2 ∧
      ((∀ m ∈ ctx.sent, m.2 = 0) → (∀ e, muxAacSequenceHeader (x.1.codec format) ≠ .error e) →
        k = frames.length) := by
  have hnew : SoundsRead format srsRtmpCreate [] := ⟨rfl,rfl⟩
  obtain ⟨k,hstops,houts,hall⟩ := hnew.writeSounds net hformat hw
  refine ⟨k,hstops,?_,fun hsent hheader => hall hsent fun y hy => ?_⟩
  · rw [houts x hx, List.nil_append, List.forall₂_map_right_iff, List.forall₂_same]
    exact fun y _ => ⟨rfl,rfl,AacFrame.soundData_parse x.1 y.1 y.2⟩
  · cases Option.some.inj (hx.symm.trans hy)
    exact hheader

end

/-- One byte behind a header for one channel. -/
def oneByteFrame : AacFrame where
  bytes := [0xff,0xf9,0x50,0x40,0x01,0x1f,0xfc,0x21]
  adts := ⟨2,4,1,1,7⟩
  raw := [0x21]
  demux := by decide +kernel
  raw_eq := rfl
  size_eq := rfl
  raw_ne_nil := List.cons_ne_nil _ _
  fits := by decide

/-- The network takes the sequence header and one frame, and then no more. -/
theorem oneByteFrame_delivered : ∃ ctx, writeSounds (fun sent _ => if sent.length < 2 then 0 else 1) ⟨codecAAC,3,1,0⟩
      srsRtmpCreate [(oneByteFrame,7),(oneByteFrame,8),(oneByteFrame,9)] = some ([0,1],ctx) ∧
    ∃ k, StopsAfter k 3 [0,1] ∧ List.Forall₂ (fun y out => out.2 = y.2 ∧ out.1.drop 7 = y.1.raw ∧
        adtsDemux out.1 = .ok ⟨2,4,1,y.1.raw.length,7⟩)
        ([(oneByteFrame,7),(oneByteFrame,8),(oneByteFrame,9)].take k) (readSounds .new (delivered ctx.sent)).2 := by
  obtain ⟨k,hstops,hread,-⟩ := sounds_delivered (fun sent _ => if sent.length < 2 then 0 else 1) ⟨codecAAC,3,1,0⟩ rfl
    [(oneByteFrame,7),(oneByteFrame,8),(oneByteFrame,9)] (oneByteFrame,7) rfl [0,1] rfl
  exact ⟨_,rfl,k,hstops,hread⟩

end AdSystem.Stream
