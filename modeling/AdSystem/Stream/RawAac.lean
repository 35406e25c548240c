import AdSystem.Stream.RawH264

/-! # Writing AAC frames to an RTMP connection

An encoded frame comes with a header of seven or nine bytes that tells its length and how it
was encoded. The header is taken off; what it tells goes out once on a connection, with the
sample rate that the application has set in place of the encoder's.
-/
namespace AdSystem.Stream

def errorAacRequiredAdts : ℤ := 3046
def errorAacAdtsHeader : ℤ := 3047
def errorAacDataInvalid : ℤ := 3048

def codecAAC : ℕ := 10

structure RawAacStreamCodec where
  aacObject : ℕ
  samplingFrequencyIndex : ℕ
  channelConfiguration : ℕ
  soundFormat : ℕ
  soundRate : ℕ
  soundSize : ℕ
  soundType : ℕ
  aacPacketType : UInt8
deriving DecidableEq, Repr

/-- The settings of the application that go with every frame. -/
structure SoundFormat where
  soundFormat : ℕ
  soundRate : ℕ
  soundSize : ℕ
  soundType : ℕ
deriving DecidableEq, Repr

def srsAacStartswithAdts (stream : Bytes) : Prop :=
  2 ≤ stream.length ∧ stream.getD 0 0 = 0xff ∧ stream.getD 1 0 &&& 0xf0 = 0xf0

instance (stream : Bytes) : Decidable (srsAacStartswithAdts stream) := inferInstanceAs (Decidable (_ ∧ _))

def aacObjectReserved : ℕ := 0

def srsCodecAacTs2rtmp (profile : ℕ) : ℕ :=
  if profile = 0 then 1 else if profile = 1 then 2 else if profile = 2 then 3 else aacObjectReserved

/-- What the header of a frame tells, and the count of bytes behind it: that count is negative when
the frame's length is less than its header's. -/
structure AdtsFrame where
  aacObject : ℕ
  samplingFrequencyIndex : ℕ
  channelConfiguration : ℕ
  rawDataSize : ℤ
  headerSize : ℕ
deriving DecidableEq, Repr

def adtsDemux (stream : Bytes) : Except ℤ AdtsFrame :=
  if stream.length < 7 then .error errorAacAdtsHeader
  else if ¬ srsAacStartswithAdts stream then .error errorAacRequiredAdts
  else
    let protectionAbsent := (stream.getD 1 0).toNat % 2
    let sfiv := BigEndian.value ((stream.drop 2).take 2)
    let abfv := BigEndian.value ((stream.drop 4).take 3)
    let frameLength : ℕ := sfiv % 4 * 2 ^ 11 + abfv / 2 ^ 13
    let headerSize : ℕ := if protectionAbsent = 0 then 9 else 7
    if stream.length < headerSize then .error errorAacAdtsHeader
    else
      let rawDataSize : ℤ := (frameLength : ℤ) - headerSize
      if (stream.length : ℤ) - headerSize < rawDataSize then .error errorAacAdtsHeader
      else
        .ok {
          aacObject := srsCodecAacTs2rtmp (sfiv / 2 ^ 14)
          samplingFrequencyIndex := sfiv / 2 ^ 10 % 2 ^ 4
          channelConfiguration := sfiv / 2 ^ 6 % 2 ^ 3
          rawDataSize := rawDataSize
          headerSize := headerSize }

/-- The sample rate the application has set, or else the encoder's. -/
def sequenceSampleIndex (codec : RawAacStreamCodec) : ℕ :=
  if codec.soundRate = 1 then 0x0a
  else if codec.soundRate = 2 then 0x07
  else if codec.soundRate = 3 then 0x04
  else codec.samplingFrequencyIndex

def muxAacSequenceHeader (codec : RawAacStreamCodec) : Except ℤ Bytes :=
  if codec.aacObject = aacObjectReserved then .error errorAacDataInvalid
  else
    let index := sequenceSampleIndex codec
    if index = 0x0f then .error errorAacDataInvalid
    else
      .ok [UInt8.ofNat (codec.aacObject * 2 ^ 3 % 2 ^ 8 + index / 2 % 2 ^ 3),
        UInt8.ofNat (index % 2 * 2 ^ 7 + codec.channelConfiguration % 2 ^ 4 * 2 ^ 3)]

def muxAac2flv (frame : Bytes) (codec : RawAacStreamCodec) : Bytes :=
  let audioHeader := UInt8.ofNat (codec.soundFormat % 2 ^ 4 * 2 ^ 4 + codec.soundRate % 2 ^ 2 * 2 ^ 2 +
    codec.soundSize % 2 * 2 + codec.soundType % 2)
  if codec.soundFormat = codecAAC then audioHeader :: codec.aacPacketType :: frame else audioHeader :: frame

section
variable (net : Network)

def srsWriteAudioRawFrame (ctx : Context) (frame : Bytes) (codec : RawAacStreamCodec) (timestamp : UInt32) :
    ℤ × Context :=
  srsRtmpWritePacket net ctx ⟨.audio,timestamp,muxAac2flv frame codec⟩

/-- `none` when the count of bytes is negative: the buffer for them cannot be allocated. -/
def srsWriteAacAdtsFrame (ctx : Context) (codec : RawAacStreamCodec) (frame : Option Bytes) (timestamp : UInt32) :
    Option (ℤ × Context) :=
  let write (ctx : Context) : Option (ℤ × Context) :=
    frame.map fun frame => srsWriteAudioRawFrame net ctx frame {codec with aacPacketType := 1} timestamp
  if ctx.aacSpecificConfig = [] then
    match muxAacSequenceHeader codec with
    | .error e => some (e,ctx)
    | .ok sh =>
      let ctx := {ctx with aacSpecificConfig := sh}
      let (ret,ctx) := srsWriteAudioRawFrame net ctx sh {codec with aacPacketType := 0} timestamp
      if ret ≠ 0 then some (ret,ctx) else write ctx
  else write ctx

/-- Every turn of the loop takes a frame off the stream. -/
def aacAdtsFrames (format : SoundFormat) (timestamp : UInt32) : ℕ → Context → Bytes → Option (ℤ × Context)
  | 0, ctx, _ => some (0,ctx)
  | fuel + 1, ctx, stream =>
    if stream = [] then some (0,ctx)
    else
      match adtsDemux stream with
      | .error e => some (e,ctx)
      | .ok adts =>
        let codec : RawAacStreamCodec := {
          aacObject := adts.aacObject
          samplingFrequencyIndex := adts.samplingFrequencyIndex
          channelConfiguration := adts.channelConfiguration
          soundFormat := format.soundFormat
          soundRate := format.soundRate
          soundSize := format.soundSize
          soundType := format.soundType
          aacPacketType := 0 }
        let body := stream.drop adts.headerSize
        let frame := if adts.rawDataSize < 0 then none else some (body.take adts.rawDataSize.toNat)
        (srsWriteAacAdtsFrame net ctx codec frame timestamp).bind fun (ret,ctx) =>
          if ret ≠ 0 then some (ret,ctx)
          else aacAdtsFrames format timestamp fuel ctx (body.drop adts.rawDataSize.toNat)

def srsWriteAacAdtsFrames (ctx : Context) (format : SoundFormat) (frames : Bytes) (timestamp : UInt32) :
    Option (ℤ × Context) :=
  if frames = [] then some (errorKernelStreamInit,ctx)
  else aacAdtsFrames net format timestamp frames.length ctx frames

def srsAudioWriteRawFrame (ctx : Context) (format : SoundFormat) (frame : Bytes) (timestamp : UInt32) :
    Option (ℤ × Context) :=
  if format.soundFormat = codecAAC then
    if ¬ srsAacStartswithAdts frame then some (errorAacRequiredAdts,ctx)
    else srsWriteAacAdtsFrames net ctx format frame timestamp
  else
    let codec : RawAacStreamCodec :=
      ⟨0,0,0,format.soundFormat,format.soundRate,format.soundSize,format.soundType,0⟩
    some (srsWriteAudioRawFrame net ctx frame codec timestamp)

end

end AdSystem.Stream
