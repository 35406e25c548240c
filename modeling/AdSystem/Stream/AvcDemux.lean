import AdSystem.Stream.NalSplit
import AdSystem.Stream.RawH264

/-! # Reading H.264 messages in the player

The player takes the parameter sets from a sequence header and the units from a picture's
message. Whether units stand behind start codes or behind their lengths is guessed at the
first message. A unit goes to the decoder behind a start code, an IDR slice behind the
parameter sets too.
-/
namespace AdSystem.Stream

inductive PayloadFormat
  | guess
  | annexb
  | ibmf
deriving DecidableEq, Repr

/-- A parameter set is read as long as the length field says, from the bytes taken last. -/
structure AvcCodec where
  nalUnitLength : ℕ
  sequenceParameterSetLength : ℕ
  sequenceParameterSetNALUnit : Bytes
  pictureParameterSetLength : ℕ
  pictureParameterSetNALUnit : Bytes
  avcExtraSize : ℕ
  payloadFormat : PayloadFormat
  videoCodecId : UInt8
deriving DecidableEq, Repr

def AvcCodec.new : AvcCodec := ⟨0,0,[],0,[],0,.guess,0⟩

structure CodecSample where
  frameType : UInt8
  avcPacketType : UInt8
  hasIdr : Bool
  units : List Bytes
deriving DecidableEq, Repr

/-- The reserved types mark a sample that nothing is known of. -/
def CodecSample.new : CodecSample := ⟨0,3,false,[]⟩

def maxCodecSample : ℕ := 128

/-- The unit is the first `size` of the bytes; its type is read whether it is empty or not. -/
def addSampleUnit (sample : CodecSample) (bytes : Bytes) (size : ℕ) : ℤ × CodecSample :=
  if maxCodecSample ≤ sample.units.length then (errorHlsDecode,sample)
  else
    (0,{sample with
      hasIdr := sample.hasIdr || nalType (bytes.headD 0) = nalIDR
      units := sample.units ++ [bytes.take size]})

/-- The bytes before the next start code, and the rest. -/
def lastMatched : Bytes → Bytes × Bytes
  | [] => ([],[])
  | b :: rest =>
    if (srsAvcStartswithAnnexb (b :: rest)).isSome then ([],b :: rest)
    else (b :: (lastMatched rest).1,(lastMatched rest).2)

def annexbUnits : ℕ → Bytes → CodecSample → ℤ × CodecSample
  | 0, _, sample => (0,sample)
  | fuel + 1, stream, sample =>
    match srsAvcStartswithAnnexb stream with
    | none => (0,sample)
    | some code =>
      let (unit,rest) := lastMatched (stream.drop code)
      if unit = [] then annexbUnits fuel rest sample
      else
        let (ret,sample) := addSampleUnit sample unit unit.length
        if ret ≠ 0 then (ret,sample) else annexbUnits fuel rest sample

def avcDemuxAnnexbFormat (stream : Bytes) (sample : CodecSample) : ℤ × CodecSample :=
  if srsAvcStartswithAnnexb stream = none then (errorHlsAvcTryOthers,sample)
  else annexbUnits stream.length stream sample

/-- The length of a unit stands in one, two or four bytes and is signed. -/
def lengthWidth (nalUnitLength : ℕ) : ℕ :=
  if nalUnitLength = 3 then 4 else if nalUnitLength = 1 then 2 else 1

/-- The loop counts what it believes it has read: `NAL_unit_length + 1` bytes for a length. -/
def ibmfUnits (nalUnitLength pictureLength : ℕ) : ℕ → ℕ → Bytes → CodecSample → ℤ × CodecSample
  | 0, _, _, sample => (0,sample)
  | fuel + 1, i, stream, sample =>
    if pictureLength ≤ i then (0,sample)
    else if stream.length < nalUnitLength + 1 then (errorHlsDecode,sample)
    else
      let width := lengthWidth nalUnitLength
      let unitLength := BigEndian.value (stream.take width)
      let stream := stream.drop width
      if 2 ^ (8 * width - 1) ≤ unitLength then (errorHlsDecode,sample)
      else if stream.length < unitLength then (errorHlsDecode,sample)
      else
        let (ret,sample) := addSampleUnit sample stream unitLength
        if ret ≠ 0 then (ret,sample)
        else
          ibmfUnits nalUnitLength pictureLength fuel (i + (nalUnitLength + 1 + unitLength))
            (stream.drop unitLength) sample

def avcDemuxIbmfFormat (c : AvcCodec) (stream : Bytes) (sample : CodecSample) : ℤ × CodecSample :=
  ibmfUnits c.nalUnitLength stream.length stream.length 0 stream sample

section
variable (avcDemuxSps : Bytes → ℤ)

/-- One of the two parameter sets of a sequence header: its count, its length and its bytes. A
length that is too big for the message is kept, with the bytes of the set before. -/
def demuxParameterSet (stream : Bytes) (length : ℕ) (unit : Bytes) : ℤ × ℕ × Bytes × Bytes :=
  if stream = [] then (errorHlsDecode,length,unit,stream)
  else if stream.headD 0 &&& 0x1f ≠ 1 then (errorHlsDecode,length,unit,stream)
  else
    let stream := stream.drop 1
    if stream.length < 2 then (errorHlsDecode,length,unit,stream)
    else
      let length := BigEndian.value (stream.take 2)
      let stream := stream.drop 2
      if stream.length < length then (errorHlsDecode,length,unit,stream)
      else (0,length,if 0 < length then stream.take length else unit,stream.drop length)

def avcDemuxSpsPps (c : AvcCodec) (stream : Bytes) : ℤ × AvcCodec :=
  let c := {c with avcExtraSize := stream.length}
  if stream.length < 6 then (errorHlsDecode,c)
  else
    let c := {c with nalUnitLength := (stream.getD 4 0 &&& 0x03).toNat}
    if c.nalUnitLength = 2 then (errorHlsDecode,c)
    else
      let (ret,length,unit,stream) :=
        demuxParameterSet (stream.drop 5) c.sequenceParameterSetLength c.sequenceParameterSetNALUnit
      let c := {c with sequenceParameterSetLength := length, sequenceParameterSetNALUnit := unit}
      if ret ≠ 0 then (ret,c)
      else
        let (ret,length,unit,_) :=
          demuxParameterSet stream c.pictureParameterSetLength c.pictureParameterSetNALUnit
        let c := {c with pictureParameterSetLength := length, pictureParameterSetNALUnit := unit}
        if ret ≠ 0 then (ret,c)
        else (if c.sequenceParameterSetLength = 0 then 0 else avcDemuxSps c.sequenceParameterSetNALUnit,c)

/-- Units behind start codes are tried first, unless lengths were met before. -/
def demuxNalus (c : AvcCodec) (stream : Bytes) (sample : CodecSample) : ℤ × AvcCodec × CodecSample :=
  let ibmf :=
    let (ret,sample) := avcDemuxIbmfFormat c stream sample
    if ret ≠ 0 then (ret,c,sample) else (0,{c with payloadFormat := .ibmf},sample)
  if c.payloadFormat = .ibmf then ibmf
  else
    let (ret,annexbSample) := avcDemuxAnnexbFormat stream sample
    if ret = errorHlsAvcTryOthers then ibmf
    else if ret ≠ 0 then (ret,c,annexbSample)
    else (0,{c with payloadFormat := .annexb},annexbSample)

def videoAvcDemux (c : AvcCodec) (data : Bytes) : ℤ × AvcCodec × CodecSample :=
  match data with
  | [] => (0,c,.new)
  | first :: stream =>
    let sample := {CodecSample.new with frameType := (first >>> 4) &&& 0x0f}
    if sample.frameType = frameVideoInfo then (0,c,sample)
    else if first &&& 0x0f ≠ codecAVC then (errorHlsDecode,c,sample)
    else
      let c := {c with videoCodecId := codecAVC}
      if stream.length < 4 then (errorHlsDecode,c,sample)
      else
        let sample := {sample with avcPacketType := stream.headD 0}
        let stream := stream.drop 4
        if sample.avcPacketType = avcSequenceHeader then
          let (ret,c) := avcDemuxSpsPps avcDemuxSps c stream
          (ret,c,sample)
        else if sample.avcPacketType = avcNALU then
          if c.avcExtraSize = 0 then (0,c,sample) else demuxNalus c stream sample
        else (0,c,sample)

end

def videoPayloadSize : ℕ := 384 * 1024

/-- Bytes that do not fit are left out. `none` when there are less of them than are to be copied. -/
def demuxAppend (payload bytes : Bytes) (size : ℕ) : Option Bytes :=
  if videoPayloadSize < payload.length + size then some payload
  else if bytes.length < size then none
  else some (payload ++ bytes.take size)

/-- The decoder's input, with its timestamp. -/
abbrev H264Data := Bytes × UInt32

/-- The payload once more holds nothing after a buffer is handed on. -/
def rescanVideoframe (payload p : Bytes) (timestamp : UInt32) : Option (List H264Data) := do
  let b ← p[4]?
  if nalType b = nalSPS then
    let s := scan false p p.length 4 .start
    let payload ← demuxAppend payload s.nal7 s.nal7.length
    let payload ← demuxAppend payload s.nal8 s.nal8.length
    let payload ← demuxAppend payload StartCode.long.bytes 4
    let payload ← demuxAppend payload s.nal5 s.nal5.length
    return [(payload,timestamp)]
  else
    let payload ← demuxAppend payload p p.length
    return [(payload,timestamp)]

def gotUnits (timestamp : UInt32) : Bytes → List Bytes → Option (Bytes × List H264Data)
  | payload, [] => some (payload,[])
  | payload, u :: us =>
    if u = [] then some (payload,[])
    else
      let type := nalType (u.headD 0)
      if type = nalSPS ∨ type = nalPPS ∨ type = nalSEI ∨ type = nalAccessUnitDelimiter then
        gotUnits timestamp payload us
      else if type = 0 then do
        let out ← rescanVideoframe payload u timestamp
        let (payload,outs) ← gotUnits timestamp [] us
        return (payload,out ++ outs)
      else do
        let code := if type = nalIDR then StartCode.short else .long
        let payload ← demuxAppend payload code.bytes code.bytes.length
        let payload ← demuxAppend payload u u.length
        let (left,outs) ← gotUnits timestamp [] us
        return (left,(payload,timestamp) :: outs)

/-- A set behind its start code, where there is one. -/
def appendParameterSet (payload unit : Bytes) (length : ℕ) : Option Bytes :=
  if 0 < length then do
    let payload ← demuxAppend payload StartCode.long.bytes 4
    demuxAppend payload unit length
  else some payload

/-- What the payload is left with, and what the decoder is given. -/
def gotVideoSample (c : AvcCodec) (payload : Bytes) (timestamp : UInt32) (sample : CodecSample) :
    Option (Bytes × List H264Data) :=
  if sample.frameType = frameVideoInfo then some (payload,[])
  else if sample.frameType = frameKey ∧ sample.avcPacketType = avcSequenceHeader then some (payload,[])
  else if sample.hasIdr then do
    let payload ← appendParameterSet payload c.sequenceParameterSetNALUnit c.sequenceParameterSetLength
    let payload ← appendParameterSet payload c.pictureParameterSetNALUnit c.pictureParameterSetLength
    gotUnits timestamp payload sample.units
  else gotUnits timestamp payload sample.units

/-- What the player keeps from one message to the next. -/
structure Player where
  codec : AvcCodec
  videoPayload : Bytes
deriving DecidableEq, Repr

def Player.new : Player := ⟨.new,[]⟩

/-- A message of video, read by the player's thread. -/
def doReadVideo (avcDemuxSps : Bytes → ℤ) (player : Player) (timestamp : UInt32) (data : Bytes) :
    Option (Player × List H264Data) :=
  let (ret,c,sample) := videoAvcDemux avcDemuxSps player.codec data
  if ret = 0 ∧ c.videoCodecId = codecAVC then
    (gotVideoSample c player.videoPayload timestamp sample).map fun (payload,out) => (⟨c,payload⟩,out)
  else some (⟨c,player.videoPayload⟩,[])

end AdSystem.Stream
