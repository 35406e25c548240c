import AdSystem.Stream.RawAac

/-! # Reading AAC messages in the player

The player takes how the sounds are encoded from the first message that tells it, and puts a
header of its own before every frame that goes to the decoder.
-/
namespace AdSystem.Stream
open BigEndian

def errorHlsTryMp3 : ℤ := 3049

def aacSampleRateUnset : ℕ := 15

structure AacCodec where
  aacObject : ℕ
  aacSampleRate : ℕ
  aacChannels : ℕ
  aacExtraSize : ℕ
  audioCodecId : ℕ
deriving DecidableEq, Repr

def AacCodec.new : AacCodec := ⟨aacObjectReserved,aacSampleRateUnset,0,0,0⟩

structure AacSample where
  aacPacketType : UInt8
  units : List Bytes
deriving DecidableEq, Repr

/-- The reserved type marks a sample that nothing is known of. -/
def AacSample.new : AacSample := ⟨2,[]⟩

def codecMP3 : ℕ := 2
def aacSequenceHeader : UInt8 := 0
def aacRawData : UInt8 := 1

def audioAacSequenceHeaderDemux (c : AacCodec) (data : Bytes) : ℤ × AacCodec :=
  if data.length < 2 then (errorHlsDecode,c)
  else
    let first := (data.getD 0 0).toNat
    let second := (data.getD 1 0).toNat
    let c := {c with
      aacChannels := second / 2 ^ 3 % 2 ^ 4
      aacSampleRate := first % 2 ^ 3 * 2 + second / 2 ^ 7
      aacObject := first / 2 ^ 3}
    if c.aacObject = aacObjectReserved then (errorHlsDecode,c) else (0,c)

def audioAacDemux (c : AacCodec) (data : Bytes) : ℤ × AacCodec × AacSample :=
  match data with
  | [] => (0,c,.new)
  | first :: stream =>
    let c := {c with audioCodecId := first.toNat / 2 ^ 4}
    if c.audioCodecId = codecMP3 then (errorHlsTryMp3,c,.new)
    else if c.audioCodecId ≠ codecAAC then (errorHlsDecode,c,.new)
    else
      match stream with
      | [] => (errorHlsDecode,c,.new)
      | packetType :: stream =>
        let sample := {AacSample.new with aacPacketType := packetType}
        if packetType = aacSequenceHeader then
          let c := {c with aacExtraSize := stream.length}
          if stream = [] then (0,c,sample)
          else
            let (ret,c) := audioAacSequenceHeaderDemux c stream
            (ret,c,sample)
        else if packetType = aacRawData then
          if c.aacExtraSize = 0 then (0,c,sample) else (0,c,{sample with units := [stream]})
        else (0,c,sample)

def srsCodecAacRtmp2ts (object : ℕ) : ℕ :=
  if object = 1 then 0 else if object = 5 ∨ object = 29 ∨ object = 2 then 1 else if object = 3 then 2 else 3

/-- The seven bytes of the header for a frame of `size` bytes. -/
def adtsHeader (c : AacCodec) (size : ℕ) : Bytes :=
  let frameLength := size + 7
  [0xff,0xf9,
    UInt8.ofNat (srsCodecAacRtmp2ts c.aacObject % 2 ^ 2 * 2 ^ 6 + c.aacSampleRate % 2 ^ 4 * 2 ^ 2 +
      c.aacChannels / 2 ^ 2 % 2),
    UInt8.ofNat (c.aacChannels % 2 ^ 2 * 2 ^ 6 + frameLength / 2 ^ 11 % 2 ^ 2),
    UInt8.ofNat (frameLength / 2 ^ 3 % 2 ^ 8),
    UInt8.ofNat (frameLength % 2 ^ 3 * 2 ^ 5 + 0x1f),
    0xfc]

def audioPayloadSize : ℕ := 1024

/-- Bytes that do not fit behind the header are left out. -/
def gotAudioSample (c : AacCodec) (timestamp : UInt32) : List Bytes → List (Bytes × UInt32)
  | [] => []
  | u :: us =>
    if u = [] ∨ 0x1fff < u.length then []
    else
      let header := adtsHeader c u.length
      let payload := if audioPayloadSize < header.length + u.length then header else header ++ u
      (payload,timestamp) :: gotAudioSample c timestamp us

/-- A message of sound, read by the player's thread. -/
def doReadAudio (c : AacCodec) (timestamp : UInt32) (data : Bytes) : AacCodec × List (Bytes × UInt32) :=
  let (ret,c,sample) := audioAacDemux c data
  if ret ≠ 0 then (c,[])
  else if c.audioCodecId ≠ codecAAC ∧ c.audioCodecId ≠ codecMP3 then (c,[])
  else if c.audioCodecId = codecAAC ∧ sample.aacPacketType = aacSequenceHeader ∨ c.aacObject = aacObjectReserved then
    (c,[])
  else (c,gotAudioSample c timestamp sample.units)

end AdSystem.Stream
