import AdSystem.Stream.StartCode

/-! # Writing H.264 frames to an RTMP connection

The connection keeps the parameter sets seen last. They go out in a sequence header when a
picture follows a change of one of them; a picture goes out behind its length. What the
network answers to a message may depend on everything sent before.
-/
namespace AdSystem.Stream

inductive MessageType
  | audio
  | video
  | script
deriving DecidableEq, Repr

structure Message where
  type : MessageType
  timestamp : UInt32
  data : Bytes
deriving DecidableEq, Repr

/-- What a connection keeps, and the messages handed to the network with its answers. -/
structure Context where
  h264Sps : Bytes
  h264Pps : Bytes
  h264SpsPpsSent : Bool
  h264SpsChanged : Bool
  h264PpsChanged : Bool
  aacSpecificConfig : Bytes
  sent : List (Message × ℤ)
deriving DecidableEq, Repr

/-- The messages that got through. -/
def delivered (sent : List (Message × ℤ)) : List Message := (sent.filter fun m => m.2 = 0).map Prod.fst

theorem delivered_append (sent more : List (Message × ℤ)) :
    delivered (sent ++ more) = delivered sent ++ delivered more := by
  rw [delivered, List.filter_append, List.map_append]
  rfl

theorem delivered_singleton (msg : Message) (ret : ℤ) :
    delivered [(msg,ret)] = if ret = 0 then [msg] else [] := by
  by_cases h : ret = 0 <;> simp [delivered, h]

def srsRtmpCreate : Context := ⟨[],[],false,false,false,[],[]⟩

/-- The answer to a message, after those that were handed over before it. -/
abbrev Network := List (Message × ℤ) → Message → ℤ

section
variable (net : Network)

def srsRtmpWritePacket (ctx : Context) (msg : Message) : ℤ × Context :=
  let ret := net ctx.sent msg
  (ret,{ctx with sent := ctx.sent ++ [(msg,ret)]})

/-- `none` when the profile or the level lies behind the end of the parameter set: the assertion
that guards them is not part of a release build. -/
def muxSequenceHeader (sps pps : Bytes) : Option Bytes :=
  if sps.length < 4 then none
  else some ([0x01,sps.getD 1 0,0x00,sps.getD 3 0,0x03] ++
    0x01 :: BigEndian.bytes 2 sps.length ++ sps ++ 0x01 :: BigEndian.bytes 2 pps.length ++ pps)

def muxIpbFrame (frame : Bytes) : Bytes := BigEndian.bytes 4 frame.length ++ frame

def frameKey : UInt8 := 1
def frameInter : UInt8 := 2
def frameVideoInfo : UInt8 := 5
def codecAVC : UInt8 := 7
def avcSequenceHeader : UInt8 := 0
def avcNALU : UInt8 := 1

def muxAvc2flv (video : Bytes) (frameType avcPacketType : UInt8) (dts pts : UInt32) : Bytes :=
  (frameType <<< 4 ||| codecAVC) :: avcPacketType :: BigEndian.bytes 3 (pts - dts).toNat ++ video

def srsWriteH264IpbFrame (ctx : Context) (frame : Bytes) (dts pts : UInt32) : ℤ × Context :=
  if ctx.h264SpsPpsSent = false then (errorH264DropBeforeSpsPps,ctx)
  else
    let frameType := if nalType (frame.headD 0) = nalIDR then frameKey else frameInter
    let flv := muxAvc2flv (muxIpbFrame frame) frameType avcNALU dts pts
    srsRtmpWritePacket net ctx ⟨.video,dts,flv⟩

def srsWriteH264SpsPps (ctx : Context) (dts pts : UInt32) : Option (ℤ × Context) :=
  if ctx.h264SpsChanged = false ∧ ctx.h264PpsChanged = false then some (0,ctx)
  else
    (muxSequenceHeader ctx.h264Sps ctx.h264Pps).map fun sh =>
      let flv := muxAvc2flv sh frameKey avcSequenceHeader dts pts
      let ctx := {ctx with h264SpsChanged := false, h264PpsChanged := false, h264SpsPpsSent := true}
      srsRtmpWritePacket net ctx ⟨.video,dts,flv⟩

/-- A set of less than four bytes is left out, without an error. -/
def spsDemux (frame : Bytes) : Bytes := if frame.length < 4 then [] else frame

/-- Whether a frame is one of those that are sent. -/
def isPicture (frame : Bytes) : Prop :=
  nalType (frame.headD 0) = nalIDR ∨ nalType (frame.headD 0) = nalNonIDR ∨
    nalType (frame.headD 0) = nalAccessUnitDelimiter

instance (frame : Bytes) : Decidable (isPicture frame) := inferInstanceAs (Decidable (_ ∨ _))

def srsWriteH264RawFrame (ctx : Context) (frame : Bytes) (dts pts : UInt32) : Option (ℤ × Context) :=
  if frame = [] then some (0,ctx)
  else if nalType (frame.headD 0) = nalSPS then
    let sps := spsDemux frame
    if ctx.h264Sps = sps then some (errorH264DuplicatedSps,ctx)
    else some (0,{ctx with h264SpsChanged := true, h264Sps := sps})
  else if nalType (frame.headD 0) = nalPPS then
    if ctx.h264Pps = frame then some (errorH264DuplicatedPps,ctx)
    else some (0,{ctx with h264PpsChanged := true, h264Pps := frame})
  else if isPicture frame then
    (srsWriteH264SpsPps net ctx dts pts).map fun (ret,ctx) =>
      if ret ≠ 0 then (ret,ctx) else srsWriteH264IpbFrame net ctx frame dts pts
  else some (0,ctx)

/-- The loop of the source ends after one turn, which takes all of the stream; the error of that
turn is returned whether it is one of the known ones or not. -/
def srsH264WriteRawFrames (ctx : Context) (frames : Bytes) (dts pts : UInt32) : Option (ℤ × Context) :=
  if frames = [] then some (errorKernelStreamInit,ctx)
  else
    match annexbDemuxPri frames with
    | .error e => some (e,ctx)
    | .ok (frame,_) => if frame = [] then some (0,ctx) else srsWriteH264RawFrame net ctx frame dts pts

end

/-- The three errors after which the connection goes on. -/
def srsH264IsKnownError (ret : ℤ) : Prop :=
  ret = errorH264DropBeforeSpsPps ∨ ret = errorH264DuplicatedSps ∨ ret = errorH264DuplicatedPps

instance (ret : ℤ) : Decidable (srsH264IsKnownError ret) := inferInstanceAs (Decidable (_ ∨ _))

end AdSystem.Stream
