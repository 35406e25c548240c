import AdSystem.Stream.NalSplit
import AdSystem.Stream.RawAac

/-! # The thread that pushes a stream

The encoders put what they have made into a queue, and one thread connects to the server,
takes the queue's data out and writes it. A connection that fails is tried again three times
before the thread gives up. The encoders' calls go on while the thread is at work: every
access to shared variables that no lock ties to the next is a step of its own.
-/
namespace AdSystem.Stream

inductive RtmpStatus
  | init
  | handshaked
  | connected
  | published
  | closed
deriving DecidableEq, Repr

inductive EncDataType
  | videoData
  | audioData
  | metaData
deriving DecidableEq, Repr

structure EncData where
  data : Bytes
  type : EncDataType
  dts : UInt32
deriving DecidableEq, Repr

inductive RtmpCallback
  | onRtmpConnected
  | onRtmpReconnecting (times : ℕ)
  | onRtmpDisconnect
  | onRtmpStatusEvent (delayMs netBand : Int32)
deriving DecidableEq, Repr

def maxRetryTime : ℕ := 3

/-- How far the call of an encoder has got. -/
inductive EncoderCall
  | idle
  | entered (p : Bytes) (type : UInt8) (ts : UInt32)
  | queueing (pieces : List EncData)
deriving DecidableEq, Repr

/-- How far the thread has got in a turn of its loop. -/
inductive Turn
  | trying (status : RtmpStatus)
  | clearing
  | taking
  | sending (data : Option EncData)
deriving DecidableEq, Repr

structure AnyRtmpPush where
  running : Bool
  needKeyframe : Bool
  onlyAudioMode : Bool
  retrys : ℕ
  statTime : UInt32
  netBand : UInt32
  sound : SoundFormat
  lstEncData : List EncData
  rtmpStatus : RtmpStatus
  rtmp : Option Context
  call : EncoderCall
  turn : Option Turn
deriving DecidableEq, Repr

def AnyRtmpPush.new (sound : SoundFormat) : AnyRtmpPush :=
  ⟨true,true,false,0,0,0,sound,[],.init,some srsRtmpCreate,.idle,none⟩

inductive PushAction
  | setH264Data (p : Bytes) (ts : UInt32)
  | checkKeyframe
  | setAacData (p : Bytes) (ts : UInt32)
  | queueData
  | enableOnlyAudioMode
  | beginTurn
  | answered (ok : Bool)
  | clear
  | takeData
  | writeData (net : Network) (now later : ℤ)
  | close
  | destroy

/-- What is read of `rtc::Time()`. -/
def PushAction.times : PushAction → List ℤ
  | .writeData _ now later => [now,later]
  | _ => []

/-- What a step does besides changing the state. -/
inductive PushEvent
  | queued (data : EncData)
  | taken (data : EncData)
  | freed (data : EncData)
  | callback (callback : RtmpCallback)
deriving DecidableEq, Repr

namespace AnyRtmpPush
variable (s : AnyRtmpPush)

def callDisconnect : AnyRtmpPush × List PushEvent :=
  let s := {s with needKeyframe := true, rtmp := none}
  if s.rtmpStatus = .closed then (s,[])
  else
    let s := {s with rtmpStatus := .init, retrys := s.retrys + 1}
    if s.retrys ≤ maxRetryTime then
      ({s with rtmp := some srsRtmpCreate},[.callback (.onRtmpReconnecting s.retrys)])
    else (s,[.callback .onRtmpDisconnect])

/-- The statistics at the end of `DoSendData`: the time of the next ones is kept in 32 bits and compared with
the clock's 64. -/
def statics (now later : ℤ) : AnyRtmpPush × List PushEvent :=
  if s.statTime.toNat ≤ now then
    let delayMs := match s.lstEncData.head?, s.lstEncData.getLast? with
      | some front, some back => back.dts - front.dts
      | _, _ => 0
    ({s with statTime := UInt32.ofInt (later + 1000), netBand := 0},
      [.callback (.onRtmpStatusEvent delayMs.toInt32 (s.netBand * (8 + 1)).toInt32)])
  else (s,[])

/-- What `DoSendData` does with the data it has taken: it is not freed when the connection fails on
it, nor when it is metadata. `none` where the writing itself has no outcome. -/
def doSendData (net : Network) (now later : ℤ) (ctx : Context) (data : Option EncData) :
    Option (AnyRtmpPush × List PushEvent) :=
  let sent (e : EncData) (ctx : Context) : AnyRtmpPush × List PushEvent :=
    let s := {s with rtmp := some ctx, netBand := s.netBand + UInt32.ofNat e.data.length}
    let (s,events) := s.statics now later
    (s,.freed e :: events)
  match data with
  | none => some (s.statics now later)
  | some e =>
    match e.type with
    | .videoData =>
      (srsH264WriteRawFrames net ctx e.data e.dts e.dts).map fun (ret,ctx) =>
        if ret = 0 ∨ srsH264IsKnownError ret then sent e ctx else {s with rtmp := some ctx}.callDisconnect
    | .audioData =>
      (srsAudioWriteRawFrame net ctx s.sound e.data e.dts).map fun (ret,ctx) =>
        if ret = 0 then sent e ctx else {s with rtmp := some ctx}.callDisconnect
    | .metaData =>
      let (_,ctx) := srsRtmpWritePacket net ctx ⟨.script,e.dts,e.data⟩
      some ({s with rtmp := some ctx},[])

/-- A step and its events. -/
def transition : AnyRtmpPush → PushAction → Option (AnyRtmpPush × List PushEvent)
  | s, .setH264Data p ts =>
    if s.running ∧ s.call = .idle then
      p[4]?.map fun b =>
        let type := nalType b
        ({s with needKeyframe := s.needKeyframe && type ≠ nalSPS, call := .entered p type ts},[])
    else none
  | s, .checkKeyframe =>
    match s.call with
    | .entered p type ts =>
      if s.needKeyframe then some ({s with call := .idle},[])
      else some ({s with call := .queueing ((nalPieces p type).map fun nal => ⟨nal,.videoData,ts⟩)},[])
    | _ => none
  | s, .setAacData p ts =>
    if s.running ∧ s.call = .idle then
      if s.needKeyframe ∧ ¬ s.onlyAudioMode then some (s,[])
      else some ({s with call := .queueing [⟨p,.audioData,ts⟩]},[])
    else none
  | s, .queueData =>
    match s.call with
    | .queueing (e :: pieces) =>
      let call := if pieces = [] then EncoderCall.idle else .queueing pieces
      some ({s with call := call, lstEncData := s.lstEncData ++ [e]},[.queued e])
    | _ => none
  | s, .enableOnlyAudioMode => if s.running then some ({s with onlyAudioMode := true},[]) else none
  | s, .beginTurn =>
    if s.running ∧ s.turn = none ∧ s.rtmp ≠ none then
      match s.rtmpStatus with
      | .closed => none
      | .published => some ({s with turn := some .taking},[])
      | status => some ({s with turn := some (.trying status)},[])
    else none
  | s, .answered ok =>
    match s.turn with
    | some (.trying status) =>
      let s := {s with turn := none}
      if ok then
        match status with
        | .init => some ({s with rtmpStatus := .handshaked},[])
        | .handshaked => some ({s with rtmpStatus := .connected},[])
        | _ => some ({s with rtmpStatus := .published, needKeyframe := true, retrys := 0, turn := some .clearing},[])
      else some s.callDisconnect
    | _ => none
  | s, .clear =>
    if s.turn = some .clearing then
      some ({s with lstEncData := [], turn := none},
        s.lstEncData.flatMap (fun e => [.taken e,.freed e]) ++ [.callback .onRtmpConnected])
    else none
  | s, .takeData =>
    if s.turn = some .taking then
      some ({s with lstEncData := s.lstEncData.tail, turn := some (.sending s.lstEncData.head?)},
        s.lstEncData.head?.toList.map .taken)
    else none
  | s, .writeData net now later =>
    match s.turn, s.rtmp with
    | some (.sending data), some ctx => {s with turn := none}.doSendData net now later ctx data
    | _, _ => none
  | s, .close =>
    if s.running ∧ s.call = .idle then some ({s with running := false, rtmpStatus := .closed},[]) else none
  | s, .destroy =>
    if ¬ s.running ∧ s.turn = none then
      some ({s with rtmp := none, lstEncData := []},s.lstEncData.flatMap fun e => [.taken e,.freed e])
    else none

def step (s : AnyRtmpPush) (a : PushAction) : Option AnyRtmpPush := (transition s a).map Prod.fst

def events (s : AnyRtmpPush) (a : PushAction) : List PushEvent := ((transition s a).map Prod.snd).getD []

end AnyRtmpPush
end AdSystem.Stream
