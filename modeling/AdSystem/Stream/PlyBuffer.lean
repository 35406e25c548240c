import AdSystem.Stream.NalSplit

/-! # The buffer of a player

One thread reads the stream and puts its pictures and sounds into two lists, the audio device takes
the sounds out, and the decoder's thread wakes every five milliseconds to start or stop the playing
and to take the pictures whose time has come. Between the pieces of code that a lock ties together
the other threads go on.
-/
namespace AdSystem.Stream

structure PlyPacket where
  data : Bytes
  /-- What the memory held behind a picture's data. -/
  slack : Bytes
  bVideo : Bool
  dts : UInt32
deriving DecidableEq, Repr

/-- The type of a picture: there is no byte to read when no data has been set. -/
def PlyPacket.frameType (pkt : PlyPacket) : Option UInt8 :=
  if pkt.data = [] then none else (pkt.data ++ pkt.slack)[4]?.map nalType

inductive PlyStuts
  | fast
  | normal
  | cache
deriving DecidableEq, Repr

def plyRedTime : UInt32 := 250
def plyMaxDelay : UInt32 := 1000
def plyMaxCache : ℕ := 16

/-- How far the reading thread has got with a picture. -/
inductive Caching
  | timing (pkt : PlyPacket)
  | pushing (pkt : PlyPacket)
deriving DecidableEq, Repr

/-- How far the decoder's thread has got in `DoDecode`. -/
inductive Tick
  | measuring (curTime playVideoTime : UInt32)
  | measuringVideo (curTime playVideoTime : UInt32)
  | choosing (mediaBufTime playVideoTime : UInt32)
  | deciding (mediaBufTime : UInt32)
deriving DecidableEq, Repr

/-- A decoder with its buffer. -/
structure PlyDecoder where
  gotAudio : Bool
  cacheTime : ℕ
  cacheDelta : ℕ
  bufCacheTime : Int32
  plyStatus : PlyStuts
  sysFastVideoTime : UInt32
  rtmpFastVideoTime : UInt32
  rtmpCacheTime : UInt32
  playCurTime : UInt32
  lstAudioBuffer : List PlyPacket
  lstVideoBuffer : List PlyPacket
  playing : Bool
  lstH264Buffer : List PlyPacket
  caching : Option Caching
  tick : Option Tick
  fetching : Bool
deriving DecidableEq, Repr

def PlyDecoder.new : PlyDecoder :=
  ⟨false,1000,1,0,.fast,0,0,0,0,[],[],false,[],none,none,false⟩

inductive PlayAction
  | cacheH264Data (p slack : Bytes) (ts : UInt32) (time : ℕ)
  | setVideoTime
  | pushVideo
  | cachePcmData (p : Bytes) (ts : UInt32) (time : ℕ)
  | doDecode (time : ℕ)
  | measureAudio
  | measureVideo
  | takeVideo
  | decide (time : ℕ)
  | decodeNext
  | getPcmData
  | getPlayAudio
deriving DecidableEq, Repr

/-- What is read of `rtc::Time()`. -/
def PlayAction.times : PlayAction → List ℕ
  | .cacheH264Data _ _ _ time | .cachePcmData _ _ time | .doDecode time | .decide time => [time]
  | _ => []

inductive PlayEvent
  | cachedPicture (pkt : PlyPacket)
  | cachedSound (pkt : PlyPacket)
  | handed (pkt : PlyPacket)
  | skipped (pkt : PlyPacket)
  | decoded (pkt : PlyPacket) (key : Bool)
  | played (pkt : PlyPacket)
  | onPlay
  | onPause
deriving DecidableEq, Repr

/-- The time between the two ends of a list. -/
def bufTime (l : List PlyPacket) : UInt32 :=
  match l.head?, l.getLast? with
  | some front, some back => back.dts - front.dts
  | _, _ => 0

namespace PlyDecoder
variable (s : PlyDecoder)

def isPlaying : Bool := s.plyStatus ≠ .cache

/-- The start of the playing, `PS_Fast`. -/
def startPlay (videoSysGap : UInt32) : PlyDecoder × List PlayEvent :=
  let play (front : PlyPacket) : PlyDecoder × List PlayEvent :=
    ({s with plyStatus := .normal, playCurTime := front.dts, playing := true},[.onPlay])
  if plyRedTime ≤ videoSysGap then
    match s.lstAudioBuffer.head? with
    | some front => if plyRedTime < bufTime s.lstAudioBuffer then play front else (s,[])
    | none =>
      if plyRedTime * 4 ≤ videoSysGap then
        match s.lstVideoBuffer.head? with
        | some front => play front
        | none => (s,[])
      else (s,[])
  else (s,[])

/-- The pictures are looked at only where there has been no sound. -/
def measured (mediaBufTime playVideoTime : UInt32) : PlyDecoder :=
  {s with tick := some (if s.plyStatus = .normal then .choosing mediaBufTime playVideoTime
    else .deciding mediaBufTime)}

/-- What the decoder has not come to is thrown away at a key frame. -/
def onNeedDecodeData (pkt : PlyPacket) : Option (PlyDecoder × List PlayEvent) :=
  if pkt.bVideo then
    pkt.frameType.map fun type =>
      if type = nalSPS then
        ({s with lstH264Buffer := [pkt]},s.lstH264Buffer.map .skipped ++ [.handed pkt])
      else ({s with lstH264Buffer := s.lstH264Buffer ++ [pkt]},[.handed pkt])
  else some (s,[])

/-- The end of `DoDecode`. -/
def conclude (mediaBufTime : UInt32) (time : ℕ) : Option (PlyDecoder × List PlayEvent) :=
  match s.plyStatus with
  | .fast => none
  | .normal =>
    let s := {s with bufCacheTime := mediaBufTime.toInt32}
    if mediaBufTime ≤ plyRedTime then
      let cacheTime := s.cacheDelta * 1000
      some ({s with
        playing := false
        plyStatus := .cache
        cacheTime := cacheTime
        cacheDelta := if s.cacheDelta < plyMaxCache then s.cacheDelta * 2 else s.cacheDelta
        rtmpCacheTime := UInt32.ofNat (time + cacheTime)},[.onPause])
    else some (s,[])
  | .cache =>
    let sysFastVideoTime :=
      if s.gotAudio then s.sysFastVideoTime else s.sysFastVideoTime + UInt32.ofNat s.cacheTime
    let s := {s with sysFastVideoTime := sysFastVideoTime, bufCacheTime := mediaBufTime.toInt32}
    if UInt32.ofNat s.cacheTime - plyRedTime ≤ mediaBufTime then
      some ({s with
        plyStatus := .normal
        cacheDelta := if s.cacheDelta = plyMaxCache then s.cacheDelta / 2 else s.cacheDelta
        playing := true},[.onPlay])
    else some ({s with rtmpCacheTime := UInt32.ofNat (time + s.cacheTime)},[])

/-- A step and its events. -/
def transition : PlyDecoder → PlayAction → Option (PlyDecoder × List PlayEvent)
  | s, .cacheH264Data p slack ts time =>
    if s.caching = none ∧ slack.length = 8 then
      let pkt : PlyPacket := ⟨p,slack,true,ts⟩
      if s.sysFastVideoTime = 0 then
        some ({s with sysFastVideoTime := UInt32.ofNat time, caching := some (.timing pkt)},[])
      else some ({s with caching := some (.pushing pkt)},[])
    else none
  | s, .setVideoTime =>
    match s.caching with
    | some (.timing pkt) => some ({s with rtmpFastVideoTime := pkt.dts, caching := some (.pushing pkt)},[])
    | _ => none
  | s, .pushVideo =>
    match s.caching with
    | some (.pushing pkt) =>
      some ({s with lstVideoBuffer := s.lstVideoBuffer ++ [pkt], caching := none},[.cachedPicture pkt])
    | _ => none
  | s, .cachePcmData p ts time =>
    if s.caching = none then
      let pkt : PlyPacket := ⟨p,[],false,ts⟩
      let s := {s with gotAudio := true, lstAudioBuffer := s.lstAudioBuffer ++ [pkt]}
      if s.sysFastVideoTime = 0 ∧ plyMaxDelay ≤ bufTime s.lstAudioBuffer then
        some ({s with sysFastVideoTime := UInt32.ofNat time, rtmpFastVideoTime := ts},[.cachedSound pkt])
      else some (s,[.cachedSound pkt])
    else none
  | s, .doDecode time =>
    if s.tick = none then
      if s.sysFastVideoTime = 0 then some (s,[])
      else
        let curTime := UInt32.ofNat time
        match s.plyStatus with
        | .fast => some (s.startPlay (curTime - s.sysFastVideoTime))
        | .normal => some ({s with tick := some (.measuring curTime s.playCurTime)},[])
        | .cache =>
          if s.rtmpCacheTime.toNat ≤ time then
            some ({s with tick := some (.measuring curTime s.playCurTime)},[])
          else some (s,[])
    else none
  | s, .measureAudio =>
    match s.tick with
    | some (.measuring curTime playVideoTime) =>
      let mediaBufTime := bufTime s.lstAudioBuffer
      if mediaBufTime = 0 ∧ ¬ s.gotAudio then
        some ({s with tick := some (.measuringVideo curTime playVideoTime)},[])
      else some (s.measured mediaBufTime playVideoTime,[])
    | _ => none
  | s, .measureVideo =>
    match s.tick with
    | some (.measuringVideo curTime playVideoTime) =>
      if s.lstVideoBuffer = [] then some (s.measured 0 playVideoTime,[])
      else
        some (s.measured (bufTime s.lstVideoBuffer)
          (s.rtmpFastVideoTime + (curTime - s.sysFastVideoTime)),[])
    | _ => none
  | s, .takeVideo =>
    match s.tick with
    | some (.choosing mediaBufTime playVideoTime) =>
      let s := {s with tick := some (.deciding mediaBufTime)}
      match s.lstVideoBuffer with
      | front :: rest =>
        if front.dts ≤ playVideoTime then {s with lstVideoBuffer := rest}.onNeedDecodeData front
        else some (s,[])
      | [] => some (s,[])
    | _ => none
  | s, .decide time =>
    match s.tick with
    | some (.deciding mediaBufTime) => {s with tick := none}.conclude mediaBufTime time
    | _ => none
  | s, .decodeNext =>
    if s.tick = none then
      match s.lstH264Buffer with
      | pkt :: rest =>
        pkt.frameType.map fun type => ({s with lstH264Buffer := rest},[.decoded pkt (type = nalSPS)])
      | [] => some (s,[])
    else none
  | s, .getPcmData => if s.fetching then none else some ({s with fetching := s.playing},[])
  | s, .getPlayAudio =>
    if s.fetching then
      match s.lstAudioBuffer with
      | front :: rest =>
        some ({s with lstAudioBuffer := rest, playCurTime := front.dts, fetching := false},[.played front])
      | [] => some ({s with fetching := false},[])
    else none

def step (s : PlyDecoder) (a : PlayAction) : Option PlyDecoder := (transition s a).map Prod.fst

def events (s : PlyDecoder) (a : PlayAction) : List PlayEvent := ((transition s a).map Prod.snd).getD []

end PlyDecoder
end AdSystem.Stream
