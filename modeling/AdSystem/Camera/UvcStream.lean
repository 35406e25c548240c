import Mathlib.Data.Int.Notation
import AdSystem.Library.Transition

/-! # The stream of a camera

A camera's packets come in through one thread, which gathers the bytes of a frame in one buffer and
exchanges it for a second one when the frame is complete. Another thread copies the second buffer and
calls back the user. The reading of a packet's header is a step of its own: the other thread may be
woken by it before the packet's bytes are copied.
-/
namespace AdSystem.Camera

def uvcStreamErr : UInt8 := (1 : UInt8) <<< 6
def uvcStreamScr : UInt8 := (1 : UInt8) <<< 3
def uvcStreamPts : UInt8 := (1 : UInt8) <<< 2
def uvcStreamEof : UInt8 := (1 : UInt8) <<< 1
def uvcStreamFid : UInt8 := (1 : UInt8) <<< 0

def libuvcXferBufSize : ℕ := 16 * 1024 * 1024

/-- A packet of an isochronous transfer, and the transfer's memory from its place on. -/
structure IsoPacket where
  status : ℤ
  actualLength : ℕ
  pktbuf : Option (List UInt8)
deriving DecidableEq, Repr

/-- Four bytes, the lowest first. -/
def dwToInt (buf : List UInt8) (offset : ℕ) : Option UInt32 := do
  let b0 ← buf[offset]?
  let b1 ← buf[offset + 1]?
  let b2 ← buf[offset + 2]?
  let b3 ← buf[offset + 3]?
  return b0.toUInt32 ||| (b1.toUInt32 <<< 8) ||| (b2.toUInt32 <<< 16) ||| (b3.toUInt32 <<< 24)

/-- The second buffer, with what was noted about the frame in it. -/
structure HoldBuf where
  bytes : List UInt8
  bfhErr : UInt8
  seq : UInt32
  pts : UInt32
  lastScr : UInt32
deriving DecidableEq, Repr

/-- What the user is given: the bytes of the frame, and how many there is memory for. -/
structure UvcFrame where
  data : List UInt8
  dataBytes : ℕ
deriving DecidableEq, Repr

/-- `packet` is the packet whose header has been read, `lastSeq` the thread's own, and `calling` tells
whether it has let the lock go and not called back yet. -/
structure UvcStream where
  running : Bool
  fid : UInt8
  seq : UInt32
  pts : UInt32
  lastScr : UInt32
  bfhErr : UInt8
  outbuf : List UInt8
  hold : HoldBuf
  packet : Option IsoPacket
  lastSeq : UInt32
  calling : Bool
  frame : UvcFrame
deriving DecidableEq, Repr

/-- A stream that has been opened and started. -/
def UvcStream.start : UvcStream :=
  ⟨true,0,0,0,0,0,[],⟨[],0,0,0,0⟩,none,0,false,⟨[],0⟩⟩

inductive StreamAction
  | header (pkt : IsoPacket)
  | data
  | wake
  | call
  | stop
deriving DecidableEq, Repr

inductive StreamEvent
  | read (pkt : IsoPacket)
  | published (hold : HoldBuf)
  | delivered (frame : UvcFrame)
deriving DecidableEq, Repr

namespace UvcStream
variable (s : UvcStream)

def swapBuffers : UvcStream × List StreamEvent :=
  let hold : HoldBuf := ⟨s.outbuf,s.bfhErr,s.seq,s.pts,s.lastScr⟩
  ({s with hold := hold, seq := s.seq + 1, outbuf := [], lastScr := 0, pts := 0, bfhErr := 0},[.published hold])

def fault : UvcStream := {s with bfhErr := s.bfhErr ||| uvcStreamErr}

/-- A time is zero when the header that promises it is too short. -/
def readTime (present enough : Bool) (old : UInt32) (buf : List UInt8) (offset : ℕ) : Option UInt32 :=
  if present then if enough then dwToInt buf offset else some 0 else some old

/-- The times in a packet's header. -/
def readTimes (headerLen headerInfo : UInt8) (buf : List UInt8) : Option UvcStream :=
  (readTime (headerInfo &&& uvcStreamPts ≠ 0) (6 ≤ headerLen) s.pts buf 2).bind fun pts =>
    (readTime (headerInfo &&& uvcStreamScr ≠ 0) (10 ≤ headerLen) s.lastScr buf 6).map fun lastScr =>
      {s with pts := pts, lastScr := lastScr}

/-- The first part of a packet's turn: a frame whose last packet has not come ends with the next frame's
first one. -/
def readHeader (pkt : IsoPacket) : Option (UvcStream × List StreamEvent) :=
  if pkt.status ≠ 0 then some (s.fault,[])
  else if pkt.actualLength = 0 then some (s,[])
  else
    match pkt.pktbuf with
    | none => some (s.fault,[])
    | some (headerLen :: headerInfo :: buf) =>
      if headerInfo &&& uvcStreamErr ≠ 0 then some (s,[])
      else
        let fid := headerInfo &&& uvcStreamFid
        let (s,events) := if s.fid ≠ fid ∧ s.outbuf ≠ [] then s.swapBuffers else (s,[])
        ({s with fid := fid, packet := some pkt}.readTimes headerLen headerInfo (headerLen :: headerInfo :: buf)).map
          fun s => (s,events)
    | some _ => none

/-- The second part: a frame that the buffer cannot take fails an assertion. -/
def readData (pkt : IsoPacket) : Option (UvcStream × List StreamEvent) :=
  match pkt.pktbuf with
  | some (headerLen :: headerInfo :: buf) =>
    if pkt.actualLength < headerLen.toNat then some (s.fault,[.read pkt])
    else
      let data := ((headerLen :: headerInfo :: buf).take pkt.actualLength).drop headerLen.toNat
      if data = [] ∨ s.outbuf.length + data.length < libuvcXferBufSize then
        let s := {s with outbuf := s.outbuf ++ data}
        if headerInfo &&& uvcStreamEof ≠ 0 ∧ s.outbuf ≠ [] then
          some (s.swapBuffers.1,.read pkt :: s.swapBuffers.2)
        else some (s,[.read pkt])
      else none
  | _ => none

/-- The memory for the frame only ever grows. -/
def populateFrame : UvcStream :=
  {s with frame := ⟨s.hold.bytes,max s.frame.dataBytes s.hold.bytes.length⟩}

/-- A step and its events. -/
def transition : UvcStream → StreamAction → Option (UvcStream × List StreamEvent)
  | s, .header pkt =>
    if s.packet = none ∧ pkt.pktbuf.all (pkt.actualLength ≤ ·.length) then s.readHeader pkt
    else none
  | s, .data => s.packet.bind fun pkt => {s with packet := none}.readData pkt
  | s, .wake =>
    if s.running ∧ s.calling = false ∧ s.lastSeq ≠ s.hold.seq then
      let s := {s with lastSeq := s.hold.seq, calling := true}
      some (if s.hold.bfhErr = 0 then s.populateFrame else s,[])
    else none
  | s, .call =>
    if s.calling then
      some ({s with calling := false},if s.hold.bfhErr = 0 then [.delivered s.frame] else [])
    else none
  | s, .stop => if s.running then some ({s with running := false},[]) else none

def step (s : UvcStream) (a : StreamAction) : Option UvcStream := (transition s a).map Prod.fst

def events (s : UvcStream) (a : StreamAction) : List StreamEvent := ((transition s a).map Prod.snd).getD []

end UvcStream
end AdSystem.Camera
