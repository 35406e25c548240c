import Mathlib.Logic.Function.Basic
import AdSystem.Library.Transition

/-! # The frames of a preview

The native preview copies each picture of the camera to a frame of its own, and the frames go from the
stream's thread through a queue to the preview's thread, which draws them, and from there to the capture
thread, which calls back the application. Frames that are done with wait in a pool for their next use.
A frame is known by its address here; what it holds is in the memory.
-/
namespace AdSystem.Camera

def maxFrame : ℕ := 4
def framePoolSz : ℕ := maxFrame + 2

/-- `uvc_preview_frame_callback`. -/
inductive StreamThread (α : Type*)
  | idle
  | duplicating (copy : ℕ) (picture : α)
  | adding (copy : ℕ)
  | recycling (copy : ℕ)

/-- `prepare_preview` and `do_preview`. -/
inductive PreviewThread
  | starting
  | clearing
  | looping
  | taken (frameMjpeg : ℕ)
  | decoding (frameMjpeg frame : ℕ)
  | failed (frame : ℕ)
  | drawing (frame : ℕ)
  | converting (frame converted : ℕ)
  | drawn (frame : ℕ)
  | stopping
deriving DecidableEq, Repr

/-- `do_capture`, for an application that has set no capture window. -/
inductive CaptureThread
  | starting
  | looping
  | taken (frame : ℕ)
  | converting (frame callbackFrame : ℕ)
  | calling (callbackFrame : ℕ)
  | recycling (frame : ℕ)
deriving DecidableEq, Repr

/-- How pictures are decoded, where the camera sends them coded, and what the application is called back
with: pictures as they are, or converted ones. Either conversion may fail. -/
structure PreviewMode (α : Type*) where
  mjpeg2yuyv : Option (α → Option α)
  frameCallback : Option (Option (α → Option α))

structure NativePreview (α : Type*) where
  isRunning : Bool
  streaming : Bool
  clearing : Bool
  previewWindow : Bool
  framePool : List ℕ
  previewFrames : List ℕ
  captureQueu : Option ℕ
  stream : StreamThread α
  preview : Option PreviewThread
  capture : Option CaptureThread
  memory : ℕ → Option α
  allocated : ℕ

def NativePreview.new {α : Type*} : NativePreview α :=
  ⟨false,false,false,false,[],[],none,.idle,none,none,fun _ => none,0⟩

/-- A picture from the camera, the next step of one of the threads, the camera's refusal to start, or a call of
the application. -/
inductive PreviewAction (α : Type*)
  | onFrame (picture : α)
  | streamStep
  | previewStep
  | captureStep
  | refuseStart
  | setPreviewDisplay (window : Bool)
  | startPreview
  | stopPreview
  | clearStopped

inductive FrameEvent (α : Type*)
  | copied (picture : α)
  | called (picture : Option α)
  | freed (frame : ℕ)
  | lost (frame : ℕ)

/-- The last frame of the pool, or a new one. -/
def getFrame (framePool : List ℕ) (allocated : ℕ) : ℕ × List ℕ × ℕ :=
  match framePool.getLast? with
  | some frame => (frame,framePool.dropLast,allocated)
  | none => (allocated,framePool,allocated + 1)

/-- The pool, and the frames it has no room for. -/
def recycleFrames (framePool : List ℕ) : List ℕ → List ℕ × List ℕ
  | [] => (framePool,[])
  | frame :: frames =>
    if framePool.length < framePoolSz then recycleFrames (framePool ++ [frame]) frames
    else ((recycleFrames framePool frames).1,frame :: (recycleFrames framePool frames).2)

namespace NativePreview
variable {α : Type*} (mode : PreviewMode α) (s : NativePreview α)

def recycle (frames : List ℕ) : NativePreview α × List (FrameEvent α) :=
  ({s with framePool := (recycleFrames s.framePool frames).1},(recycleFrames s.framePool frames).2.map .freed)

def write (frame : ℕ) (picture : Option α) : NativePreview α :=
  {s with memory := Function.update s.memory frame picture}

def streamStep : Option (NativePreview α × List (FrameEvent α)) :=
  match s.stream with
  | .idle => none
  | .duplicating copy picture => some ({s.write copy (some picture) with stream := .adding copy},[.copied picture])
  | .adding copy =>
    if s.isRunning ∧ s.previewFrames.length < maxFrame then
      some ({s with previewFrames := s.previewFrames ++ [copy], stream := .idle},[])
    else some ({s with stream := .recycling copy},[])
  | .recycling copy => some ({s with stream := .idle}.recycle [copy])

def previewStep : PreviewThread → Option (NativePreview α × List (FrameEvent α))
  | .starting => some ({s with streaming := true, preview := some .clearing},[])
  | .clearing =>
    some ({s with previewFrames := [], capture := some .starting, preview := some .looping}.recycle s.previewFrames)
  | .looping =>
    if s.isRunning then
      match s.previewFrames with
      | frame :: frames =>
        some ({s with
          previewFrames := frames
          preview := some (if mode.mjpeg2yuyv.isSome then .taken frame else .drawing frame)},[])
      | [] => some (s,[])
    else some ({s with preview := some .stopping},[])
  | .taken frameMjpeg =>
    let (frame,framePool,allocated) := getFrame s.framePool s.allocated
    some ({s with framePool := framePool, allocated := allocated, preview := some (.decoding frameMjpeg frame)},[])
  | .decoding frameMjpeg frame =>
    match mode.mjpeg2yuyv.bind fun mjpeg2yuyv => (s.memory frameMjpeg).bind mjpeg2yuyv with
    | some picture =>
      some ({s.write frame (some picture) with preview := some (.drawing frame)}.recycle [frameMjpeg])
    | none => some ({s with preview := some (.failed frame)}.recycle [frameMjpeg])
  | .failed frame => some ({s with preview := some .looping}.recycle [frame])
  | .drawing frame =>
    if s.previewWindow then
      let (converted,framePool,allocated) := getFrame s.framePool s.allocated
      some ({s with framePool := framePool, allocated := allocated, preview := some (.converting frame converted)},[])
    else some ({s with preview := some (.drawn frame)},[])
  | .converting frame converted =>
    some ({s.write converted none with preview := some (.drawn frame)}.recycle [converted])
  | .drawn frame =>
    if s.isRunning then
      some ({s with captureQueu := some frame, preview := some .looping}.recycle s.captureQueu.toList)
    else some ({s with preview := some .looping},[.lost frame])
  | .stopping =>
    match s.stream with
    | .idle => some ({s with streaming := false, preview := none},[])
    | _ => none

def captureStep : CaptureThread → Option (NativePreview α × List (FrameEvent α))
  | .starting => some ({s with captureQueu := none, capture := some .looping}.recycle s.captureQueu.toList)
  | .looping =>
    if s.isRunning then
      match s.captureQueu with
      | some frame => some ({s with captureQueu := none, capture := some (.taken frame)},[])
      | none => some (s,[])
    else some ({s with capture := none},[])
  | .taken frame =>
    match mode.frameCallback with
    | none => some ({s with capture := some (.recycling frame)},[])
    | some none => some ({s with capture := some (.recycling frame)},[.called (s.memory frame)])
    | some (some _) =>
      let (callbackFrame,framePool,allocated) := getFrame s.framePool s.allocated
      some ({s with
        framePool := framePool
        allocated := allocated
        capture := some (.converting frame callbackFrame)},[])
  | .converting frame callbackFrame =>
    match mode.frameCallback.bind fun func => func.bind fun func => (s.memory frame).bind func with
    | some picture =>
      some ({s.write callbackFrame (some picture) with capture := some (.calling callbackFrame)}.recycle [frame])
    | none => some ({s with capture := some (.recycling callbackFrame)}.recycle [frame])
  | .calling callbackFrame =>
    some ({s with capture := some (.recycling callbackFrame)},[.called (s.memory callbackFrame)])
  | .recycling frame => some ({s with capture := some .looping}.recycle [frame])

/-- A step and its events. -/
def transition : NativePreview α → PreviewAction α → Option (NativePreview α × List (FrameEvent α))
  | s, .onFrame picture =>
    match s.stream with
    | .idle =>
      if s.streaming then
        if s.isRunning then
          let (copy,framePool,allocated) := getFrame s.framePool s.allocated
          some ({s with framePool := framePool, allocated := allocated, stream := .duplicating copy picture},[])
        else some (s,[])
      else none
    | _ => none
  | s, .streamStep => s.streamStep
  | s, .previewStep => s.preview.bind fun thread => s.previewStep mode thread
  | s, .captureStep => s.capture.bind fun thread => s.captureStep mode thread
  | s, .refuseStart => if s.preview = some .starting then some ({s with preview := none},[]) else none
  | s, .setPreviewDisplay window => some ({s with previewWindow := window},[])
  | s, .startPreview =>
    if s.isRunning = false ∧ s.clearing = false ∧ s.preview = none ∧ s.capture = none then
      if s.previewWindow then some ({s with isRunning := true, preview := some .starting},[]) else some (s,[])
    else none
  | s, .stopPreview => if s.clearing then none else some ({s with isRunning := false, clearing := true},[])
  | s, .clearStopped =>
    if s.clearing ∧ s.preview = none ∧ s.capture = none then
      some ({s with clearing := false, previewWindow := false, previewFrames := [], captureQueu := none}.recycle
        (s.previewFrames ++ s.captureQueu.toList))
    else none

def step (s : NativePreview α) (a : PreviewAction α) : Option (NativePreview α) := (transition mode s a).map Prod.fst

def events (s : NativePreview α) (a : PreviewAction α) : List (FrameEvent α) :=
  ((transition mode s a).map Prod.snd).getD []

end NativePreview
end AdSystem.Camera
