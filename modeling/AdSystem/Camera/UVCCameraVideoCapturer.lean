import Mathlib.Data.Nat.Notation
import Mathlib.Data.List.Basic

/-! # The capturer and its camera thread

Calls post tasks to the camera thread, once there is a handler. The handler comes with
the first start and is never given back.
-/
namespace AdSystem.Camera.Capturer

inductive Thrown where
  | illegalArgument
  | runtimeException
  | nullPointer
  deriving DecidableEq, Repr

structure FramerateRange where
  min : ℕ
  max : ℕ
  deriving DecidableEq, Repr

structure CaptureFormat where
  width : ℕ
  height : ℕ
  framerate : FramerateRange
  deriving DecidableEq, Repr

/-- The format of every preview: size and framerate are fixed. -/
def previewFormat : CaptureFormat := ⟨640,480,⟨5000,30000⟩⟩

/-- What is posted to the camera thread. Arrays, observers and helpers are references. -/
inductive CameraTask where
  | startCapture (width height framerate observer : ℕ)
  | startPreview (width height framerate : ℕ)
  | frame (frameData : ℕ)
  deriving DecidableEq, Repr

/-- What happens at the interface: calls with their outcome, and calls made. -/
inductive CaptureEvent where
  | startCapture (observer : ℕ) (threw : Option Thrown)
  | stopCapture
  | setUVCPreviewTexture (helper : ℕ)
  | setUVCPreviewSizeRate (format : CaptureFormat)
  | setUVCCameraFrameCallback (present : Bool)
  | stopUVCPreview
  /-- The preview starts while this observer is installed. -/
  | startUVCPreview (installed : Option ℕ)
  | onCapturerStarted (observer : ℕ) (success : Bool)
  | onByteBufferFrameCaptured (observer frameData width height : ℕ)
  /-- A task ends by an exception. -/
  | uncaught (e : Thrown)
  deriving DecidableEq, Repr

/-- The fields, the tasks posted and not run, and what has happened, latest first. -/
structure UVCCameraVideoCapturer where
  mSurfaceHelper : Option ℕ
  mCameraThreadHandler : Option ℕ
  captureFormat : Option CaptureFormat
  frameObserver : Option ℕ
  tasks : List CameraTask
  log : List CaptureEvent
  deriving DecidableEq, Repr

namespace UVCCameraVideoCapturer

def initial : UVCCameraVideoCapturer := ⟨none,none,none,none,[],[]⟩

def event (s : UVCCameraVideoCapturer) (e : CaptureEvent) : UVCCameraVideoCapturer := { s with log := e :: s.log }

/-- Nothing is posted without a handler. -/
def maybePostOnCameraThread (s : UVCCameraVideoCapturer) (task : CameraTask) : UVCCameraVideoCapturer :=
  if s.mCameraThreadHandler.isSome then { s with tasks := s.tasks ++ [task] } else s

/-- The handler of a helper is known by the helper. -/
def startCapture (s : UVCCameraVideoCapturer) (width height framerate : ℕ)
    (surfaceTextureHelper applicationContext : Option ℕ) (observer : ℕ) : UVCCameraVideoCapturer :=
  match surfaceTextureHelper with
  | none => (s.event (.onCapturerStarted observer false)).event (.startCapture observer none)
  | some helper =>
    if applicationContext.isNone then s.event (.startCapture observer (some .illegalArgument))
    else if s.mCameraThreadHandler.isSome then s.event (.startCapture observer (some .runtimeException))
    else
      ({ s with mCameraThreadHandler := some helper, mSurfaceHelper := some helper }.maybePostOnCameraThread
        (.startCapture width height framerate observer)).event (.startCapture observer none)

/-- The body of `stopCapture` is empty. -/
def stopCapture (s : UVCCameraVideoCapturer) : UVCCameraVideoCapturer := s.event .stopCapture

def changeCaptureFormat (s : UVCCameraVideoCapturer) (width height framerate : ℕ) : UVCCameraVideoCapturer :=
  s.maybePostOnCameraThread (.startPreview width height framerate)

def onUVCFrame (s : UVCCameraVideoCapturer) (frameData : ℕ) : UVCCameraVideoCapturer :=
  s.maybePostOnCameraThread (.frame frameData)

/-- A format that is in use already changes nothing. -/
def startPreviewOnCameraThread (s : UVCCameraVideoCapturer) : UVCCameraVideoCapturer :=
  if s.mCameraThreadHandler.isNone then s
  else if s.captureFormat = some previewFormat then s
  else
    let s := s.event (.setUVCPreviewSizeRate previewFormat)
    let s := if s.captureFormat.isSome then (s.event .stopUVCPreview).event (.setUVCCameraFrameCallback false) else s
    let s := { s with captureFormat := some previewFormat }.event (.setUVCCameraFrameCallback true)
    s.event (.startUVCPreview s.frameObserver)

def startCaptureOnCameraThread (s : UVCCameraVideoCapturer) (observer : ℕ) : UVCCameraVideoCapturer :=
  if s.mCameraThreadHandler.isNone then s
  else
    let s := { s with frameObserver := some observer }
    match s.mSurfaceHelper with
    | none => s.event (.uncaught .nullPointer)
    | some helper =>
      (s.event (.setUVCPreviewTexture helper)).startPreviewOnCameraThread.event (.onCapturerStarted observer true)

def onUVCFrameRunOnCameraThread (s : UVCCameraVideoCapturer) (frameData : ℕ) : UVCCameraVideoCapturer :=
  if s.mCameraThreadHandler.isNone then s
  else
    match s.frameObserver, s.captureFormat with
    | some observer, some format =>
      s.event (.onByteBufferFrameCaptured observer frameData format.width format.height)
    | _, _ => s.event (.uncaught .nullPointer)

/-- The widths, heights and rates asked for are not looked at. -/
def run (s : UVCCameraVideoCapturer) : CameraTask → UVCCameraVideoCapturer
  | .startCapture _ _ _ observer => s.startCaptureOnCameraThread observer
  | .startPreview _ _ _ => s.startPreviewOnCameraThread
  | .frame frameData => s.onUVCFrameRunOnCameraThread frameData

end UVCCameraVideoCapturer

inductive CapturerAction where
  /-- With a helper, a context and an observer. -/
  | startCapture (width height framerate helper context observer : ℕ)
  | stopCapture
  | changeCaptureFormat (width height framerate : ℕ)
  | onUVCFrame (frameData : ℕ)
  | runTask
  deriving DecidableEq, Repr

namespace UVCCameraVideoCapturer

def step (s : UVCCameraVideoCapturer) : CapturerAction → Option UVCCameraVideoCapturer
  | .startCapture width height framerate helper context observer =>
    some (s.startCapture width height framerate (some helper) (some context) observer)
  | .stopCapture => some s.stopCapture
  | .changeCaptureFormat width height framerate => some (s.changeCaptureFormat width height framerate)
  | .onUVCFrame frameData => some (s.onUVCFrame frameData)
  | .runTask =>
    match s.tasks with
    | [] => none
    | task :: tasks => some ({ s with tasks }.run task)

variable {s : UVCCameraVideoCapturer} {e : CaptureEvent} {task : CameraTask}

@[simp] theorem event_mCameraThreadHandler : (s.event e).mCameraThreadHandler = s.mCameraThreadHandler := rfl
@[simp] theorem event_captureFormat : (s.event e).captureFormat = s.captureFormat := rfl
@[simp] theorem event_log : (s.event e).log = e :: s.log := rfl

end UVCCameraVideoCapturer
end AdSystem.Camera.Capturer
