import AdSystem.Library.BufferLine
import AdSystem.Camera.PreviewFrames

/-! # Who has a frame

Every frame ever allocated is in the pool, at one place on the way from the camera to the application, with a
thread that is about to write it or to give it back, or gone.
-/
namespace AdSystem.Camera
open Transition BufferLine
variable {α : Type*}

namespace PreviewMode
variable (mode : PreviewMode α)

/-- What becomes of a picture that the camera has sent. -/
def decode : α → Option α := mode.mjpeg2yuyv.getD some

def callback : α → Option α :=
  match mode.frameCallback with
  | none => fun _ => none
  | some func => func.getD some

def shown (picture : α) : Option α := (mode.decode picture).bind mode.callback

end PreviewMode

namespace StreamThread

@[simp] def coded : StreamThread α → List ℕ
  | .idle => []
  | .duplicating _ _ => []
  | .adding copy => [copy]
  | .recycling _ => []

@[simp] def spare : StreamThread α → List ℕ
  | .idle => []
  | .duplicating copy _ => [copy]
  | .adding _ => []
  | .recycling copy => [copy]

end StreamThread

namespace PreviewThread

@[simp] def coded : PreviewThread → List ℕ
  | .taken frameMjpeg => [frameMjpeg]
  | .decoding frameMjpeg _ => [frameMjpeg]
  | _ => []

@[simp] def decoded : PreviewThread → List ℕ
  | .drawing frame => [frame]
  | .converting frame _ => [frame]
  | .drawn frame => [frame]
  | _ => []

@[simp] def spare : PreviewThread → List ℕ
  | .decoding _ frame => [frame]
  | .failed frame => [frame]
  | .converting _ converted => [converted]
  | _ => []

end PreviewThread

namespace CaptureThread

@[simp] def decoded : CaptureThread → List ℕ
  | .taken frame => [frame]
  | .converting frame _ => [frame]
  | _ => []

@[simp] def converted : CaptureThread → List ℕ
  | .calling callbackFrame => [callbackFrame]
  | _ => []

@[simp] def spare : CaptureThread → List ℕ
  | .converting _ callbackFrame => [callbackFrame]
  | .recycling frame => [frame]
  | _ => []

end CaptureThread

def FrameEvent.gone : FrameEvent α → Option ℕ
  | .freed frame => some frame
  | .lost frame => some frame
  | _ => none

def FrameEvent.lostFrame : FrameEvent α → Option ℕ
  | .lost frame => some frame
  | _ => none

def FrameEvent.copiedPicture : FrameEvent α → Option α
  | .copied picture => some picture
  | _ => none

def FrameEvent.calledPicture : FrameEvent α → Option (Option α)
  | .called picture => some picture
  | _ => none

theorem kept_getFrame {β : Type*} {framePool framePool' : List ℕ} {rest : Multiset ℕ}
    {line : List (ℕ × (α → Option β))} {memory : ℕ → Option α} {allocated allocated' frame : ℕ} {gone : List ℕ}
    {put taken : List β} (hget : getFrame framePool allocated = (frame,framePool',allocated'))
    (h : Kept (framePool + rest) line memory allocated gone put taken) :
    Kept ({frame} + (framePool' + rest)) line memory allocated' gone put taken := by
  unfold getFrame at hget
  cases hlast : framePool.getLast? with
  | none =>
    rw [hlast] at hget
    cases hget
    exact h.allocate
  | some last =>
    rw [hlast] at hget
    cases hget
    rw [← add_assoc, ← Multiset.coe_singleton, Multiset.coe_add, Multiset.coe_eq_coe.mpr List.perm_append_comm,
      List.dropLast_append_getLast? frame hlast]
    exact h

theorem recycleFrames_add (framePool frames : List ℕ) :
    ((recycleFrames framePool frames).1 + (recycleFrames framePool frames).2 : Multiset ℕ) = framePool + frames := by
  induction frames generalizing framePool with
  | nil => rfl
  | cons frame frames ih =>
    rw [recycleFrames]
    split_ifs
    · rw [ih, ← Multiset.coe_add, Multiset.coe_singleton, ← Multiset.cons_coe, ← Multiset.singleton_add, add_assoc]
    · rw [← Multiset.cons_coe, ← Multiset.cons_coe, Multiset.add_cons, Multiset.add_cons, ih]

theorem kept_recycle {β : Type*} {framePool frames : List ℕ} {rest : Multiset ℕ} {line : List (ℕ × (α → Option β))}
    {memory : ℕ → Option α} {allocated : ℕ} {gone : List ℕ} {put taken : List β}
    (h : Kept (frames + (framePool + rest)) line memory allocated gone put taken) :
    Kept ((recycleFrames framePool frames).1 + rest) line memory allocated
      (gone ++ (recycleFrames framePool frames).2) put taken := by
  refine Kept.free ?_
  rw [← add_assoc, add_comm ((recycleFrames framePool frames).2 : Multiset ℕ), recycleFrames_add,
    add_comm (framePool : Multiset ℕ), add_assoc]
  exact h

namespace NativePreview
variable (mode : PreviewMode α) (s : NativePreview α)

/-- The frames that a thread is about to write, or to give back. -/
def spare : Multiset ℕ :=
  s.stream.spare + s.preview.elim [] PreviewThread.spare + s.capture.elim [] CaptureThread.spare

/-- The frames that the preview's thread is done with. -/
def ahead : List (ℕ × (α → Option α)) :=
  (s.capture.elim [] CaptureThread.converted).map (·,some) ++
    (s.capture.elim [] CaptureThread.decoded ++ s.captureQueu.toList).map (·,mode.callback)

/-- The frames that wait for the preview's thread. -/
def behind : List (ℕ × (α → Option α)) := (s.previewFrames ++ s.stream.coded).map (·,mode.shown)

/-- The frames on their way to the application. -/
def line : List (ℕ × (α → Option α)) :=
  s.ahead mode ++ (s.preview.elim [] PreviewThread.decoded).map (·,mode.callback) ++
    (s.preview.elim [] PreviewThread.coded).map (·,mode.shown) ++ s.behind mode

/-- No frame is in two places, where a step has the frames `held` still in its hands. -/
def Keeps (held gone : List ℕ) (put taken : List α) : Prop :=
  Kept (held + (s.framePool + s.spare)) (s.line mode) s.memory s.allocated gone put taken

variable {mode s}
variable {t : NativePreview α} {events : List (FrameEvent α)} {held gone : List ℕ} {put taken : List α}

theorem keeps_iff_stream : s.Keeps mode held gone put taken ↔
    Kept (held + (s.stream.spare + (s.framePool +
        (s.preview.elim [] PreviewThread.spare + s.capture.elim [] CaptureThread.spare : Multiset ℕ))))
      (s.ahead mode ++ (s.preview.elim [] PreviewThread.decoded).map (·,mode.callback) ++
        (s.preview.elim [] PreviewThread.coded).map (·,mode.shown) ++ s.previewFrames.map (·,mode.shown) ++
        s.stream.coded.map (·,mode.shown))
      s.memory s.allocated gone put taken := by
  have hspare : s.framePool + s.spare = s.stream.spare + (s.framePool +
      (s.preview.elim [] PreviewThread.spare + s.capture.elim [] CaptureThread.spare : Multiset ℕ)) := by
    rw [spare]
    abel
  rw [Keeps, hspare, line, behind, List.map_append, ← List.append_assoc]

theorem keeps_iff_preview : s.Keeps mode held gone put taken ↔
    Kept (held + (s.preview.elim [] PreviewThread.spare + (s.framePool +
        (s.stream.spare + s.capture.elim [] CaptureThread.spare : Multiset ℕ))))
      (s.ahead mode ++ (s.preview.elim [] PreviewThread.decoded).map (·,mode.callback) ++
        (s.preview.elim [] PreviewThread.coded).map (·,mode.shown) ++ s.behind mode)
      s.memory s.allocated gone put taken := by
  have hspare : s.framePool + s.spare = s.preview.elim [] PreviewThread.spare + (s.framePool +
      (s.stream.spare + s.capture.elim [] CaptureThread.spare : Multiset ℕ)) := by
    rw [spare]
    abel
  rw [Keeps, hspare, line]

theorem keeps_iff_capture : s.Keeps mode held gone put taken ↔
    Kept (held + (s.capture.elim [] CaptureThread.spare + (s.framePool +
        (s.stream.spare + s.preview.elim [] PreviewThread.spare : Multiset ℕ))))
      ((s.capture.elim [] CaptureThread.converted).map (·,some) ++
        (s.capture.elim [] CaptureThread.decoded).map (·,mode.callback) ++
        s.captureQueu.toList.map (·,mode.callback) ++
        ((s.preview.elim [] PreviewThread.decoded).map (·,mode.callback) ++
          (s.preview.elim [] PreviewThread.coded).map (·,mode.shown) ++ s.behind mode))
      s.memory s.allocated gone put taken := by
  have hspare : s.framePool + s.spare = s.capture.elim [] CaptureThread.spare + (s.framePool +
      (s.stream.spare + s.preview.elim [] PreviewThread.spare : Multiset ℕ)) := by
    rw [spare]
    abel
  rw [Keeps, hspare, line, ahead]
  simp only [List.map_append, List.append_assoc]

/-- What a step that ends in `t` does to the frames that are gone and to the pictures. -/
def KeepsAfter (mode : PreviewMode α) (t : NativePreview α) (events : List (FrameEvent α)) (gone : List ℕ)
    (put taken : List α) : Prop :=
  ∃ called, events.filterMap FrameEvent.calledPicture = called.map some ∧
    t.Keeps mode [] (gone ++ events.filterMap FrameEvent.gone)
      (put ++ (events.filterMap FrameEvent.copiedPicture).filterMap mode.shown) (taken ++ called)

theorem keepsAfter_nil (h : t.Keeps mode [] gone put taken) : KeepsAfter mode t [] gone put taken :=
  ⟨[],rfl,by simpa using h⟩

theorem keepsAfter_recycle (h : t.Keeps mode held gone put taken) :
    KeepsAfter mode (t.recycle held).1 (t.recycle held).2 gone put taken := by
  have hfreed : ∀ freed : List ℕ, (freed.map (FrameEvent.freed (α := α))).filterMap FrameEvent.gone = freed := by
    intro freed
    rw [List.filterMap_map]
    exact List.filterMap_some
  have hcopied : ∀ freed : List ℕ, (freed.map (FrameEvent.freed (α := α))).filterMap FrameEvent.copiedPicture = [] := by
    intro freed
    simp [List.filterMap_eq_nil_iff, FrameEvent.copiedPicture]
  refine ⟨[],?_,?_⟩
  · simp [recycle, List.filterMap_eq_nil_iff, FrameEvent.calledPicture]
  · rw [recycle, hfreed, hcopied, List.filterMap_nil, List.append_nil, List.append_nil]
    have hfreed := kept_recycle h
    rwa [← zero_add (_ + _)] at hfreed

/-- The frame of the picture that the preview's thread is at. -/
def inHand (s : NativePreview α) : List ℕ :=
  s.preview.elim [] PreviewThread.coded ++ s.preview.elim [] PreviewThread.decoded

/-- The capture thread is started by the preview's thread. -/
def CaptureFollows (s : NativePreview α) : Prop :=
  s.preview = some .starting ∨ s.preview = some .clearing → s.capture = none

/-- What a step does to the number of frames and to the threads. -/
structure Regular (s t : NativePreview α) : Prop where
  allocated : t.allocated = s.allocated ∨ t.framePool = []
  queued : s.previewFrames.length ≤ maxFrame → t.previewFrames.length ≤ maxFrame
  capture : s.CaptureFollows → t.CaptureFollows

theorem getFrame_allocated {framePool framePool' : List ℕ} {allocated allocated' frame : ℕ}
    (hget : getFrame framePool allocated = (frame,framePool',allocated')) :
    allocated' = allocated ∨ framePool' = [] := by
  unfold getFrame at hget
  cases hlast : framePool.getLast? with
  | none =>
    rw [hlast] at hget
    cases hget
    exact .inr (List.getLast?_eq_none_iff.mp hlast)
  | some last =>
    rw [hlast] at hget
    cases hget
    exact .inl rfl

end NativePreview
end AdSystem.Camera
