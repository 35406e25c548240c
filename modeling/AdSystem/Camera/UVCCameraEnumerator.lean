import Mathlib.Algebra.Order.BigOperators.Group.List
import Mathlib.Algebra.Order.Ring.Nat
import AdSystem.Camera.UVCCamera
import AdSystem.Library.Transition

/-! # Connecting and connecting again

A connection destroys the camera that is there and asks for the one object there is. The
first one finds it new; every later one finds the object whose handle was destroyed.
-/
namespace AdSystem.Camera
open References Transition

/-- The camera in use, and the objects it is one of. -/
structure UVCCameraEnumerator where
  cameras : Cameras
  mUVCCamera : Option ℕ
  deriving DecidableEq, Repr

inductive UsbEvent where
  | onConnect (d : Device)
  | onDisconnect

namespace UVCCameraEnumerator
variable (native : Native)

def initial : UVCCameraEnumerator := ⟨⟨.empty,none,[]⟩,none⟩

/-- The camera in use is destroyed. -/
def released (s : UVCCameraEnumerator) : Cameras :=
  match s.mUVCCamera with
  | some c => s.cameras.destroy c
  | none => s.cameras

def onConnect (s : UVCCameraEnumerator) (d : Device) : UVCCameraEnumerator × Except Thrown Unit :=
  let obtained := s.released.instance native
  let c := obtained.2
  let opened := obtained.1.open c d
  match opened.2 with
  | .error e => (⟨opened.1,some c⟩,.error e)
  | .ok _ =>
    match opened.1.setPreviewSize c d 0 FRAME_FORMAT_YUYV with
    | .ok _ => (⟨opened.1,some c⟩,.ok ())
    | .error _ =>
      -- the same size again, and without it no camera
      match opened.1.setPreviewSize c d 1 DEFAULT_PREVIEW_MODE with
      | .ok _ => (⟨opened.1,some c⟩,.ok ())
      | .error _ => (⟨opened.1.destroy c,none⟩,.ok ())

def onDisconnect (s : UVCCameraEnumerator) : UVCCameraEnumerator :=
  match s.mUVCCamera with
  | some c => { s with cameras := s.cameras.close c }
  | none => s

def step (s : UVCCameraEnumerator) : UsbEvent → Option UVCCameraEnumerator
  | .onConnect d => some (s.onConnect native d).1
  | .onDisconnect => some s.onDisconnect

/-- The camera in use has a live handle and was opened on the block of the device. -/
def Usable (s : UVCCameraEnumerator) (d : Device) : Prop :=
  ∃ c camera, s.mUVCCamera = some c ∧ s.cameras.heap.get c = some camera ∧ camera.mNativePtr ≠ 0 ∧
    camera.mNativePtr ∈ s.cameras.live ∧ camera.mCtrlBlock = some d.ctrlBlock

end UVCCameraEnumerator

/-- The device accepts the connection on every handle, and one of the two requests for the size. -/
structure Device.Accepts (d : Device) : Prop where
  clones : d.clones = true
  connects : ∀ ptr, ptr ≠ 0 → d.nativeConnect ptr = 0
  sizes : d.nativeSetPreviewSize 0 FRAME_FORMAT_YUYV = 0 ∨ d.nativeSetPreviewSize 1 DEFAULT_PREVIEW_MODE = 0

namespace UVCCameraEnumerator
variable {native : Native} {s t : UVCCameraEnumerator} {d : Device} {es : List UsbEvent}

/-- The one camera object has been made, and it is in use or destroyed. -/
def Spent (s : UVCCameraEnumerator) : Prop :=
  ∃ c camera, s.cameras.sUVCCamera = some c ∧ s.cameras.heap.get c = some camera ∧
    (s.mUVCCamera = some c ∨ s.mUVCCamera = none ∧ camera.mNativePtr = 0)

theorem released_of_spent (hs : s.Spent) : ∃ c, s.released.sUVCCamera = some c ∧
    ∃ camera, s.released.heap.get c = some camera ∧ camera.mNativePtr = 0 := by
  obtain ⟨c,camera,hstatic,hget,hused | ⟨hnone,hptr⟩⟩ := hs
  · refine ⟨c,?_,⟨0,none⟩,?_,rfl⟩
    · rw [released, hused]
      exact Cameras.destroy_sUVCCamera.trans hstatic
    · rw [released, hused]
      exact Cameras.destroy_get.trans (by rw [hget]; rfl)
  · rw [released, hnone]
    exact ⟨c,hstatic,camera,hget,hptr⟩

/-- A connection leaves the camera it opened, or throws with it, or destroys it. -/
theorem onConnect_cases (native : Native) (s : UVCCameraEnumerator) (d : Device) :
    (s.onConnect native d).1 =
        ⟨((s.released.instance native).1.open (s.released.instance native).2 d).1,
          some (s.released.instance native).2⟩ ∨
      (s.onConnect native d).1 =
        ⟨((s.released.instance native).1.open (s.released.instance native).2 d).1.destroy
          (s.released.instance native).2,none⟩ := by
  unfold onConnect
  dsimp only
  split
  · exact Or.inl rfl
  · split
    · exact Or.inl rfl
    · split
      · exact Or.inl rfl
      · exact Or.inr rfl

theorem onConnect_spent {camera : UVCCamera}
    (hstatic : (s.released.instance native).1.sUVCCamera = some (s.released.instance native).2)
    (hget : (s.released.instance native).1.heap.get (s.released.instance native).2 = some camera) :
    (s.onConnect native d).1.Spent := by
  obtain ⟨mCtrlBlock,hopened⟩ := Cameras.open_get (d := d) hget
  have hstatic' : ((s.released.instance native).1.open (s.released.instance native).2 d).1.sUVCCamera =
      some (s.released.instance native).2 := Cameras.open_sUVCCamera.trans hstatic
  rcases onConnect_cases native s d with h | h
  · rw [h]
    exact ⟨_,_,hstatic',hopened,Or.inl rfl⟩
  · rw [h]
    refine ⟨_,⟨0,none⟩,Cameras.destroy_sUVCCamera.trans hstatic',?_,Or.inr ⟨rfl,rfl⟩⟩
    exact Cameras.destroy_get.trans (by rw [hopened]; rfl)

theorem onConnect_of_spent (hs : s.Spent) :
    (s.onConnect native d).2 = .error .unsupportedOperation ∧ (s.onConnect native d).1.Spent := by
  obtain ⟨c,hstatic,camera,hget,hptr⟩ := released_of_spent hs
  have hinstance := Cameras.instance_of_some native hstatic
  constructor
  · simp only [onConnect, hinstance, Cameras.open_destroyed hget hptr]
  · exact onConnect_spent (by rw [hinstance]; exact hstatic) (by rw [hinstance]; exact hget)

theorem onConnect_initial (h : d.Accepts) :
    (initial.onConnect native d).2 = .ok () ∧ (initial.onConnect native d).1.Usable d := by
  have hfresh : initial.released.sUVCCamera = none := rfl
  obtain ⟨camera,hget,hptr,hlive,_⟩ := Cameras.instance_of_none native hfresh
  obtain ⟨hok,hopened,hsame⟩ := Cameras.open_ok hget h.clones (h.connects _ hptr)
  have husable : (⟨((initial.released.instance native).1.open (initial.released.instance native).2 d).1,
      some (initial.released.instance native).2⟩ : UVCCameraEnumerator).Usable d :=
    ⟨_,_,rfl,hopened,hptr,hsame ▸ hlive,rfl⟩
  simp only [onConnect, hok, Cameras.setPreviewSize, hopened, hptr, ne_eq, not_false_iff, true_and]
  by_cases hsize : d.nativeSetPreviewSize 0 FRAME_FORMAT_YUYV = 0
  · simp only [hsize, not_true, if_false]
    exact ⟨trivial,husable⟩
  · simp only [hsize, not_false_iff, if_true, h.sizes.resolve_left hsize, not_true, if_false]
    exact ⟨trivial,husable⟩

theorem onDisconnect_spent (hs : s.Spent) : s.onDisconnect.Spent := by
  obtain ⟨c,camera,hstatic,hget,hused | ⟨hnone,hptr⟩⟩ := hs
  · simp only [onDisconnect, hused]
    exact ⟨c,_,hstatic,Cameras.close_get.trans (by rw [hget]; rfl),Or.inl rfl⟩
  · simp only [onDisconnect, hnone]
    exact ⟨c,camera,hstatic,hget,Or.inr ⟨hnone,hptr⟩⟩

/-- Until a connection nothing happens; from then on the camera object is spent. -/
theorem exec_cases (he : exec (step native) initial es = some s) :
    (∀ e ∈ es, e = .onDisconnect) ∧ s = initial ∨ (¬ ∀ e ∈ es, e = .onDisconnect) ∧ s.Spent := by
  refine exec_history (I := fun es s => (∀ e ∈ es, e = .onDisconnect) ∧ s = initial ∨
    (¬ ∀ e ∈ es, e = .onDisconnect) ∧ s.Spent) (Or.inl ⟨nofun,rfl⟩) ?_ he
  intro es s e t _ hs h
  cases e with
  | onConnect d =>
    refine Or.inr ⟨fun hall => ?_,?_⟩
    · cases hall _ (List.mem_append_right _ (List.mem_singleton_self _))
    · cases h
      rcases hs with ⟨_,rfl⟩ | ⟨_,hs⟩
      · have hfresh : initial.released.sUVCCamera = none := rfl
        obtain ⟨camera,hget,_,_,hstatic⟩ := Cameras.instance_of_none native hfresh
        exact onConnect_spent hstatic hget
      · exact (onConnect_of_spent hs).2
  | onDisconnect =>
    cases h
    rcases hs with ⟨hall,rfl⟩ | ⟨hnot,hs⟩
    · refine Or.inl ⟨fun e he => ?_,rfl⟩
      rcases List.mem_append.mp he with he | he
      · exact hall e he
      · exact List.mem_singleton.mp he
    · exact Or.inr ⟨fun hall => hnot fun e he => hall e (List.mem_append_left _ he),onDisconnect_spent hs⟩

/-- After any events, an accepted connection returns and leaves a usable camera if and only
if it is the first one. -/
theorem usable_iff_first (he : exec (step native) initial es = some s) (h : d.Accepts) :
    (s.onConnect native d).2 = .ok () ∧ (s.onConnect native d).1.Usable d ↔ ∀ e ∈ es, e = .onDisconnect := by
  rcases exec_cases he with ⟨hall,rfl⟩ | ⟨hnot,hs⟩
  · exact iff_of_true (onConnect_initial h) hall
  · refine iff_of_false ?_ hnot
    rintro ⟨hok,_⟩
    rw [(onConnect_of_spent hs).1] at hok
    cases hok

section Example

def counting : Native where
  nativeCreate live := live.sum + 1
  fresh live h := by
    have hle := List.single_le_sum (fun x _ => Nat.zero_le x) _ h
    omega
  nonzero live := by omega

/-- A device that takes every handle but zero, and every size. -/
def webcam : Device := ⟨7,true,fun ptr => if ptr = 0 then -1 else 0,fun _ _ => 0,by decide⟩

theorem webcam_accepts : webcam.Accepts := ⟨rfl,fun _ hptr => if_neg hptr,Or.inl rfl⟩

theorem usable_iff_first_disconnected :
    (initial.onDisconnect.onConnect counting webcam).2 = .ok () ∧
      (initial.onDisconnect.onConnect counting webcam).1.Usable webcam := by
  have he : exec (step counting) initial [.onDisconnect] = some initial.onDisconnect := rfl
  apply (usable_iff_first he webcam_accepts).mpr
  intro e hmem
  exact List.mem_singleton.mp hmem

/-- The device is pulled out and plugged in again: the second connection throws. -/
theorem not_usable_reconnected :
    ¬ ∀ (native : Native) (es : List UsbEvent) (s : UVCCameraEnumerator) (d : Device),
      exec (step native) initial es = some s → d.Accepts →
      (s.onConnect native d).2 = .ok () ∧ (s.onConnect native d).1.Usable d := by
  intro h
  have hreturns := (h counting [.onConnect webcam,.onDisconnect] _ webcam rfl webcam_accepts).1
  exact absurd hreturns (by decide)

end Example
end UVCCameraEnumerator
end AdSystem.Camera
