import AdSystem.Camera.UVCCameraEnumerator

/-! # Calls on the camera of the enumerator

The capturer calls the enumerator whenever it starts, and cameras come and go by
themselves. Two of the methods look whether there is a camera, three call it unseen.
-/
namespace AdSystem.Camera
open References Transition

/-- What a camera object is called with. -/
inductive CameraCall where
  | getSupportedSizeList
  | setPreviewSize (width height minFps maxFps : ℤ)
  | setPreviewDisplay (surface : Option ℕ)
  | setFrameCallback (callback : Bool) (pixelFormat : ℕ)
  | startPreview
  deriving DecidableEq, Repr

def PIXEL_FORMAT_YUV420SP : ℕ := 4
def DEFAULT_PREVIEW_MIN_FPS : ℤ := 1
def DEFAULT_PREVIEW_MAX_FPS : ℤ := 30

/-- The sizes that a camera lists, and whether it takes one. -/
structure CameraMethods where
  getSupportedSizeList : Cameras → ℕ → List (ℤ × ℤ)
  setPreviewSize : Cameras → ℕ → ℤ → ℤ → ℤ → ℤ → Except Thrown Unit

structure CaptureFormat where
  width : ℤ
  height : ℤ
  minFramerate : ℤ
  maxFramerate : ℤ
  deriving DecidableEq, Repr

/-- What a method of the enumerator throws: its own null dereference, or what the camera threw. -/
inductive MethodThrown where
  | nullPointer
  | camera (e : Thrown)
  deriving DecidableEq, Repr

/-- The enumerator with what the capturer gave it, and the calls that reached a camera. -/
structure UVCPreview where
  enumerator : UVCCameraEnumerator
  mPreviewTexture : Option ℕ
  mSurface : Option ℕ
  mUVCFrameCallback : Option ℕ
  reached : List (ℕ × CameraCall)
  deriving DecidableEq, Repr

/-- An event of the USB monitor or a call of the capturer. -/
inductive CameraEvent where
  | usb (e : UsbEvent)
  | getSupportedFormats
  | setUVCPreviewTexture (texture : ℕ)
  | setUVCPreviewSizeRate (width height minFps maxFps : ℤ)
  | setUVCCameraFrameCallback (frameCallback : Option ℕ)
  | startUVCPreview
  | stopUVCPreview

namespace UVCPreview
variable (native : Native) (methods : CameraMethods)

/-- The texture is that of the activity. -/
def initial (previewTexture : Option ℕ) : UVCPreview := ⟨.initial,previewTexture,none,none,[]⟩

/-- A call on `mUVCCamera`. -/
def onCamera (s : UVCPreview) (call : CameraCall) : UVCPreview × Except MethodThrown Unit :=
  match s.enumerator.mUVCCamera with
  | some c => ({ s with reached := s.reached ++ [(c,call)] },.ok ())
  | none => (s,.error .nullPointer)

def onConnect (s : UVCPreview) (d : Device) : UVCPreview × Except MethodThrown Unit :=
  ({ s with enumerator := (s.enumerator.onConnect native d).1 },
    (s.enumerator.onConnect native d).2.mapError .camera)

/-- The surface goes with the camera. -/
def onDisconnect (s : UVCPreview) : UVCPreview :=
  if s.enumerator.mUVCCamera.isSome then { s with enumerator := s.enumerator.onDisconnect, mSurface := none }
  else s

def getSupportedFormats (s : UVCPreview) : UVCPreview × Except MethodThrown (List CaptureFormat) :=
  match s.enumerator.mUVCCamera with
  | none => (s,.ok [])
  | some c =>
    ({ s with reached := s.reached ++ [(c,.getSupportedSizeList)] },
      .ok ((methods.getSupportedSizeList s.enumerator.cameras c).map fun size =>
        ⟨size.1,size.2,DEFAULT_PREVIEW_MIN_FPS,DEFAULT_PREVIEW_MAX_FPS⟩))

def setUVCPreviewTexture (s : UVCPreview) (texture : ℕ) : UVCPreview × Except MethodThrown Unit :=
  { s with mPreviewTexture := some texture, mSurface := some texture }.onCamera
    (.setPreviewDisplay (some texture))

def setUVCPreviewSizeRate (s : UVCPreview) (width height minFps maxFps : ℤ) :
    UVCPreview × Except MethodThrown Unit :=
  match s.enumerator.mUVCCamera with
  | none => (s,.ok ())
  | some c =>
    ({ s with
        reached := s.reached ++
          [(c,.getSupportedSizeList),(c,.setPreviewSize width height minFps maxFps)] },
      (methods.setPreviewSize s.enumerator.cameras c width height minFps maxFps).mapError .camera)

def setUVCCameraFrameCallback (s : UVCPreview) (frameCallback : Option ℕ) :
    UVCPreview × Except MethodThrown Unit :=
  { s with mUVCFrameCallback := frameCallback }.onCamera
    (.setFrameCallback frameCallback.isSome PIXEL_FORMAT_YUV420SP)

def startUVCPreview (s : UVCPreview) : UVCPreview × Except MethodThrown Unit := s.onCamera .startPreview

def stopUVCPreview (s : UVCPreview) : UVCPreview × Except MethodThrown Unit := (s,.ok ())

def handle (s : UVCPreview) : CameraEvent → UVCPreview × Except MethodThrown Unit
  | .usb (.onConnect d) => s.onConnect native d
  | .usb .onDisconnect => (s.onDisconnect,.ok ())
  | .getSupportedFormats =>
    ((s.getSupportedFormats methods).1,(s.getSupportedFormats methods).2.map fun _ => ())
  | .setUVCPreviewTexture texture => s.setUVCPreviewTexture texture
  | .setUVCPreviewSizeRate width height minFps maxFps =>
    s.setUVCPreviewSizeRate methods width height minFps maxFps
  | .setUVCCameraFrameCallback frameCallback => s.setUVCCameraFrameCallback frameCallback
  | .startUVCPreview => s.startUVCPreview
  | .stopUVCPreview => s.stopUVCPreview

/-- What is thrown goes to the caller. -/
def step (s : UVCPreview) (e : CameraEvent) : Option UVCPreview := some (s.handle native methods e).1

/-- The event finds a camera where it calls one. -/
def NoNullPointer (s : UVCPreview) (e : CameraEvent) : Prop :=
  (s.handle native methods e).2 ≠ .error .nullPointer

end UVCPreview

/-- The methods that call the camera without looking for it. -/
def CameraEvent.Unguarded : CameraEvent → Prop
  | .setUVCPreviewTexture _ | .setUVCCameraFrameCallback _ | .startUVCPreview => True
  | _ => False

/-- The devices connected, in order. -/
def connected (es : List CameraEvent) : List Device :=
  es.filterMap fun
    | .usb (.onConnect d) => some d
    | _ => none

/-- Opened on the first handle, the device refuses both requests for the size. -/
structure Device.Rejected (native : Native) (d : Device) : Prop where
  clones : d.clones = true
  connects : d.nativeConnect (native.nativeCreate []) = 0
  yuyv : d.nativeSetPreviewSize 0 FRAME_FORMAT_YUYV ≠ 0
  default : d.nativeSetPreviewSize 1 DEFAULT_PREVIEW_MODE ≠ 0

/-- A device was connected, and not a single one that was rejected. -/
def Attached (native : Native) : List Device → Prop
  | [] => False
  | [d] => ¬ d.Rejected native
  | _ :: _ :: _ => True

section
variable {native : Native} {methods : CameraMethods} {d : Device}

namespace UVCCameraEnumerator
variable {s : UVCCameraEnumerator}

/-- The first camera is given up if its device opens and refuses its size twice. -/
theorem onConnect_initial_eq_none :
    (initial.onConnect native d).1.mUVCCamera = none ↔ d.Rejected native := by
  have hget : (initial.released.instance native).1.heap.get (initial.released.instance native).2 =
      some ⟨native.nativeCreate [],none⟩ := Heap.get_alloc_self
  have hptr := native.nonzero []
  by_cases hclone : d.clones = true
  · by_cases hconnect : d.nativeConnect (native.nativeCreate []) = 0
    · obtain ⟨hok,hopened,-⟩ := Cameras.open_ok hget hclone hconnect
      simp only [onConnect, hok, Cameras.setPreviewSize, hopened, hptr, ne_eq, not_false_iff, true_and]
      by_cases hyuyv : d.nativeSetPreviewSize 0 FRAME_FORMAT_YUYV = 0
      · simp only [hyuyv, not_true, if_false]
        exact iff_of_false (Option.some_ne_none _) fun h => h.yuyv hyuyv
      · by_cases hdefault : d.nativeSetPreviewSize 1 DEFAULT_PREVIEW_MODE = 0
        · simp only [hyuyv, not_false_iff, if_true, hdefault, not_true, if_false]
          exact iff_of_false (Option.some_ne_none _) fun h => h.default hdefault
        · simp only [hyuyv, not_false_iff, if_true, hdefault]
          exact iff_of_true trivial ⟨hclone,hconnect,hyuyv,hdefault⟩
    · have herror : ((initial.released.instance native).1.open (initial.released.instance native).2 d).2 =
          .error .unsupportedOperation := by
        simp [Cameras.open, hget, hclone, hconnect]
      simp only [onConnect, herror]
      exact iff_of_false (Option.some_ne_none _) fun h => hconnect h.connects
  · have herror : ((initial.released.instance native).1.open (initial.released.instance native).2 d).2 =
        .error .unsupportedOperation := by
      simp [Cameras.open, hget, hclone]
    simp only [onConnect, herror]
    exact iff_of_false (Option.some_ne_none _) fun h => hclone h.clones

/-- A connection that throws leaves the camera it could not open. -/
theorem onConnect_of_error {e : Thrown} (h : (s.onConnect native d).2 = .error e) :
    (s.onConnect native d).1.mUVCCamera ≠ none := by
  unfold onConnect at h ⊢
  dsimp only at h ⊢
  cases hopen : ((s.released.instance native).1.open (s.released.instance native).2 d).2 with
  | error e => exact nofun
  | ok _ =>
    simp only [hopen] at h
    split at h
    · cases h
    · split at h <;> cases h

theorem onDisconnect_mUVCCamera : s.onDisconnect.mUVCCamera = s.mUVCCamera := by
  unfold onDisconnect
  split
  · rfl
  · rfl

end UVCCameraEnumerator

namespace UVCPreview
variable {s t : UVCPreview} {e : CameraEvent} {es : List CameraEvent}

theorem onCamera_enumerator (call : CameraCall) : (s.onCamera call).1.enumerator = s.enumerator := by
  unfold onCamera
  split
  · rfl
  · rfl

theorem onCamera_returns (call : CameraCall) :
    (s.onCamera call).2 ≠ .error .nullPointer ↔ (True → s.enumerator.mUVCCamera ≠ none) := by
  unfold onCamera
  cases s.enumerator.mUVCCamera with
  | none => simp
  | some c => simp

/-- What the camera throws is not a null dereference. -/
theorem mapError_camera_ne {x : Except Thrown Unit} :
    x.mapError MethodThrown.camera ≠ .error .nullPointer := by
  cases x with
  | ok _ => nofun
  | error e => nofun

/-- The methods that do not look for the camera need one, and nothing else does. -/
theorem noNullPointer_iff :
    s.NoNullPointer native methods e ↔ (e.Unguarded → s.enumerator.mUVCCamera ≠ none) := by
  cases e with
  | usb e =>
    refine iff_of_true ?_ nofun
    cases e with
    | onConnect d => exact mapError_camera_ne
    | onDisconnect => exact nofun
  | getSupportedFormats =>
    refine iff_of_true ?_ nofun
    simp only [NoNullPointer, handle, getSupportedFormats]
    split <;> exact nofun
  | setUVCPreviewTexture texture =>
    exact onCamera_returns _
  | setUVCPreviewSizeRate width height minFps maxFps =>
    refine iff_of_true ?_ nofun
    simp only [NoNullPointer, handle, setUVCPreviewSizeRate]
    split
    · exact nofun
    · exact mapError_camera_ne
  | setUVCCameraFrameCallback frameCallback =>
    exact onCamera_returns _
  | startUVCPreview => exact onCamera_returns _
  | stopUVCPreview => exact iff_of_true nofun nofun

/-- Only the events of the monitor change the camera. -/
theorem handle_enumerator (s : UVCPreview) (e : CameraEvent) : (s.handle native methods e).1.enumerator =
    match e with
    | .usb (.onConnect d) => (s.enumerator.onConnect native d).1
    | .usb .onDisconnect => s.enumerator.onDisconnect
    | _ => s.enumerator := by
  cases e with
  | usb e =>
    cases e with
    | onConnect d => rfl
    | onDisconnect =>
      simp only [handle, onDisconnect, UVCCameraEnumerator.onDisconnect]
      cases s.enumerator.mUVCCamera with
      | none => rfl
      | some c => rfl
  | getSupportedFormats =>
    simp only [handle, getSupportedFormats]
    split <;> rfl
  | setUVCPreviewTexture texture => exact onCamera_enumerator _
  | setUVCPreviewSizeRate width height minFps maxFps =>
    simp only [handle, setUVCPreviewSizeRate]
    split <;> rfl
  | setUVCCameraFrameCallback frameCallback => exact onCamera_enumerator _
  | startUVCPreview => exact onCamera_enumerator _
  | stopUVCPreview => rfl

/-- What these connections leave: the camera is missing before the first one, and while a
rejected one is the only one. -/
def After (native : Native) (s : UVCCameraEnumerator) : List Device → Prop
  | [] => s = .initial
  | d :: ds => s.Spent ∧ (s.mUVCCamera = none ↔ ds = [] ∧ d.Rejected native)

theorem connected_append (es : List CameraEvent) (e : CameraEvent) :
    connected (es ++ [e]) = connected es ++ connected [e] := List.filterMap_append

theorem After.attached {s : UVCCameraEnumerator} {ds : List Device} (h : After native s ds) :
    s.mUVCCamera ≠ none ↔ Attached native ds := by
  cases ds with
  | nil =>
    cases h
    exact iff_of_false (fun hne => hne rfl) id
  | cons d ds =>
    rw [ne_eq, h.2]
    cases ds with
    | nil => simp [Attached]
    | cons d' ds => simp [Attached]

theorem After.onConnect {s : UVCCameraEnumerator} {ds : List Device} (h : After native s ds) :
    After native (s.onConnect native d).1 (ds ++ [d]) := by
  cases ds with
  | nil =>
    cases h
    have hfresh : UVCCameraEnumerator.initial.released.sUVCCamera = none := rfl
    obtain ⟨camera,hget,-,-,hstatic⟩ := Cameras.instance_of_none native hfresh
    refine ⟨UVCCameraEnumerator.onConnect_spent hstatic hget,?_⟩
    rw [UVCCameraEnumerator.onConnect_initial_eq_none]
    simp
  | cons d' ds =>
    obtain ⟨herror,hspent⟩ : (s.onConnect native d).2 = .error .unsupportedOperation ∧
        (s.onConnect native d).1.Spent := UVCCameraEnumerator.onConnect_of_spent h.1
    refine ⟨hspent,iff_of_false (UVCCameraEnumerator.onConnect_of_error herror) ?_⟩
    rintro ⟨hnil,-⟩
    cases List.append_eq_nil_iff.mp hnil with
    | intro _ hd => cases hd

theorem After.onDisconnect {s : UVCCameraEnumerator} {ds : List Device} (h : After native s ds) :
    After native s.onDisconnect ds := by
  cases ds with
  | nil =>
    cases h
    rfl
  | cons d ds =>
    refine ⟨UVCCameraEnumerator.onDisconnect_spent h.1,?_⟩
    rw [UVCCameraEnumerator.onDisconnect_mUVCCamera]
    exact h.2

theorem After.handle (h : After native s.enumerator (connected es)) (e : CameraEvent) :
    After native (s.handle native methods e).1.enumerator (connected (es ++ [e])) := by
  rw [handle_enumerator, connected_append]
  have hsame : After native s.enumerator (connected es ++ []) := by rwa [List.append_nil]
  cases e with
  | usb e =>
    cases e with
    | onConnect d => exact h.onConnect
    | onDisconnect =>
      rw [show connected [.usb .onDisconnect] = [] from rfl, List.append_nil]
      exact h.onDisconnect
  | getSupportedFormats => exact hsame
  | setUVCPreviewTexture texture => exact hsame
  | setUVCPreviewSizeRate width height minFps maxFps => exact hsame
  | setUVCCameraFrameCallback frameCallback => exact hsame
  | startUVCPreview => exact hsame
  | stopUVCPreview => exact hsame

theorem exec_after {previewTexture : Option ℕ}
    (he : exec (step native methods) (initial previewTexture) es = some s) :
    After native s.enumerator (connected es) := by
  have hinit : After native (initial previewTexture).enumerator (connected []) := rfl
  refine exec_history (I := fun es s => After native s.enumerator (connected es)) hinit ?_ he
  intro bs t e u _ h hstep
  cases hstep
  exact h.handle e

/-- No method dereferences null in a run if and only if each call of a method that does not look
for the camera comes after a connection, and after another one where the first was rejected. -/
theorem calls_safe_iff (native : Native) (methods : CameraMethods) (previewTexture : Option ℕ)
    (es : List CameraEvent) :
    Along (step native methods) (NoNullPointer native methods) (initial previewTexture) es ↔
      ∀ before e after, es = before ++ e :: after → e.Unguarded → Attached native (connected before) := by
  rw [along_iff_splits]
  constructor
  · intro h before e after hes hun
    obtain ⟨t,ht⟩ : ∃ t, exec (step native methods) (initial previewTexture) before = some t :=
      exec_total _ (fun _ _ => ⟨_,rfl⟩) _ _
    exact (exec_after ht).attached.mp (noNullPointer_iff.mp (h before e after t hes ht) hun)
  · intro h before e after t hes ht
    exact noNullPointer_iff.mpr fun hun => (exec_after ht).attached.mpr (h before e after hes hun)

/-- The preview is started before a camera is there. -/
theorem calls_unsafe_before_connect :
    ¬ ∀ (native : Native) (methods : CameraMethods) (previewTexture : Option ℕ) (es : List CameraEvent),
      Along (step native methods) (NoNullPointer native methods) (initial previewTexture) es := by
  intro h
  have hcall := (h UVCCameraEnumerator.counting ⟨fun _ _ => [],fun _ _ _ _ _ _ => .ok ()⟩ none
    [.setUVCPreviewTexture 1]).1
  exact hcall rfl

end UVCPreview
end
end AdSystem.Camera
