import Mathlib.Data.Int.Notation
import AdSystem.Library.Heap

/-! # Camera objects and their native handles

A camera object gets a native handle when it is made and gives it up when it is
destroyed. The one object of `instance` is made once; nothing makes it anew.
-/
namespace AdSystem.Camera
open References

inductive Thrown where
  | illegalArgument
  | unsupportedOperation
  deriving DecidableEq, Repr

/-- Which handle is created when these are live: a fresh one, not zero. -/
structure Native where
  nativeCreate : List ℕ → ℕ
  fresh : ∀ live, nativeCreate live ∉ live
  nonzero : ∀ live, nativeCreate live ≠ 0

/-- A connected device: its control block, and what the native calls return for it, by the
handle, and by the attempt and the frame format. A handle that is zero is refused. -/
structure Device where
  ctrlBlock : ℕ
  clones : Bool
  nativeConnect : ℕ → ℤ
  nativeSetPreviewSize : ℕ → ℕ → ℤ
  connect_zero : nativeConnect 0 ≠ 0

structure UVCCamera where
  mNativePtr : ℕ
  mCtrlBlock : Option ℕ
  deriving DecidableEq, Repr

def FRAME_FORMAT_YUYV : ℕ := 0
def DEFAULT_PREVIEW_MODE : ℕ := 0

/-- The camera objects, the static one among them, and the live handles. -/
structure Cameras where
  heap : Heap UVCCamera
  sUVCCamera : Option ℕ
  live : List ℕ
  deriving DecidableEq, Repr

namespace Cameras

def new (native : Native) (s : Cameras) : Cameras × ℕ :=
  let mNativePtr := native.nativeCreate s.live
  let made := s.heap.alloc ⟨mNativePtr,none⟩
  ({ s with heap := made.1, live := mNativePtr :: s.live },made.2)

def «instance» (native : Native) (s : Cameras) : Cameras × ℕ :=
  match s.sUVCCamera with
  | some c => (s,c)
  | none =>
    let made := s.new native
    ({ made.1 with sUVCCamera := some made.2 },made.2)

/-- The handle stays. The block that is closed reports a disconnection, which closes the
camera again and finds nothing left to close. -/
def close (s : Cameras) (c : ℕ) : Cameras :=
  { s with heap := s.heap.modify c fun camera => { camera with mCtrlBlock := none } }

def destroy (s : Cameras) (c : ℕ) : Cameras :=
  let s := s.close c
  match s.heap.get c with
  | some camera =>
    if camera.mNativePtr ≠ 0 then
      { s with
        heap := s.heap.modify c fun camera => { camera with mNativePtr := 0 }
        live := s.live.erase camera.mNativePtr }
    else s
  | none => s

/-- The block is cloned before the native call; either may fail. -/
def «open» (s : Cameras) (c : ℕ) (d : Device) : Cameras × Except Thrown Unit :=
  match s.heap.get c with
  | some camera =>
    if d.clones then
      let s := { s with heap := s.heap.modify c fun camera => { camera with mCtrlBlock := some d.ctrlBlock } }
      if d.nativeConnect camera.mNativePtr = 0 then (s,.ok ()) else (s,.error .unsupportedOperation)
    else (s,.error .unsupportedOperation)
  | none => (s,.error .unsupportedOperation)

/-- Without a handle nothing is set and nothing refused. -/
def setPreviewSize (s : Cameras) (c : ℕ) (d : Device) (attempt frameFormat : ℕ) : Except Thrown Unit :=
  match s.heap.get c with
  | some camera =>
    if camera.mNativePtr ≠ 0 ∧ d.nativeSetPreviewSize attempt frameFormat ≠ 0 then .error .illegalArgument
    else .ok ()
  | none => .ok ()

variable {s : Cameras} {c : ℕ} {camera : UVCCamera} {d : Device}

@[simp] theorem destroy_sUVCCamera : (s.destroy c).sUVCCamera = s.sUVCCamera := by
  unfold destroy
  dsimp only
  split
  · split_ifs <;> rfl
  · rfl

@[simp] theorem close_get : (s.close c).heap.get c = (s.heap.get c).map fun camera => ⟨camera.mNativePtr,none⟩ :=
  Heap.get_modify_self

/-- What was closed is closed already. -/
theorem close_close : ((s.close c).close c).heap.get c = (s.close c).heap.get c := by
  cases h : s.heap.get c <;> simp [h]

theorem destroy_get : (s.destroy c).heap.get c = (s.heap.get c).map fun _ => ⟨0,none⟩ := by
  cases h : s.heap.get c with
  | none => simp [destroy, h]
  | some camera =>
    by_cases hp : camera.mNativePtr = 0
    · simp [destroy, h, hp]
    · simp [destroy, h, hp]

@[simp] theorem open_sUVCCamera : (s.open c d).1.sUVCCamera = s.sUVCCamera := by
  unfold «open»
  split
  · split_ifs <;> rfl
  · rfl

theorem open_ok (h : s.heap.get c = some camera) (hclone : d.clones = true)
    (hconnect : d.nativeConnect camera.mNativePtr = 0) :
    (s.open c d).2 = .ok () ∧ (s.open c d).1.heap.get c = some ⟨camera.mNativePtr,some d.ctrlBlock⟩ ∧
      (s.open c d).1.live = s.live := by
  simp [«open», h, hclone, hconnect]

theorem open_get (h : s.heap.get c = some camera) :
    ∃ mCtrlBlock, (s.open c d).1.heap.get c = some ⟨camera.mNativePtr,mCtrlBlock⟩ := by
  unfold «open»
  simp only [h]
  split_ifs
  · exact ⟨some d.ctrlBlock,by simp [h]⟩
  · exact ⟨some d.ctrlBlock,by simp [h]⟩
  · exact ⟨camera.mCtrlBlock,h⟩

theorem open_destroyed (h : s.heap.get c = some camera) (hptr : camera.mNativePtr = 0) :
    (s.open c d).2 = .error .unsupportedOperation := by
  unfold «open»
  simp only [h, hptr, if_neg d.connect_zero]
  split_ifs <;> rfl

theorem instance_of_some (native : Native) (h : s.sUVCCamera = some c) : s.instance native = (s,c) := by
  rw [«instance», h]

theorem instance_of_none (native : Native) (h : s.sUVCCamera = none) : ∃ camera,
    (s.instance native).1.heap.get (s.instance native).2 = some camera ∧ camera.mNativePtr ≠ 0 ∧
      camera.mNativePtr ∈ (s.instance native).1.live ∧
        (s.instance native).1.sUVCCamera = some (s.instance native).2 := by
  rw [«instance», h]
  exact ⟨_,Heap.get_alloc_self,native.nonzero _,List.mem_cons_self,rfl⟩

end Cameras
end AdSystem.Camera
