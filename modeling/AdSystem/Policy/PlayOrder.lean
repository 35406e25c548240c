import AdSystem.Library.Rotation
import AdSystem.Library.Transition

/-! # The order in which the media of a policy are shown

Either manager keeps its position when its list is replaced, and goes on from there. The
images are switched by a message that is sent again each time it is handled, whatever the
handling finds.
-/
namespace AdSystem.Policy
open Transition

/-- `IndexOutOfBoundsException`. -/
inductive IndexOutOfBounds where
  | indexOutOfBounds
  deriving DecidableEq, Repr

/-- A list that may be null, and the position in it: `mImageList` and `mCurrentImageId`, or
`mVideoList` and `mPosition`, or `mAnimLibrary` and `mAnimPosition`. -/
structure PlayOrder (α : Type) where
  list : Option (List α)
  position : ℕ
  deriving DecidableEq, Repr

/-- What a call returns, and the position it leaves. -/
structure OrderCall (α : Type) where
  returned : Except IndexOutOfBounds (Option α)
  position : ℕ

namespace PlayOrder
variable {α : Type}

def new (list : Option (List α)) : PlayOrder α := ⟨list,0⟩

/-- One further, or to the front; nothing moves while there is nothing in the list. -/
def getByOrder (o : PlayOrder α) : Except IndexOutOfBounds (Option α) × PlayOrder α :=
  match o.list with
  | none => (.ok none,o)
  | some list =>
    if list.length ≤ 0 then (.ok none,o)
    else
      let position := Rotation.next list.length o.position
      let o := { o with position }
      match list[position]? with
      | some x => (.ok (some x),o)
      | none => (.error .indexOutOfBounds,o)

/-- One call. -/
def call (o : PlayOrder α) : OrderCall α := ⟨o.getByOrder.1,o.getByOrder.2.position⟩

/-- So many calls in a row. -/
def calls : PlayOrder α → ℕ → List (OrderCall α)
  | _, 0 => []
  | o, k + 1 => o.call :: o.getByOrder.2.calls k

section
variable {o : PlayOrder α} {list : List α}

theorem getByOrder_of_list (hlist : o.list = some list) (hne : list ≠ []) :
    ∃ h : Rotation.next list.length o.position < list.length,
      o.getByOrder = (.ok (some list[Rotation.next list.length o.position]),
        { o with position := Rotation.next list.length o.position }) := by
  have hpos : 0 < list.length := List.length_pos_iff.mpr hne
  have hnext := Rotation.next_lt o.position hpos
  refine ⟨hnext,?_⟩
  simp only [getByOrder, hlist, if_neg (Nat.not_le.mpr hpos), List.getElem?_eq_getElem hnext]

/-- No call asks for an entry that is not there. -/
theorem getByOrder_returns (o : PlayOrder α) : ∃ x, o.getByOrder.1 = .ok x := by
  cases hl : o.list with
  | none => exact ⟨none,by simp only [getByOrder, hl]⟩
  | some list =>
    cases list with
    | nil => exact ⟨none,by simp only [getByOrder, hl, List.length_nil, le_refl, if_true]⟩
    | cons x list =>
      obtain ⟨_,hcall⟩ := getByOrder_of_list hl (List.cons_ne_nil x list)
      exact ⟨_,congrArg Prod.fst hcall⟩

end
end PlayOrder

/-- The animations of the images. -/
inductive InOutAnimation where
  | slide
  | fade
  deriving DecidableEq, Repr

def animLibrary : List InOutAnimation := [.slide,.fade]

/-- The manager of the images, with the number of `MSG_SWITCH_IMAGE`s in the queue of its
handler and the image that is shown. -/
structure NewImageMgr where
  images : PlayOrder String
  animations : PlayOrder InOutAnimation
  mImageHandler : ℕ
  shown : Option String
  crashed : Bool
  deriving DecidableEq, Repr

inductive ImageAction where
  /-- The handler takes a `MSG_SWITCH_IMAGE` while these files are there. -/
  | switchImage (present : String → Bool)
  | updateWhenStrategyChanged (imageList : Option (List String))

/-- The list stays the same. -/
def ImageAction.Keeps (list : List String) : ImageAction → Prop
  | .switchImage _ => True
  | .updateWhenStrategyChanged imageList => imageList = some list

namespace NewImageMgr

def sendEmptyMessage (s : NewImageMgr) : NewImageMgr := { s with mImageHandler := s.mImageHandler + 1 }

def new (imageList : Option (List String)) : NewImageMgr :=
  { images := .new imageList, animations := .new animLibrary, mImageHandler := 0, shown := none,
    crashed := false : NewImageMgr }.sendEmptyMessage

def getImageByOrder (s : NewImageMgr) : Except IndexOutOfBounds (Option String) × NewImageMgr :=
  (s.images.getByOrder.1,{ s with images := s.images.getByOrder.2 })

def setNextAnimation (s : NewImageMgr) : Except IndexOutOfBounds (Option InOutAnimation) × NewImageMgr :=
  (s.animations.getByOrder.1,{ s with animations := s.animations.getByOrder.2 })

def dispatchMessage (s : NewImageMgr) (present : String → Bool) : NewImageMgr :=
  match s.getImageByOrder with
  | (.error _,s) => { s with crashed := true }
  | (.ok none,s) => { s with shown := none }.sendEmptyMessage
  | (.ok (some path),s) =>
    if present path then
      match s.setNextAnimation with
      | (.error _,s) => { s with crashed := true }
      | (.ok _,s) => { s with shown := some path }.sendEmptyMessage
    else s.sendEmptyMessage

def updateWhenStrategyChanged (s : NewImageMgr) (imageList : Option (List String)) : NewImageMgr :=
  let s := { s with images.list := imageList }
  if s.mImageHandler = 0 then s.sendEmptyMessage else s

def step (s : NewImageMgr) (a : ImageAction) : Option NewImageMgr :=
  if s.crashed then none
  else
    match a with
    | .switchImage present =>
      if s.mImageHandler = 0 then none
      else some ({ s with mImageHandler := s.mImageHandler - 1 }.dispatchMessage present)
    | .updateWhenStrategyChanged imageList => some (s.updateWhenStrategyChanged imageList)

/-- The calls of `getImageByOrder` along a run. -/
def calls : NewImageMgr → List ImageAction → List (OrderCall String) :=
  trace step fun s a =>
    match a with
    | .switchImage _ => [s.images.call]
    | .updateWhenStrategyChanged _ => []

/-- One message is queued. -/
structure Ticking (s : NewImageMgr) : Prop where
  running : s.crashed = false
  queued : s.mImageHandler = 1

variable {s t : NewImageMgr} {a : ImageAction}

/-- Each exit of the handler has asked for an image, and sends the message that the next handling
takes. -/
theorem dispatchMessage_eq (s : NewImageMgr) (present : String → Bool) :
    ∃ animations shown, s.dispatchMessage present =
      { s with images := s.images.getByOrder.2, animations, shown, mImageHandler := s.mImageHandler + 1 } := by
  obtain ⟨path,hi⟩ := s.images.getByOrder_returns
  obtain ⟨inOut,ha⟩ := s.animations.getByOrder_returns
  simp only [dispatchMessage, getImageByOrder, hi]
  cases path with
  | none => exact ⟨_,_,rfl⟩
  | some path =>
    cases hpresent : present path with
    | false =>
      simp only [hpresent, Bool.false_eq_true, if_false]
      exact ⟨_,_,rfl⟩
    | true =>
      simp only [hpresent, setNextAnimation, ha, if_true]
      exact ⟨_,_,rfl⟩

/-- A message is taken with one call, and another one is sent; a new list leaves the position. -/
theorem step_cases (hstep : s.step a = some t) :
    s.crashed = false ∧
      ((∃ present animations shown, a = .switchImage present ∧ s.mImageHandler ≠ 0 ∧
        t = { s with images := s.images.getByOrder.2, animations, shown,
                     mImageHandler := s.mImageHandler - 1 + 1 }) ∨
        ∃ imageList, a = .updateWhenStrategyChanged imageList ∧
          t = { s with images.list := imageList, mImageHandler := max s.mImageHandler 1 }) := by
  have hrun : s.crashed = false := Bool.eq_false_iff.mpr fun h => by simp [step, h] at hstep
  unfold step at hstep
  rw [if_neg (by rw [hrun]; exact Bool.false_ne_true)] at hstep
  refine ⟨hrun,?_⟩
  cases a with
  | switchImage present =>
    dsimp only at hstep
    split_ifs at hstep with hqueue
    obtain ⟨animations,shown,heq⟩ :=
      dispatchMessage_eq { s with mImageHandler := s.mImageHandler - 1 } present
    rw [heq] at hstep
    cases hstep
    exact .inl ⟨present,animations,shown,rfl,hqueue,rfl⟩
  | updateWhenStrategyChanged imageList =>
    cases hstep
    refine .inr ⟨imageList,rfl,?_⟩
    unfold updateWhenStrategyChanged
    by_cases hqueue : s.mImageHandler = 0
    · simp only [sendEmptyMessage, hqueue]
      rfl
    · simp only [if_neg hqueue, max_eq_left (Nat.one_le_iff_ne_zero.mpr hqueue)]

theorem Ticking.step (h : s.Ticking) (hstep : s.step a = some t) : t.Ticking := by
  obtain ⟨hrun,⟨present,animations,shown,rfl,-,rfl⟩ | ⟨imageList,rfl,rfl⟩⟩ := step_cases hstep
  · exact ⟨hrun,by rw [h.queued]⟩
  · exact ⟨hrun,by rw [h.queued, max_self]⟩

end NewImageMgr

/-- The manager of the videos, with the number of `MSG_PLAY_VIDEO`s in the queue of its handler
and the video that plays. -/
structure NewVideoMgr where
  videos : PlayOrder String
  mVideoHandler : ℕ
  playing : Option String
  crashed : Bool
  deriving DecidableEq, Repr

inductive PlayAction where
  /-- The handler takes a `MSG_PLAY_VIDEO` while these files are there. -/
  | playVideo (present : String → Bool)
  | onError
  | onCompletion
  | updateWhenStrategyChanged (videoList : Option (List String))

/-- The list stays the same. -/
def PlayAction.Keeps (list : List String) : PlayAction → Prop
  | .updateWhenStrategyChanged videoList => videoList = some list
  | _ => True

namespace NewVideoMgr

def sendEmptyMessage (s : NewVideoMgr) : NewVideoMgr := { s with mVideoHandler := s.mVideoHandler + 1 }

def new (videoList : Option (List String)) : NewVideoMgr :=
  { videos := .new videoList, mVideoHandler := 0, playing := none, crashed := false :
    NewVideoMgr }.sendEmptyMessage

def getVideoByOrder (s : NewVideoMgr) : Except IndexOutOfBounds (Option String) × NewVideoMgr :=
  (s.videos.getByOrder.1,{ s with videos := s.videos.getByOrder.2 })

/-- A missing file is passed over; without a list there is nothing more to come. -/
def handleMessage (s : NewVideoMgr) (present : String → Bool) : NewVideoMgr :=
  match s.getVideoByOrder with
  | (.error _,s) => { s with crashed := true }
  | (.ok none,s) => s
  | (.ok (some path),s) => if present path then { s with playing := some path } else s.sendEmptyMessage

def step (s : NewVideoMgr) (a : PlayAction) : Option NewVideoMgr :=
  if s.crashed then none
  else
    match a with
    | .playVideo present =>
      if s.mVideoHandler = 0 then none
      else some ({ s with mVideoHandler := s.mVideoHandler - 1 }.handleMessage present)
    | .onError | .onCompletion => some { s with playing := none }.sendEmptyMessage
    | .updateWhenStrategyChanged videoList => some { s with videos.list := videoList }.sendEmptyMessage

/-- The calls of `getVideoByOrder` along a run. -/
def calls : NewVideoMgr → List PlayAction → List (OrderCall String) :=
  trace step fun s a =>
    match a with
    | .playVideo _ => [s.videos.call]
    | _ => []

variable {s t : NewVideoMgr} {a : PlayAction}

theorem handleMessage_eq (s : NewVideoMgr) (present : String → Bool) :
    ∃ playing queued, s.handleMessage present =
      { s with videos := s.videos.getByOrder.2, playing, mVideoHandler := queued } := by
  obtain ⟨path,hv⟩ := s.videos.getByOrder_returns
  simp only [handleMessage, getVideoByOrder, hv]
  cases path with
  | none => exact ⟨_,_,rfl⟩
  | some path =>
    dsimp only
    split_ifs
    · exact ⟨_,_,rfl⟩
    · exact ⟨_,_,rfl⟩

/-- A message is taken with one call; an update leaves the position. -/
theorem step_cases (hstep : s.step a = some t) :
    s.crashed = false ∧ t.crashed = false ∧
      ((∃ present, a = .playVideo present ∧ t.videos = s.videos.getByOrder.2) ∨
        (a = .onError ∨ a = .onCompletion) ∧ t.videos = s.videos ∨
        ∃ videoList, a = .updateWhenStrategyChanged videoList ∧
          t.videos = { s.videos with list := videoList }) := by
  have hrun : s.crashed = false := Bool.eq_false_iff.mpr fun h => by simp [step, h] at hstep
  unfold step at hstep
  rw [if_neg (by rw [hrun]; exact Bool.false_ne_true)] at hstep
  refine ⟨hrun,?_⟩
  cases a with
  | playVideo present =>
    dsimp only at hstep
    split_ifs at hstep
    obtain ⟨playing,queued,heq⟩ :=
      handleMessage_eq { s with mVideoHandler := s.mVideoHandler - 1 } present
    rw [heq] at hstep
    cases hstep
    exact ⟨hrun,.inl ⟨present,rfl,rfl⟩⟩
  | onError =>
    cases hstep
    exact ⟨hrun,.inr (.inl ⟨.inl rfl,rfl⟩)⟩
  | onCompletion =>
    cases hstep
    exact ⟨hrun,.inr (.inl ⟨.inr rfl,rfl⟩)⟩
  | updateWhenStrategyChanged videoList =>
    cases hstep
    exact ⟨hrun,.inr (.inr ⟨videoList,rfl,rfl⟩)⟩

end NewVideoMgr

end AdSystem.Policy
