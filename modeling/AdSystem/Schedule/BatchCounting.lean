import AdSystem.Library.SignedWord
import AdSystem.Library.Transition
import AdSystem.Schedule.DownloadReceivers

/-! # Counting the downloads of a message

Each receiver has one static pair of counters for all its messages: a message
overwrites the number of files to come, every completion adds to the files counted.
The last file is told by comparing the two, for equality in the video receiver only.
-/
namespace AdSystem.Schedule
open Query SignedWord Transition
open Policy (Media)

/-- The `PARAM` of a message, whose length is an `int`. -/
structure JSONArray where
  values : List JString
  length_lt : values.length < 2147483648

def JSONArray.length (a : JSONArray) : ℤ := a.values.length

inductive CountEvent where
  | onDownloadFinished (fullPath : JString)
  | updateWhenStrategyChanged
  deriving DecidableEq, Repr

/-- A receiver whose player exists. `mTotalTaskNum` is called `mDownloadTaskNum` in the video
receiver; `outstanding` are the URLs whose downloads have not completed. -/
structure DownloadCount where
  mTotalTaskNum : ℤ
  mFinishedTaskNum : ℤ
  outstanding : List JString
  db : FileListMgr
  log : List CountEvent

inductive CountAction where
  | download (mJSONArray : JSONArray)
  /-- The download at this place of the outstanding ones completes. -/
  | onDownloadFinished (i : ℕ)

namespace DownloadCount

def init (db : FileListMgr) : DownloadCount := ⟨0,0,[],db,[]⟩

def receiveMessage (s : DownloadCount) (mJSONArray : JSONArray) : DownloadCount :=
  { s with
    mTotalTaskNum := mJSONArray.length
    outstanding := s.outstanding ++ mJSONArray.values }

section
variable (storage : Storage) (m : Media)

def isLast : Media → ℤ → ℤ → Bool
  | .video, mFinishedTaskNum, mDownloadTaskNum => mFinishedTaskNum = mDownloadTaskNum
  | .image, mFinishedTaskNum, mTotalTaskNum => mFinishedTaskNum ≥ mTotalTaskNum

def onDownloadFinished (s : DownloadCount) (fullPath : JString) : DownloadCount :=
  let mFinishedTaskNum := i32 (s.mFinishedTaskNum + 1)
  let s := { s with db := s.db.downloadFinished m fullPath, log := .onDownloadFinished fullPath :: s.log }
  if isLast m mFinishedTaskNum s.mTotalTaskNum then
    { s with mTotalTaskNum := 0, mFinishedTaskNum := 0, log := .updateWhenStrategyChanged :: s.log }
  else { s with mFinishedTaskNum }

def step (s : DownloadCount) : CountAction → Option DownloadCount
  | .download mJSONArray => some (s.receiveMessage mJSONArray)
  | .onDownloadFinished i =>
    s.outstanding[i]?.map fun url =>
      { s with outstanding := s.outstanding.eraseIdx i }.onDownloadFinished m (storage.downloadFile m url)

end

def Completed (s : DownloadCount) : Prop := ∃ fullPath, .onDownloadFinished fullPath ∈ s.log

/-- When all downloads have completed, the last completion has called the player and the
counters are 0. -/
def Settled (s : DownloadCount) : Prop :=
  s.outstanding = [] → s.Completed →
    (∃ fullPath log, s.log = .updateWhenStrategyChanged :: .onDownloadFinished fullPath :: log) ∧
      s.mFinishedTaskNum = 0 ∧ s.mTotalTaskNum = 0

def IsCompletion : CountAction → Prop
  | .download _ => False
  | .onDownloadFinished _ => True

/-- A message finds no download outstanding. -/
def OneAtATime (s : DownloadCount) : CountAction → Prop
  | .download _ => s.outstanding = []
  | .onDownloadFinished _ => True

instance (s : DownloadCount) : DecidablePred s.OneAtATime
  | .download _ => inferInstanceAs (Decidable (s.outstanding = []))
  | .onDownloadFinished _ => isTrue trivial

section
variable {storage : Storage} {m : Media} {s t : DownloadCount} {i : ℕ}

/-- What a completion does: it counts its file, or closes the count. -/
theorem step_finished_cases (h : s.step storage m (.onDownloadFinished i) = some t) :
    ∃ fullPath, t.outstanding.length + 1 = s.outstanding.length ∧
      (isLast m (i32 (s.mFinishedTaskNum + 1)) s.mTotalTaskNum = true ∧ t.mTotalTaskNum = 0 ∧
          t.mFinishedTaskNum = 0 ∧
          t.log = .updateWhenStrategyChanged :: .onDownloadFinished fullPath :: s.log ∨
        isLast m (i32 (s.mFinishedTaskNum + 1)) s.mTotalTaskNum = false ∧
          t.mTotalTaskNum = s.mTotalTaskNum ∧ t.mFinishedTaskNum = i32 (s.mFinishedTaskNum + 1) ∧
          t.log = .onDownloadFinished fullPath :: s.log) := by
  simp only [step, Option.map_eq_some_iff] at h
  obtain ⟨url,hurl,rfl⟩ := h
  obtain ⟨hi,_⟩ := List.getElem?_eq_some_iff.mp hurl
  refine ⟨storage.downloadFile m url,?_⟩
  by_cases hlast : isLast m (i32 (s.mFinishedTaskNum + 1)) s.mTotalTaskNum = true
  · simp only [onDownloadFinished, hlast, if_true, List.length_eraseIdx_of_lt hi]
    exact ⟨by omega,Or.inl ⟨trivial,trivial,trivial,trivial⟩⟩
  · simp only [onDownloadFinished, hlast, Bool.false_eq_true, if_false, List.length_eraseIdx_of_lt hi]
    exact ⟨by omega,Or.inr ⟨trivial,trivial,trivial,trivial⟩⟩

theorem step_first (storage : Storage) (m : Media) (hne : s.outstanding ≠ []) : ∃ t, s.step storage m (.onDownloadFinished 0) = some t := by
  cases hs : s.outstanding with
  | nil => exact absurd hs hne
  | cons url urls => exact ⟨_,by simp only [step, hs, List.getElem?_cons_zero, Option.map_some]; rfl⟩

end

section Video
variable {storage : Storage} {s t : DownloadCount}

/-- The count of one message at a time. -/
structure Counting (s : DownloadCount) : Prop where
  finished : 0 ≤ s.mFinishedTaskNum
  total : s.mTotalTaskNum = s.mFinishedTaskNum + s.outstanding.length
  total_lt : s.mTotalTaskNum < 2147483648
  idle : s.outstanding = [] → s.mFinishedTaskNum = 0
  settled : s.Settled

/-- The completions to come pass the number to count to, or have passed it. -/
def Passing (s : DownloadCount) : Prop :=
  (s.outstanding ≠ [] ∨ s.Completed) ∧ s.mTotalTaskNum < 2147483648 ∧ ∃ counted : ℤ,
    s.mFinishedTaskNum = i32 counted ∧ 0 ≤ counted ∧ 0 ≤ s.mTotalTaskNum ∧
    0 < counted + s.outstanding.length ∧ counted + s.outstanding.length < 4294967296 ∧
    (counted < s.mTotalTaskNum → s.mTotalTaskNum < counted + s.outstanding.length)

theorem counting_init (db : FileListMgr) : Counting (init db) :=
  ⟨le_rfl,rfl,by simp [init],fun _ => rfl,fun _ ⟨_,h⟩ => nomatch h⟩

theorem counting_download (hs : s.Counting) (hnil : s.outstanding = []) (mJSONArray : JSONArray) :
    (s.receiveMessage mJSONArray).Counting := by
  have hzero := hs.idle hnil
  refine ⟨hs.finished,?_,?_,fun _ => hzero,fun hout hc => ?_⟩
  · simp [receiveMessage, JSONArray.length, hzero, hnil]
  · have hlt := mJSONArray.length_lt
    simp only [receiveMessage, JSONArray.length]
    omega
  · obtain ⟨hlog,hfin,_⟩ := hs.settled hnil hc
    have hvalues : mJSONArray.values = [] := (List.append_eq_nil_iff.mp hout).2
    exact ⟨hlog,hfin,by simp [receiveMessage, JSONArray.length, hvalues]⟩

theorem counting_finished {i : ℕ} (hs : s.Counting)
    (h : s.step storage .video (.onDownloadFinished i) = some t) : t.Counting := by
  obtain ⟨fullPath,hlen,⟨hlast,htotal,hfin,hlog⟩ | ⟨hlast,htotal,hfin,hlog⟩⟩ := step_finished_cases h
  all_goals
    obtain ⟨hf,ht,hlt,_,_⟩ := hs
    have hword : i32 (s.mFinishedTaskNum + 1) = s.mFinishedTaskNum + 1 := i32_eq ⟨by omega,by omega⟩
  · -- the comparison holds for the last file only
    simp only [isLast, hword, decide_eq_true_eq] at hlast
    have hnil : t.outstanding = [] := List.eq_nil_of_length_eq_zero (by omega)
    exact ⟨by omega,by simp [htotal, hfin, hnil],by omega,fun _ => hfin,
      fun _ _ => ⟨⟨fullPath,s.log,hlog⟩,hfin,htotal⟩⟩
  · simp only [isLast, hword, decide_eq_false_iff_not] at hlast
    rw [hword] at hfin
    have hne : t.outstanding ≠ [] := by
      intro hnil
      rw [hnil, List.length_nil] at hlen
      omega
    exact ⟨by omega,by omega,by omega,fun hnil => absurd hnil hne,fun hnil => absurd hnil hne⟩

theorem passing_download (hs : s.Counting) (hne : s.outstanding ≠ []) (mJSONArray : JSONArray) :
    (s.receiveMessage mJSONArray).Passing := by
  obtain ⟨hf,ht,hlt,_,_⟩ := hs
  have hpos : 0 < s.outstanding.length := List.length_pos_of_ne_nil hne
  have hn := mJSONArray.length_lt
  refine ⟨Or.inl fun h => hne (List.append_eq_nil_iff.mp h).1,?_,s.mFinishedTaskNum,?_,hf,?_⟩
  · simp only [receiveMessage, JSONArray.length]
    omega
  · exact (i32_eq (x := s.mFinishedTaskNum) ⟨by omega,by omega⟩).symm
  · simp only [receiveMessage, JSONArray.length, List.length_append, Nat.cast_add]
    omega

theorem passing_finished {i : ℕ} (hs : s.Passing)
    (h : s.step storage .video (.onDownloadFinished i) = some t) : t.Passing := by
  obtain ⟨_,hlt,counted,hfin,hc,ht,hpos,hu,hover⟩ := hs
  obtain ⟨fullPath,hlen,⟨hlast,htotal',hfin',hlog⟩ | ⟨hlast,htotal',hfin',hlog⟩⟩ := step_finished_cases h
  all_goals
    have hdone : t.Completed := ⟨fullPath,by rw [hlog]; simp⟩
    have hword : i32 (s.mFinishedTaskNum + 1) = s.mTotalTaskNum ↔ counted + 1 = s.mTotalTaskNum := by
      rw [hfin, i32_add]
      exact i32_eq_iff (by omega) (by omega) ht hlt
    simp only [isLast, hword, decide_eq_true_eq, decide_eq_false_iff_not] at hlast
  · exact ⟨Or.inr hdone,by omega,0,by simp [hfin'],le_rfl,by omega,by omega,by omega,by omega⟩
  · exact ⟨Or.inr hdone,by omega,counted + 1,by rw [hfin', hfin, i32_add],by omega,by omega,by omega,
      by omega,by omega⟩

/-- Completing all downloads from there leaves a count. -/
theorem passing_drains (hs : s.Passing) : ∃ as u, (∀ a ∈ as, IsCompletion a) ∧
    exec (step storage .video) s as = some u ∧ ¬ u.Settled := by
  induction hn : s.outstanding.length generalizing s with
  | zero =>
    have hnil := List.eq_nil_of_length_eq_zero hn
    obtain ⟨hdone,_,counted,hfin,hc,_,hpos,hu,_⟩ := hs
    refine ⟨[],s,nofun,rfl,fun hset => ?_⟩
    obtain ⟨_,hzero,_⟩ := hset hnil (hdone.resolve_left (absurd hnil))
    rw [hfin, i32_eq_iff hc (by omega) le_rfl (by omega)] at hzero
    omega
  | succ n ih =>
    have hne : s.outstanding ≠ [] := by
      intro hnil
      rw [hnil] at hn
      cases hn
    obtain ⟨t,ht⟩ := step_first storage .video hne
    obtain ⟨_,hlen,_⟩ := step_finished_cases ht
    obtain ⟨as,u,has,he,hnot⟩ := ih (passing_finished hs ht) (by omega)
    exact ⟨.onDownloadFinished 0 :: as,u,List.forall_mem_cons.mpr ⟨trivial,has⟩,
      (exec_cons_eq_some _).mpr ⟨t,ht,he⟩,hnot⟩

/-- The video receiver settles whenever the downloads complete, exactly when every message of
the run finds no download outstanding. -/
theorem video_settles_iff (db : FileListMgr) {as : List CountAction}
    (he : exec (step storage .video) (init db) as = some s) :
    Settles (step storage .video) IsCompletion Settled (init db) as ↔
      Along (step storage .video) OneAtATime (init db) as := by
  refine settles_iff_along (I := Counting) (fun _ hs => hs.settled) ?_ ?_ ?_ (counting_init db) he
  · intro s a t hs hg h
    cases a with
    | download mJSONArray =>
      cases h
      exact counting_download hs hg mJSONArray
    | onDownloadFinished i => exact counting_finished hs h
  · intro s a _ ha
    cases a with
    | download mJSONArray => exact absurd ha id
    | onDownloadFinished i => trivial
  · intro s a t hs hg h
    cases a with
    | download mJSONArray =>
      cases h
      exact passing_drains (passing_download hs hg mJSONArray)
    | onDownloadFinished i => exact absurd trivial hg

def rootStorage : Storage := ⟨fun _ => [],fun _ url => 47 :: url⟩

/-- Two files of one message, then one file of the next before they complete. -/
def firstTwo : CountAction := .download ⟨[[97],[98]],by simp⟩
def overlapping : List CountAction :=
  [firstTwo,.download ⟨[[99]],by simp⟩,.onDownloadFinished 0,.onDownloadFinished 0,.onDownloadFinished 0]

/-- The second message comes after the completions of the first. -/
def inTurn : List CountAction := [firstTwo,.onDownloadFinished 0,.onDownloadFinished 0,.download ⟨[[99]],by simp⟩]

theorem video_settles_in_turn : Settles (step rootStorage .video) IsCompletion Settled (init .created) inTurn :=
  (video_settles_iff .created rfl).mpr (by decide)

/-- The player is called after the first completion, and not again. -/
theorem video_not_settled_overlapping :
    ¬ ∀ s, exec (step rootStorage .video) (init .created) overlapping = some s → s.Settled := by
  intro h
  have hrun : (exec (step rootStorage .video) (init .created) overlapping).map
      (fun s => (s.outstanding,s.log)) =
      some ([],[.onDownloadFinished [47,99],.onDownloadFinished [47,98],.updateWhenStrategyChanged,
        .onDownloadFinished [47,97]]) := by decide
  obtain ⟨s,he,hs⟩ := Option.map_eq_some_iff.mp hrun
  obtain ⟨hnil,hlog⟩ := Prod.mk.inj hs
  obtain ⟨⟨fullPath,log,hhead⟩,_⟩ := h s he hnil ⟨[47,99],by rw [hlog]; simp⟩
  rw [hlog] at hhead
  cases hhead

end Video

section Image
variable {storage : Storage} {s t : DownloadCount}

/-- The completions to come reach the number to count to. -/
structure Reaching (s : DownloadCount) : Prop where
  finished : 0 ≤ s.mFinishedTaskNum
  finished_lt : s.mFinishedTaskNum < 2147483647
  total_lt : s.mTotalTaskNum < 2147483648
  total_le : s.mTotalTaskNum ≤ s.outstanding.length + s.mFinishedTaskNum
  settled : s.Settled

theorem reaching_step {a : CountAction} (hs : s.Reaching) (h : s.step storage .image a = some t) :
    t.Reaching := by
  obtain ⟨hf,hfl,htl,htotal,hset⟩ := hs
  cases a with
  | download mJSONArray =>
    cases h
    have hn := mJSONArray.length_lt
    refine ⟨hf,hfl,?_,?_,fun hout hc => ?_⟩
    · simp only [receiveMessage, JSONArray.length]
      omega
    · simp only [receiveMessage, JSONArray.length, List.length_append, Nat.cast_add]
      omega
    · obtain ⟨hnil,hvalues⟩ := List.append_eq_nil_iff.mp hout
      obtain ⟨hlog,hfin,_⟩ := hset hnil hc
      exact ⟨hlog,hfin,by simp [receiveMessage, JSONArray.length, hvalues]⟩
  | onDownloadFinished i =>
    have hword : i32 (s.mFinishedTaskNum + 1) = s.mFinishedTaskNum + 1 := i32_eq ⟨by omega,by omega⟩
    obtain ⟨fullPath,hlen,⟨_,htotal',hfin',hlog⟩ | ⟨hlast,htotal',hfin',hlog⟩⟩ := step_finished_cases h
    · exact ⟨by omega,by omega,by omega,by omega,fun _ _ => ⟨⟨fullPath,s.log,hlog⟩,hfin',htotal'⟩⟩
    · simp only [isLast, hword, ge_iff_le, decide_eq_false_iff_not] at hlast
      rw [hword] at hfin'
      refine ⟨by omega,by omega,by omega,by omega,fun hnil => ?_⟩
      -- the last file passes the test
      rw [hnil, List.length_nil] at hlen
      omega

/-- The image receiver settles in every run, however its messages overlap. -/
theorem image_settled (db : FileListMgr) {as : List CountAction}
    (he : exec (step storage .image) (init db) as = some s) :
    s.mTotalTaskNum ≤ s.outstanding.length + s.mFinishedTaskNum ∧ s.Settled := by
  have hinit : Reaching (init db) :=
    ⟨le_rfl,by simp [init],by simp [init],le_rfl,fun _ ⟨_,h⟩ => nomatch h⟩
  have hs : s.Reaching := exec_history (I := fun _ s => Reaching s) hinit
    (fun _ _ _ _ _ hs h => reaching_step hs h) he
  exact ⟨hs.total_le,hs.settled⟩

theorem image_settled_overlapping :
    ∃ s, exec (step rootStorage .image) (init .created) overlapping = some s ∧ s.outstanding = [] ∧
      s.log = [.updateWhenStrategyChanged,.onDownloadFinished [47,99],.updateWhenStrategyChanged,
        .onDownloadFinished [47,98],.updateWhenStrategyChanged,.onDownloadFinished [47,97]] ∧
      s.mTotalTaskNum ≤ s.outstanding.length + s.mFinishedTaskNum ∧ s.Settled :=
  ⟨_,rfl,rfl,by decide,@image_settled rootStorage _ .created overlapping rfl⟩

end Image
end DownloadCount
end AdSystem.Schedule
