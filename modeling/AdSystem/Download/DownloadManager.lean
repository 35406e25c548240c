import AdSystem.Library.Transition
import AdSystem.Download.DownloadTask

/-! # The queue of downloads before the service is bound

The list of requests is guarded by a semaphore that is taken and returned by hand.
An interrupted `acquire` takes no permit, and its caller goes on as if it had.
-/
namespace AdSystem.Download
open Transition

/-- Tasks are equal when their urls are. -/
def TaskInfo.equals (info o : TaskInfo) : Bool := o.url == info.url

/-- The manager on the main thread. `mSemaphList` counts the free permits, `mHandler` the
messages posted to the handler, and `waiting` says that a call waits for a permit. -/
structure DownloadManager where
  mService : Bool
  mListTask : List TaskInfo
  mSemaphList : ℕ
  mHandler : ℕ
  waiting : Bool
  /-- What `DownloadService.download` was called with, in order. -/
  downloads : List TaskInfo
  deriving DecidableEq, Repr

inductive ManagerAction where
  | startDownload (url filePathParam fileNameParam : Option String) (download : Option ℕ) (interrupted : Bool)
  | onServiceConnected
  | handleMessage (interrupted : Bool)
  deriving DecidableEq, Repr

namespace DownloadManager

def init : DownloadManager := ⟨false,[],1,0,false,[]⟩

/-- `none` when there is no permit to take. -/
def acquire (s : DownloadManager) (interrupted : Bool) : Option DownloadManager :=
  if interrupted then some s
  else if s.mSemaphList = 0 then none
  else some { s with mSemaphList := s.mSemaphList - 1 }

def release (s : DownloadManager) : DownloadManager := { s with mSemaphList := s.mSemaphList + 1 }

def download (s : DownloadManager) (info : TaskInfo) : DownloadManager :=
  { s with downloads := s.downloads ++ [info] }

def startDownload (s : DownloadManager) (url filePathParam fileNameParam : Option String)
    (download : Option ℕ) (interrupted : Bool) : DownloadManager :=
  match url with
  | none => s
  | some url =>
    if url = "" then s
    else
      let info : TaskInfo := ⟨url,filePathParam,fileNameParam,0,download⟩
      if s.mService then s.download info
      else
        match s.acquire interrupted with
        | none => { s with waiting := true }
        | some s =>
          -- the early return of the source, which keeps the permit
          if s.mListTask.any info.equals then s
          else { s with mListTask := s.mListTask ++ [info] }.release

/-- The tasks leave the list from its end. -/
def drain (s : DownloadManager) : DownloadManager :=
  { s.mListTask.foldr (fun info s => s.download info) s with mListTask := [] }

def handleBindSuc (s : DownloadManager) (interrupted : Bool) : DownloadManager :=
  match s.acquire interrupted with
  | none => { s with waiting := true }
  | some s => s.drain.release

/-- A thread that waits for a permit takes no further step. -/
def step (s : DownloadManager) (a : ManagerAction) : Option DownloadManager :=
  if s.waiting then none
  else
    match a with
    | .startDownload url filePathParam fileNameParam download interrupted =>
      some (s.startDownload url filePathParam fileNameParam download interrupted)
    | .onServiceConnected => some { s with mService := true, mHandler := s.mHandler + 1 }
    | .handleMessage interrupted =>
      if s.mHandler = 0 then none
      else some ({ s with mHandler := s.mHandler - 1 }.handleBindSuc interrupted)

/-- One permit is free, and no call waits for one. -/
def Balanced (s : DownloadManager) : Prop := s.mSemaphList = 1 ∧ s.waiting = false

def Listed (s : DownloadManager) (url : String) : Prop := ∃ info ∈ s.mListTask, info.url = url

/-- Before the bind a request is interrupted just when it is for a listed url, and no message is. -/
def Paired (s : DownloadManager) : ManagerAction → Prop
  | .startDownload (some url) _ _ _ interrupted =>
    url ≠ "" → s.mService = false → (interrupted = true ↔ s.Listed url)
  | .handleMessage interrupted => interrupted = false
  | _ => True

instance (s : DownloadManager) (url : String) : Decidable (s.Listed url) :=
  inferInstanceAs (Decidable (∃ info ∈ s.mListTask, info.url = url))

instance (s : DownloadManager) : DecidablePred s.Paired
  | .startDownload (some url) _ _ _ interrupted =>
    inferInstanceAs (Decidable (url ≠ "" → s.mService = false → (interrupted = true ↔ s.Listed url)))
  | .handleMessage interrupted => inferInstanceAs (Decidable (interrupted = false))
  | .startDownload none _ _ _ _ | .onServiceConnected => isTrue trivial

/-- A step that changes the list has taken a permit. -/
def Guarded (s : DownloadManager) (a : ManagerAction) : Prop :=
  ∀ t, s.step a = some t → t.mListTask ≠ s.mListTask →
    match a with
    | .startDownload _ _ _ _ interrupted => interrupted = false
    | .onServiceConnected => False
    | .handleMessage interrupted => interrupted = false

section
variable {s t : DownloadManager} {info : TaskInfo} {interrupted : Bool}

theorem any_equals : s.mListTask.any info.equals = true ↔ s.Listed info.url := by
  simp [TaskInfo.equals, Listed]

theorem acquire_of_balanced (hs : s.Balanced) :
    s.acquire interrupted = some { s with mSemaphList := if interrupted then 1 else 0 } := by
  obtain ⟨hone,_⟩ := hs
  cases interrupted with
  | false => simp [acquire, hone]
  | true => simp [acquire, ← hone]

@[simp] theorem foldr_download (s : DownloadManager) (infos : List TaskInfo) :
    infos.foldr (fun info s => s.download info) s = { s with downloads := s.downloads ++ infos.reverse } := by
  induction infos with
  | nil => simp
  | cons info infos ih =>
    rw [List.foldr_cons, ih]
    simp [download]

theorem drain_eq (s : DownloadManager) :
    s.drain = { s with mListTask := [], downloads := s.downloads ++ s.mListTask.reverse } := by
  rw [drain, foldr_download]

/-- Before the bind, a request from a balanced state keeps the permit when it finds its url. -/
theorem startDownload_of_balanced (hs : s.Balanced) {url : String} (hurl : url ≠ "") (hm : s.mService = false)
    (filePathParam fileNameParam : Option String) (download : Option ℕ) :
    s.startDownload (some url) filePathParam fileNameParam download interrupted =
      if s.mListTask.any (TaskInfo.equals ⟨url,filePathParam,fileNameParam,0,download⟩) then
        { s with mSemaphList := if interrupted then 1 else 0 }
      else
        { s with
          mListTask := s.mListTask ++ [⟨url,filePathParam,fileNameParam,0,download⟩]
          mSemaphList := if interrupted then 2 else 1 } := by
  simp only [startDownload, if_neg hurl, hm, Bool.false_eq_true, if_false, acquire_of_balanced hs, release]
  cases interrupted <;> rfl

theorem startDownload_balanced (hs : s.Balanced) (url filePathParam fileNameParam : Option String)
    (download : Option ℕ) :
    (s.startDownload url filePathParam fileNameParam download interrupted).Balanced ↔
      s.Paired (.startDownload url filePathParam fileNameParam download interrupted) := by
  cases url with
  | none => exact iff_of_true hs trivial
  | some url =>
    by_cases hurl : url = ""
    · subst hurl
      exact iff_of_true hs (fun h => absurd rfl h)
    cases hm : s.mService with
    | true =>
      refine iff_of_true ?_ (fun _ h => nomatch hm.symm.trans h)
      simp only [startDownload, if_neg hurl, hm, if_true]
      exact hs
    | false =>
      rw [startDownload_of_balanced hs hurl hm]
      have hl : s.mListTask.any (TaskInfo.equals ⟨url,filePathParam,fileNameParam,0,download⟩) = true ↔
          s.Listed url := any_equals
      have hwait := hs.2
      simp only [Paired, hurl, hm, ne_eq, not_false_eq_true, forall_const, ← hl]
      split_ifs with hany <;> cases interrupted <;> simp_all [Balanced]

theorem handleBindSuc_balanced (hs : s.Balanced) :
    (s.handleBindSuc interrupted).Balanced ↔ interrupted = false := by
  have hwait := hs.2
  simp only [handleBindSuc, acquire_of_balanced hs, drain_eq, release, Balanced, hwait]
  cases interrupted <;> simp

theorem step_balanced {a : ManagerAction} (hs : s.Balanced) (h : s.step a = some t) :
    t.Balanced ↔ s.Paired a := by
  simp only [step, hs.2, Bool.false_eq_true, if_false] at h
  cases a with
  | startDownload url filePathParam fileNameParam download interrupted =>
    cases h
    exact startDownload_balanced hs url filePathParam fileNameParam download
  | onServiceConnected =>
    cases h
    exact iff_of_true ⟨hs.1,rfl⟩ trivial
  | handleMessage interrupted =>
    split_ifs at h
    cases h
    exact handleBindSuc_balanced ⟨hs.1,rfl⟩

theorem guarded_of_paired {a : ManagerAction} (hs : s.Balanced) (ha : s.Paired a) : s.Guarded a := by
  intro t h hne
  simp only [step, hs.2, Bool.false_eq_true, if_false] at h
  cases a with
  | startDownload url filePathParam fileNameParam download interrupted =>
    cases h
    cases url with
    | none => exact absurd rfl hne
    | some url =>
      by_cases hurl : url = ""
      · simp [startDownload, hurl] at hne
      cases hm : s.mService with
      | true => simp [startDownload, hurl, hm, DownloadManager.download] at hne
      | false =>
        rw [startDownload_of_balanced hs hurl hm] at hne
        refine Bool.eq_false_iff.mpr fun hi => hne ?_
        rw [if_pos (any_equals.mpr ((ha hurl hm).mp hi))]
  | onServiceConnected =>
    cases h
    exact hne rfl
  | handleMessage interrupted => exact ha

end

/-- The queue lock is balanced after every call of a run, and the list changes under a permit
only, exactly when every call pairs its `acquire` with its `release`. -/
theorem queueLock_balanced_iff {as : List ManagerAction} {s : DownloadManager}
    (he : exec step init as = some s) :
    (Always step Balanced init as ∧ Along step Guarded init as) ↔ Along step Paired init as := by
  have hinit : Balanced init := ⟨rfl,rfl⟩
  have hiff := always_iff_along (I := fun _ => True) (fun _ _ _ _ _ => trivial)
    (fun _ _ _ _ hp h => step_balanced hp h) trivial hinit he
  rw [← hiff]
  apply and_iff_left_of_imp
  intro hall
  exact Along.mono_of_invariant (I := Balanced) (fun _ _ _ hp ha h => (step_balanced hp h).mpr ha)
    (fun _ _ => guarded_of_paired) hinit (hiff.mp hall)

def request (url : String) : ManagerAction := .startDownload (some url) none none none false

theorem queueLock_balanced_drained :
    Always step Balanced init [request "a", request "b", .onServiceConnected, .handleMessage false] ∧
      Along step Guarded init [request "a", request "b", .onServiceConnected, .handleMessage false] :=
  (queueLock_balanced_iff (s := ⟨true,[],1,0,false,[⟨"b",none,none,0,none⟩,⟨"a",none,none,0,none⟩]⟩)
    (by decide)).mpr (by decide)

/-- The same url twice before the bind: the permit is lost, and the message of the bind waits. -/
theorem queueLock_unbalanced_same_url :
    ¬ Always step Balanced init [request "a", request "a"] ∧
      (exec step init [request "a", request "a", .onServiceConnected, .handleMessage false]).map waiting =
        some true := by
  refine ⟨fun h => ?_,by decide⟩
  have hone := (h _ ⟨false,[⟨"a",none,none,0,none⟩],0,0,false,[]⟩ (List.prefix_refl _) (by decide)).1
  cases hone

end DownloadManager
end AdSystem.Download
