import AdSystem.Camera.UVCCameraVideoCapturer
import AdSystem.Library.Transition

/-! # Stopping the capture and starting it again

What a stop promises is read from the log: no frame reaches an observer until the next
start, which does not throw and starts the preview for its observer.
-/
namespace AdSystem.Camera.Capturer
open Transition

/-- The last command was to stop. -/
def stopped : List CaptureEvent → Bool
  | [] => false
  | .stopCapture :: _ => true
  | .startCapture _ _ :: _ => false
  | _ :: log => stopped log

/-- While stopped, no frame is passed on and no start throws. -/
def CaptureEvent.Allowed : CaptureEvent → Prop
  | .onByteBufferFrameCaptured _ _ _ _ => False
  | .startCapture _ outcome => outcome = none
  | _ => True

def Quiet : List CaptureEvent → Prop
  | [] => True
  | e :: log => (stopped log = true → e.Allowed) ∧ Quiet log

namespace UVCCameraVideoCapturer

/-- The task of a start that returned is posted, or it has started the preview for its observer. -/
def Leads (s : UVCCameraVideoCapturer) (newer : List CaptureEvent) (observer : ℕ) : Prop :=
  (∃ width height framerate, .startCapture width height framerate observer ∈ s.tasks) ∨
    .startUVCPreview (some observer) ∈ newer

/-- What holds after stops, and what a start that follows one leads to. -/
structure Restartable (s : UVCCameraVideoCapturer) : Prop where
  quiet : Quiet s.log
  leads : ∀ newer observer older, s.log = newer ++ .startCapture observer none :: older →
    stopped older = true → s.Leads newer observer

/-- Once there is a handler, a stop finds no frame posted, and neither a frame nor a start
comes after it. -/
def Spares (s : UVCCameraVideoCapturer) : CapturerAction → Prop
  | .stopCapture => ∀ frameData, .frame frameData ∉ s.tasks
  | .startCapture _ _ _ _ _ _ | .onUVCFrame _ => stopped s.log = true → s.mCameraThreadHandler = none
  | .changeCaptureFormat _ _ _ | .runTask => True

def IsStart (task : CameraTask) : Prop :=
  ∃ width height framerate observer, task = .startCapture width height framerate observer

/-- Before the start nothing is posted, its task is the first one, and when it has run the
preview runs for its observer. -/
inductive Phase (s : UVCCameraVideoCapturer) : Prop where
  | idle (handler : s.mCameraThreadHandler = none) (tasks : s.tasks = []) (format : s.captureFormat = none)
  | opening {width height framerate observer helper : ℕ} {tasks : List CameraTask}
      (handler : s.mCameraThreadHandler = some helper) (surface : s.mSurfaceHelper = some helper)
      (start : s.tasks = .startCapture width height framerate observer :: tasks)
      (rest : ∀ task ∈ tasks, ¬ IsStart task) (format : s.captureFormat = none)
  | opened {helper observer : ℕ} (handler : s.mCameraThreadHandler = some helper)
      (rest : ∀ task ∈ s.tasks, ¬ IsStart task) (format : s.captureFormat = some previewFormat)
      (installed : s.frameObserver = some observer)

/-- The promises hold, and no frame is posted while stopped. -/
structure InStep (s : UVCCameraVideoCapturer) : Prop where
  phase : s.Phase
  quiet : Quiet s.log
  leads : ∀ newer observer older, s.log = newer ++ .startCapture observer none :: older → s.Leads newer observer
  noFrame : stopped s.log = true → ∀ frameData, .frame frameData ∉ s.tasks

variable {s t : UVCCameraVideoCapturer} {a : CapturerAction} {e : CaptureEvent} {task : CameraTask}

theorem Phase.event (hs : s.Phase) : (s.event e).Phase := by
  cases hs with
  | idle handler tasks format => exact .idle handler tasks format
  | opening handler surface start rest format => exact .opening handler surface start rest format
  | opened handler rest format installed => exact .opened handler rest format installed

theorem Phase.post (hs : s.Phase) (hstart : ¬ IsStart task) : (s.maybePostOnCameraThread task).Phase := by
  have hrest : ∀ tasks : List CameraTask, (∀ task ∈ tasks, ¬ IsStart task) →
      ∀ task' ∈ tasks ++ [task], ¬ IsStart task' := by
    intro tasks hall task' hmem
    rcases List.mem_append.mp hmem with hmem | hmem
    · exact hall task' hmem
    · exact List.mem_singleton.mp hmem ▸ hstart
  cases hs with
  | idle handler tasks format =>
    rw [maybePostOnCameraThread, handler]
    exact .idle handler tasks format
  | opening handler surface start rest format =>
    rw [maybePostOnCameraThread, handler]
    exact .opening rfl surface (congrArg (· ++ [task]) start) (hrest _ rest) format
  | opened handler rest format installed =>
    rw [maybePostOnCameraThread, handler]
    exact .opened rfl (hrest _ rest) format installed

/-- The events of a start that finds no format set. -/
def opens (helper observer : ℕ) : List CaptureEvent :=
  [.onCapturerStarted observer true,.startUVCPreview (some observer),.setUVCCameraFrameCallback true,
    .setUVCPreviewSizeRate previewFormat,.setUVCPreviewTexture helper]

/-- What the oldest task does: it opens the camera, changes nothing, or passes on a frame. -/
theorem step_runTask (hs : s.Phase) (h : s.step .runTask = some t) :
    t.Phase ∧ ((∃ width height framerate helper observer,
        s.tasks = .startCapture width height framerate observer :: t.tasks ∧ t.log = opens helper observer ++ s.log) ∨
      (∃ width height framerate, s.tasks = .startPreview width height framerate :: t.tasks ∧ t.log = s.log) ∨
      ∃ frameData observer, s.tasks = .frame frameData :: t.tasks ∧
        t.log = .onByteBufferFrameCaptured observer frameData 640 480 :: s.log) := by
  cases hs with
  | idle handler tasks format =>
    simp only [step, tasks] at h
    cases h
  | opening handler surface start rest format =>
    simp only [step, start, Option.some.injEq] at h
    subst h
    simp only [run, startCaptureOnCameraThread, startPreviewOnCameraThread, handler, surface, format,
      event_mCameraThreadHandler, event_captureFormat, Option.isNone_some, Option.isSome_none, Bool.false_eq_true,
      if_false, reduceCtorEq]
    exact ⟨.opened rfl rest rfl rfl,Or.inl ⟨_,_,_,_,_,start,rfl⟩⟩
  | opened handler rest format installed =>
    cases htasks : s.tasks with
    | nil =>
      simp only [step, htasks] at h
      cases h
    | cons task tasks =>
      simp only [step, htasks, Option.some.injEq] at h
      subst h
      rw [htasks, List.forall_mem_cons] at rest
      cases task with
      | startCapture width height framerate observer => exact absurd ⟨_,_,_,_,rfl⟩ rest.1
      | startPreview width height framerate =>
        have hrun : run { s with tasks := tasks } (.startPreview width height framerate) =
            { s with tasks := tasks } := by
          simp [run, startPreviewOnCameraThread, handler, format]
        rw [hrun]
        exact ⟨.opened handler rest.2 format installed,Or.inr (Or.inl ⟨_,_,_,rfl,rfl⟩)⟩
      | frame frameData =>
        simp only [run, onUVCFrameRunOnCameraThread, handler, format, installed, Option.isNone_some,
          Bool.false_eq_true, if_false]
        exact ⟨.opened rfl rest.2 rfl rfl,Or.inr (Or.inr ⟨_,_,rfl,rfl⟩)⟩

theorem stopped_opens {helper observer : ℕ} (log : List CaptureEvent) :
    stopped (opens helper observer ++ log) = stopped log := rfl

theorem quiet_opens {helper observer : ℕ} {log : List CaptureEvent} (h : Quiet log) :
    Quiet (opens helper observer ++ log) :=
  ⟨fun _ => trivial,fun _ => trivial,fun _ => trivial,fun _ => trivial,fun _ => trivial,h⟩

theorem Leads.mono {newer : List CaptureEvent} {observer : ℕ} (h : s.Leads newer observer)
    (htasks : ∀ task ∈ s.tasks, IsStart task → task ∈ t.tasks) (events : List CaptureEvent) :
    t.Leads (events ++ newer) observer := by
  rcases h with ⟨width,height,framerate,hmem⟩ | hmem
  · exact Or.inl ⟨width,height,framerate,htasks _ hmem ⟨_,_,_,_,rfl⟩⟩
  · exact Or.inr (List.mem_append_right _ hmem)

theorem append_eq_append_start {events log newer older : List CaptureEvent} {observer : ℕ}
    (hevents : ∀ e ∈ events, ∀ observer, e ≠ .startCapture observer none)
    (h : events ++ log = newer ++ .startCapture observer none :: older) :
    ∃ newer', newer = events ++ newer' ∧ log = newer' ++ .startCapture observer none :: older := by
  rcases List.append_eq_append_iff.mp h with ⟨newer',rfl,hlog⟩ | ⟨middle,rfl,hrest⟩
  · exact ⟨newer',rfl,hlog⟩
  · cases middle with
    | nil => exact ⟨[],by simp,hrest.symm⟩
    | cons e middle =>
      obtain ⟨rfl,_⟩ := List.cons_eq_cons.mp hrest
      exact absurd rfl (hevents _ (by simp) observer)

/-- Starts that returned are led as before, when no start is among the events and the tasks run. -/
theorem InStep.leads_append (hs : s.InStep) (events : List CaptureEvent) (hlog : t.log = events ++ s.log)
    (hevents : ∀ e ∈ events, ∀ observer, e ≠ .startCapture observer none)
    (htasks : ∀ task ∈ s.tasks, IsStart task → task ∈ t.tasks) :
    ∀ newer observer older, t.log = newer ++ .startCapture observer none :: older → t.Leads newer observer := by
  intro newer observer older hsplit
  obtain ⟨newer',rfl,hold⟩ := append_eq_append_start hevents (hlog.symm.trans hsplit)
  exact (hs.leads newer' observer older hold).mono htasks events

theorem InStep.event (hs : s.InStep) (hallowed : stopped s.log = true → e.Allowed)
    (hstart : ∀ observer, e ≠ .startCapture observer none)
    (hframe : stopped (e :: s.log) = true → ∀ frameData, .frame frameData ∉ s.tasks) : (s.event e).InStep := by
  have hevents : ∀ e' ∈ [e], ∀ observer, e' ≠ .startCapture observer none := by simpa using hstart
  exact ⟨hs.phase.event,⟨hallowed,hs.quiet⟩,hs.leads_append [e] rfl hevents fun _ hmem _ => hmem,hframe⟩

theorem startCapture_inStep (hs : s.InStep) {width height framerate helper context observer : ℕ}
    (hspares : stopped s.log = true → s.mCameraThreadHandler = none) :
    (s.startCapture width height framerate (some helper) (some context) observer).InStep := by
  have hrefused : s.mCameraThreadHandler.isSome →
      (s.event (.startCapture observer (some .runtimeException))).InStep := by
    intro hsome
    refine hs.event (fun hstopped => ?_) (fun _ => by simp) fun hstopped => by simp [stopped] at hstopped
    rw [hspares hstopped] at hsome
    cases hsome
  cases hs.phase with
  | idle handler tasks format =>
    have hrun : s.startCapture width height framerate (some helper) (some context) observer =
        { s with
          mCameraThreadHandler := some helper
          mSurfaceHelper := some helper
          tasks := [.startCapture width height framerate observer]
          log := .startCapture observer none :: s.log } := by
      simp [startCapture, maybePostOnCameraThread, handler, tasks, UVCCameraVideoCapturer.event]
    rw [hrun]
    refine ⟨.opening rfl rfl rfl nofun format,⟨fun _ => rfl,hs.quiet⟩,fun newer observer' older hlog => ?_,
      fun hstopped => by simp [stopped] at hstopped⟩
    cases newer with
    | nil =>
      cases hlog
      exact Or.inl ⟨_,_,_,List.mem_singleton_self _⟩
    | cons e newer =>
      obtain ⟨rfl,hold⟩ := List.cons_eq_cons.mp hlog
      exact (hs.leads newer observer' older hold).mono (by simp [tasks]) [_]
  | opening handler surface start rest format =>
    simp only [startCapture, handler, Option.isNone_some, Option.isSome_some, Bool.false_eq_true, if_false, if_true]
    exact hrefused (by rw [handler]; rfl)
  | opened handler rest format installed =>
    simp only [startCapture, handler, Option.isNone_some, Option.isSome_some, Bool.false_eq_true, if_false, if_true]
    exact hrefused (by rw [handler]; rfl)

theorem post_inStep (hs : s.InStep) (hstart : ¬ IsStart task)
    (hframe : stopped s.log = true → s.mCameraThreadHandler ≠ none → ∀ frameData, task ≠ .frame frameData) :
    (s.maybePostOnCameraThread task).InStep := by
  have hphase := hs.phase.post hstart
  unfold maybePostOnCameraThread at hphase ⊢
  split_ifs at hphase ⊢ with hsome
  · refine ⟨hphase,hs.quiet,hs.leads_append [] rfl nofun fun _ hmem _ => List.mem_append_left _ hmem,
      fun hstopped frameData hmem => ?_⟩
    rcases List.mem_append.mp hmem with hmem | hmem
    · exact hs.noFrame hstopped frameData hmem
    · exact hframe hstopped (Option.isSome_iff_ne_none.mp hsome) frameData (List.mem_singleton.mp hmem).symm
  · exact hs

theorem runTask_inStep (hs : s.InStep) (h : s.step .runTask = some t) : t.InStep := by
  have htail : ∀ task, s.tasks = task :: t.tasks → ¬ IsStart task →
      ∀ task' ∈ s.tasks, IsStart task' → task' ∈ t.tasks := by
    intro task htasks hnot task' hmem hstart
    rcases List.mem_cons.mp (htasks ▸ hmem) with rfl | hmem
    · exact absurd hstart hnot
    · exact hmem
  obtain ⟨hphase,⟨width,height,framerate,helper,observer,htasks,hlog⟩ | ⟨width,height,framerate,htasks,hlog⟩ |
    ⟨frameData,observer,htasks,hlog⟩⟩ := step_runTask hs.phase h
  · refine ⟨hphase,hlog ▸ quiet_opens hs.quiet,fun newer observer' older hsplit => ?_,
      fun hstopped frameData hmem => ?_⟩
    · obtain ⟨newer',rfl,hold⟩ := append_eq_append_start (by simp [opens]) (hlog.symm.trans hsplit)
      rcases hs.leads newer' observer' older hold with ⟨width',height',framerate',hmem⟩ | hmem
      · rcases List.mem_cons.mp (htasks ▸ hmem) with heq | hmem
        · cases heq
          exact Or.inr (List.mem_append_left _ (by simp [opens]))
        · exact Or.inl ⟨_,_,_,hmem⟩
      · exact Or.inr (List.mem_append_right _ hmem)
    · rw [hlog, stopped_opens] at hstopped
      exact hs.noFrame hstopped frameData (htasks ▸ List.mem_cons_of_mem _ hmem)
  · refine ⟨hphase,hlog ▸ hs.quiet,hs.leads_append [] hlog nofun (htail _ htasks (by simp [IsStart])),
      fun hstopped frameData hmem => ?_⟩
    exact hs.noFrame (hlog ▸ hstopped) frameData (htasks ▸ List.mem_cons_of_mem _ hmem)
  · have hrunning : stopped s.log ≠ true :=
      fun hstopped => hs.noFrame hstopped frameData (htasks ▸ List.mem_cons_self)
    refine ⟨hphase,hlog ▸ ⟨fun hstopped => absurd hstopped hrunning,hs.quiet⟩,
      hs.leads_append [.onByteBufferFrameCaptured observer frameData 640 480] hlog (by simp)
        (htail _ htasks (by simp [IsStart])),fun hstopped => ?_⟩
    rw [hlog] at hstopped
    exact absurd hstopped hrunning

theorem step_inStep (hs : s.InStep) (hspares : s.Spares a) (h : s.step a = some t) : t.InStep := by
  cases a with
  | startCapture width height framerate helper context observer =>
    cases h
    exact startCapture_inStep hs hspares
  | stopCapture =>
    cases h
    exact hs.event (fun _ => trivial) (fun _ => by simp) fun _ => hspares
  | changeCaptureFormat width height framerate =>
    cases h
    exact post_inStep hs (by simp [IsStart]) fun _ _ _ => by simp
  | onUVCFrame frameData =>
    cases h
    exact post_inStep hs (by simp [IsStart]) fun hstopped hsome => absurd (hspares hstopped) hsome
  | runTask => exact runTask_inStep hs h

theorem InStep.restartable (hs : s.InStep) : s.Restartable :=
  ⟨hs.quiet,fun newer observer older hlog _ => hs.leads newer observer older hlog⟩

theorem initial_inStep : initial.InStep :=
  ⟨.idle rfl rfl rfl,trivial,fun newer observer older hlog => by simp [initial] at hlog,fun _ _ => nofun⟩

/-- A frame that waits while stopped is passed on when its task runs. -/
theorem exec_frame (hs : s.Phase) (hstopped : stopped s.log = true) {frameData : ℕ}
    (hmem : .frame frameData ∈ s.tasks) :
    ∃ cs u, (∀ c ∈ cs, c = .runTask) ∧ exec step s cs = some u ∧ ¬ Quiet u.log := by
  generalize htasks : s.tasks = tasks at hmem
  induction tasks generalizing s with
  | nil => cases hmem
  | cons task tasks ih =>
    obtain ⟨t,ht⟩ : ∃ t, s.step .runTask = some t := by simp [step, htasks]
    obtain ⟨hphase,hcases⟩ := step_runTask hs ht
    have hone : exec step s [.runTask] = some t := (exec_cons_eq_some _).mpr ⟨t,ht,rfl⟩
    have hlater : stopped t.log = true → .frame frameData ∈ tasks → t.tasks = tasks →
        ∃ cs u, (∀ c ∈ cs, c = .runTask) ∧ exec step s cs = some u ∧ ¬ Quiet u.log := by
      intro hstopped hmem heq
      obtain ⟨cs,u,hcs,he,hnot⟩ := ih hphase hstopped heq hmem
      exact ⟨.runTask :: cs,u,by simpa using hcs,(exec_cons_eq_some _).mpr ⟨t,ht,he⟩,hnot⟩
    rcases hcases with ⟨_,_,_,_,_,heq,hlog⟩ | ⟨_,_,_,heq,hlog⟩ | ⟨_,_,heq,hlog⟩
    · obtain ⟨rfl,rfl⟩ := List.cons_eq_cons.mp (htasks.symm.trans heq)
      exact hlater (by rw [hlog, stopped_opens]; exact hstopped) (by simpa using hmem) rfl
    · obtain ⟨rfl,rfl⟩ := List.cons_eq_cons.mp (htasks.symm.trans heq)
      exact hlater (hlog ▸ hstopped) (by simpa using hmem) rfl
    · exact ⟨[.runTask],t,by simp,hone,fun hquiet => (hlog ▸ hquiet).1 hstopped⟩

/-- A step that is not spared shows, at the latest when the posted tasks have run. -/
theorem breaks (hs : s.InStep) (hspares : ¬ s.Spares a) (h : s.step a = some t) :
    ∃ cs u, (∀ c ∈ cs, c = .runTask) ∧ exec step t cs = some u ∧ ¬ u.Restartable := by
  have hquiet : (∃ cs u, (∀ c ∈ cs, c = .runTask) ∧ exec step t cs = some u ∧ ¬ Quiet u.log) →
      ∃ cs u, (∀ c ∈ cs, c = .runTask) ∧ exec step t cs = some u ∧ ¬ u.Restartable := by
    rintro ⟨cs,u,hcs,he,hnot⟩
    exact ⟨cs,u,hcs,he,fun hr => hnot hr.quiet⟩
  apply hquiet
  cases a with
  | startCapture width height framerate helper context observer =>
    cases h
    simp only [Spares, Classical.not_imp] at hspares
    refine ⟨[],_,nofun,rfl,fun hquiet => ?_⟩
    obtain ⟨handler,hsome⟩ := Option.ne_none_iff_exists'.mp hspares.2
    simp only [startCapture, hsome, Option.isNone_some, Option.isSome_some, Bool.false_eq_true, if_false, if_true,
      event_log] at hquiet
    cases hquiet.1 hspares.1
  | stopCapture =>
    cases h
    simp only [Spares, not_forall, not_not] at hspares
    obtain ⟨frameData,hmem⟩ := hspares
    exact exec_frame hs.phase.event rfl hmem
  | onUVCFrame frameData =>
    cases h
    simp only [Spares, Classical.not_imp] at hspares
    have hphase : (s.onUVCFrame frameData).Phase := hs.phase.post (by simp [IsStart])
    have hsome := Option.isSome_iff_ne_none.mpr hspares.2
    have hmem : .frame frameData ∈ (s.onUVCFrame frameData).tasks := by
      simp [onUVCFrame, maybePostOnCameraThread, hsome]
    refine exec_frame hphase ?_ hmem
    simp only [onUVCFrame, maybePostOnCameraThread, hsome, if_true]
    exact hspares.1
  | changeCaptureFormat width height framerate => exact absurd trivial hspares
  | runTask => exact absurd trivial hspares

/-- In every run, also when the posted tasks are run after any part of it, stops and starts do
what they promise if and only if each of its steps is spared. -/
theorem restartable_iff_spares {as : List CapturerAction} (he : exec step initial as = some t) :
    Settles step (· = .runTask) Restartable initial as ↔ Along step Spares initial as := by
  refine settles_iff_along (I := InStep) (fun s hs => hs.restartable)
    (fun s a t hs hspares h => step_inStep hs hspares h) ?_ (fun s a t hs hspares h => breaks hs hspares h)
    initial_inStep he
  rintro s _ _ rfl
  trivial

theorem restartable_once_stopped :
    Settles step (· = .runTask) Restartable initial
      [.stopCapture,.startCapture 640 480 15 1 1 7,.runTask,.onUVCFrame 3,.runTask,.stopCapture] := by
  apply (restartable_iff_spares rfl).mpr
  simp [Along, Spares, step, stopCapture, startCapture, onUVCFrame, maybePostOnCameraThread, run, initial, stopped,
    startCaptureOnCameraThread, startPreviewOnCameraThread, onUVCFrameRunOnCameraThread, event]

/-- A capture that was stopped cannot be started again. -/
theorem not_restartable_second_start :
    ¬ ∀ (as : List CapturerAction) (t : UVCCameraVideoCapturer), exec step initial as = some t → t.Restartable := by
  intro h
  let as : List CapturerAction :=
    [.startCapture 640 480 15 1 1 7,.runTask,.stopCapture,.startCapture 640 480 15 1 1 8]
  have hrun : (exec step initial as).map (fun s => s.log.take 2) =
      some [.startCapture 8 (some .runtimeException),.stopCapture] := by decide
  obtain ⟨t,ht,hlog⟩ := Option.map_eq_some_iff.mp hrun
  have hquiet := (h as t ht).quiet
  match hlog' : t.log, hlog with
  | e :: e' :: log, hlog =>
    cases hlog
    rw [hlog'] at hquiet
    cases hquiet.1 rfl

end UVCCameraVideoCapturer
end AdSystem.Camera.Capturer
