import AdSystem.Download.ServiceLiveness

/-! # Which requesters are told

A request whose url has no listed task starts a download of its own, and its
callback object travels from the init thread to the task, the thread and the
message. A request for a listed url is dropped together with its callback.
-/
namespace AdSystem.Download
open Pool Transition

/-- The init thread gets a length and sends MSG_INIT. -/
def InitAnswer.succeeds (answer : InitAnswer) : Prop :=
  answer.responseCode = httpOk ∧ 0 < answer.contentLength

theorem initThreadRun_isSome {info : TaskInfo} {answer : InitAnswer} (h : answer.succeeds) :
    ∃ info', initThreadRun info answer = some info' := by
  unfold initThreadRun
  exact ⟨_,if_pos h⟩

def Call.tells (d : ℕ) : Call → Bool
  | .onDownloadFinished e _ _ => e = d
  | _ => false

namespace Service

/-- Only requests come from outside, and no init thread or download thread gives up. -/
def Succeeding (s : Service) : ServiceAction → Prop
  | .pause _ | .onLowMemory => False
  | .initThread _ answer => ∃ a, answer = some a ∧ a.succeeds
  | .worker i a => ∀ w ∈ s.workers[i]?, ¬ GivesUp w.thread (s.task w.task) a
  | _ => True

/-- No init thread, download thread, message or broadcast is left. -/
def Quiescent (s : Service) : Prop :=
  s.initThreads = [] ∧ s.workers = [] ∧ s.queue = [] ∧ s.broadcasts = []

/-- The callback object of task `k`. -/
def callback (s : Service) (k : ℕ) : Option ℕ := (s.task k).mTaskInfo.download

/-- A completion for the callback object is on its way. -/
inductive Owes (s : Service) (d : ℕ) : Prop where
  | initThread (info : TaskInfo) (mem : info ∈ s.initThreads) (download : info.download = some d)
  | init (info : TaskInfo) (mem : .init info ∈ s.queue) (download : info.download = some d)
  | worker (w : Worker) (mem : w ∈ s.workers) (download : s.callback w.task = some d)
  | message (k : ℕ) (p : ℤ) (hundred : 100 ≤ p) (mem : .downloading k p ∈ s.queue)
      (download : s.callback k = some d)

/-- No task is paused and no thread has seen a pause. -/
structure Unpaused (s : Service) : Prop where
  tasks : ∀ k < s.made, (s.task k).isPause = false
  workers : ∀ w ∈ s.workers, w.thread.Working

/-- The callback object has been told by one of the calls. -/
def Told (d : ℕ) (calls : List Call) : Prop := ∃ c ∈ calls, c.tells d = true

instance (d : ℕ) (calls : List Call) : Decidable (Told d calls) :=
  inferInstanceAs (Decidable (∃ c ∈ calls, c.tells d = true))

section Steps
variable {s u : Service} {d : ℕ}

theorem Quiescent.not_owes (h : s.Quiescent) : ¬ s.Owes d := by
  obtain ⟨hi,hw,hq,_⟩ := h
  intro ho
  cases ho with
  | initThread info mem _ => rw [hi] at mem; cases mem
  | init info mem _ => rw [hq] at mem; cases mem
  | worker w mem _ => rw [hw] at mem; cases mem
  | message k p _ mem _ => rw [hq] at mem; cases mem

theorem Owes.mono (h : s.Owes d) (hi : ∀ info ∈ s.initThreads, info ∈ u.initThreads)
    (hq : ∀ m ∈ s.queue, m ∈ u.queue) (hw : ∀ w ∈ s.workers, w ∈ u.workers)
    (hc : ∀ k < s.made, u.callback k = s.callback k) (hwf : s.Wf) : u.Owes d := by
  cases h with
  | initThread info mem download => exact .initThread info (hi _ mem) download
  | init info mem download => exact .init info (hq _ mem) download
  | worker w mem download => exact .worker w (hw _ mem) (by rw [hc _ (hwf.made w mem), download])
  | message k p hundred mem download =>
    exact .message k p hundred (hq _ mem) (by rw [hc k (hwf.messages _ mem), download])

theorem download_unpaused (hwf : s.Wf) (hn : s.Unpaused) (info : TaskInfo) :
    s.download info = s ∨ s.download info = { s with initThreads := s.initThreads ++ [info] } := by
  rcases download_cases hwf info with ⟨k,r,rows,hf,hp,_⟩ | ⟨k,_,_,hd⟩ | ⟨_,hd⟩
  · rw [hn.tasks k (hwf.listed k (find_eq_some hf).1)] at hp
    cases hp
  · exact Or.inl hd
  · exact Or.inr hd

/-- A thread that does not give up goes on or reports 100 percent. -/
theorem worker_succeeds (hwf : s.Wf) (hn : s.Unpaused) {i : ℕ} {a : ThreadAction}
    (hg : s.Succeeding (.worker i a)) {w : Worker} (hw : s.workers[i]? = some w) {e : Effect}
    (he : w.thread.run (s.task w.task) (s.files (s.task w.task).mTaskInfo.file) s.rows a = some e) :
    (∃ th, e.thread = some th ∧ th.Working) ∨ ∃ p, e.posted = some p ∧ 100 ≤ p := by
  have hm := List.mem_of_getElem? hw
  rcases run_progress (hwf.tasks _ (hwf.made _ hm)) (hwf.workers _ hm) he with
    hth | hno | hp | hpost | hgive
  · exact Or.inl hth
  · exact absurd (hn.workers w hm) hno
  · rw [hn.tasks _ (hwf.made _ hm)] at hp
    cases hp
  · exact Or.inr hpost
  · exact absurd hgive (hg w hw)

theorem run_working {w : DownloadThread} {t : DownloadTask} {file : List UInt8} {rows : ThreadTable}
    {a : ThreadAction} {e : Effect} (hw : w.Working) (ht : t.isPause = false)
    (h : w.run t file rows a = some e) : ∀ th, e.thread = some th → th.Working := by
  intro th hth
  cases run_acts h with
  | connected | delivered | early | late =>
    cases hth
    simp [DownloadThread.Working]
  | checked =>
    cases hth
    simp [DownloadThread.Working, ht]
  | notified hc => exact absurd hc hw.1
  | persisted hc => exact absurd hc hw.2
  | refused | ended | failed => cases hth

theorem Unpaused.step (hn : s.Unpaused) (hwf : s.Wf) {a : ServiceAction} (hg : s.Succeeding a)
    (h : s.step a = some u) : u.Unpaused := by
  cases a with
  | download info =>
    cases h
    rcases download_unpaused hwf hn info with hd | hd
    · rw [hd]
      exact hn
    · rw [hd]
      exact ⟨hn.tasks,hn.workers⟩
  | pause link => exact hg.elim
  | onLowMemory => exact hg.elim
  | initThread i answer =>
    obtain ⟨info,_,⟨_,rfl⟩ | ⟨info',files,_,rfl⟩⟩ := initThread_eq h
    · exact ⟨hn.tasks,hn.workers⟩
    · exact ⟨hn.tasks,hn.workers⟩
  | worker i a =>
    obtain ⟨w,e,hw,he,rfl⟩ := worker_eq h
    have hm := List.mem_of_getElem? hw
    have hf := run_frame he
    have ht := hn.tasks _ (hwf.made _ hm)
    refine ⟨fun k hk => ?_,fun w' hw' => ?_⟩
    · simp only [applyEffect]
      rcases eq_or_ne k w.task with rfl | hne
      · rw [Function.update_self, hf.isPause, ht]
      · rw [Function.update_of_ne hne]
        exact hn.tasks k hk
    · rcases mem_update hw' with hw' | hw'
      · exact hn.workers w' hw'
      · obtain ⟨th,hth,rfl⟩ := Option.map_eq_some_iff.mp hw'
        exact run_working (hn.workers w hm) ht he th hth
  | dispatch =>
    obtain ⟨m,queue,hq,rfl⟩ := dispatch_eq h
    cases m with
    | init info =>
      obtain ⟨r,rows,hd,_,_⟩ := handleInit_eq (s := { s with queue }) hwf.rows info
      rw [hd]
      refine ⟨fun k hk => ?_,fun w hw => ?_⟩
      · rcases eq_or_ne k s.made with rfl | hne
        · simp only [Function.update_self]
          rfl
        · simp only [Function.update_of_ne hne]
          exact hn.tasks k (by dsimp only at hk; omega)
      · rcases List.mem_append.mp hw with hw | hw
        · exact hn.workers w hw
        · rw [List.mem_singleton.mp hw]
          simp [DownloadThread.Working, DownloadThread.init]
    | downloadFinished link => exact ⟨hn.tasks,hn.workers⟩
    | downloading k progress =>
      simp only [handleMessage]
      split_ifs
      · exact ⟨hn.tasks,hn.workers⟩
      · exact ⟨hn.tasks,hn.workers⟩
  | receive i =>
    obtain ⟨link,_,rfl⟩ := receive_eq h
    exact ⟨hn.tasks,hn.workers⟩

theorem dispatchMessage_told {t : DownloadTask} {p : ℤ} (hd : t.mTaskInfo.download = some d)
    (hp : 100 ≤ p) : Told d (t.dispatchMessage p) := by
  refine ⟨.onDownloadFinished d t.mTaskInfo.filePath t.mTaskInfo.fileName,?_,by simp [Call.tells]⟩
  simp [DownloadTask.dispatchMessage, hd, hp]

theorem Owes.worker_step (ho : s.Owes d) (hwf : s.Wf) (hn : s.Unpaused) {i : ℕ} {a : ThreadAction}
    (hg : s.Succeeding (.worker i a)) (h : s.step (.worker i a) = some u) : u.Owes d := by
  obtain ⟨w,e,hw,he,rfl⟩ := worker_eq h
  have hf := run_frame he
  have hcall : ∀ k, (s.applyEffect i w.task e).callback k = s.callback k := fun k =>
    congrArg TaskInfo.download (update_taskInfo hf.taskInfo k)
  have hqueue : ∀ m ∈ s.queue, m ∈ (s.applyEffect i w.task e).queue :=
    fun m hm => List.mem_append_left _ hm
  cases ho with
  | initThread info mem download => exact .initThread info mem download
  | init info mem download => exact .init info (hqueue _ mem) download
  | message k p hundred mem download =>
    exact .message k p hundred (hqueue _ mem) (by rw [hcall, download])
  | worker w' mem download =>
    by_cases hww : w' = w
    · subst hww
      rcases worker_succeeds hwf hn hg hw he with ⟨th,hth,_⟩ | ⟨p,hp,h100⟩
      · refine .worker ⟨w'.task,th⟩ ?_ (by rw [hcall, download])
        simp only [applyEffect, hth, Option.map_some]
        exact mem_update_self hw
      · refine .message w'.task p h100 ?_ (by rw [hcall, download])
        simp [applyEffect, hp]
    · obtain ⟨n,hn'⟩ := List.mem_iff_getElem?.mp mem
      refine .worker w' (mem_update_of_ne hn' fun hni => hww ?_) (by rw [hcall, download])
      subst hni
      exact Option.some.inj (hn'.symm.trans hw)

theorem Owes.dispatch_step (ho : s.Owes d) (hwf : s.Wf) (h : s.step .dispatch = some u) :
    Told d (s.calls .dispatch) ∨ u.Owes d := by
  obtain ⟨m,queue,hq,rfl⟩ := dispatch_eq h
  have hwf' : { s with queue : Service }.Wf :=
    { hwf with messages := fun m' hm' => hwf.messages m' (by rw [hq]; exact List.mem_cons_of_mem _ hm') }
  -- the completion is owed by something else than the message handled
  have hrest : { s with queue : Service }.Owes d →
      ({ s with queue : Service }.handleMessage m).Owes d := by
    intro ho'
    cases m with
    | init info =>
      obtain ⟨r,rows,hd,_,_⟩ := handleInit_eq hwf'.rows info
      rw [hd]
      refine ho'.mono (fun _ h => h) (fun _ h => h) (fun w hw => List.mem_append_left _ hw) (fun k hk => ?_) hwf'
      have hne : k ≠ s.made := Nat.ne_of_lt hk
      simp only [callback, Function.update_of_ne hne]
    | downloadFinished link =>
      exact ho'.mono (fun _ h => h) (fun _ h => h) (fun _ h => h) (fun _ _ => rfl) hwf'
    | downloading k progress =>
      simp only [handleMessage]
      split_ifs
      · exact ho'.mono (fun _ h => h) (fun _ h => h) (fun _ h => h) (fun _ _ => rfl) hwf'
      · exact ho'
  cases ho with
  | initThread info mem download => exact Or.inr (hrest (.initThread info mem download))
  | worker w mem download => exact Or.inr (hrest (.worker w mem download))
  | init info mem download =>
    rw [hq] at mem
    rcases List.mem_cons.mp mem with rfl | mem
    · obtain ⟨r,rows,hd,_,_⟩ := handleInit_eq hwf'.rows info
      rw [hd]
      refine Or.inr (.worker ⟨s.made,DownloadThread.init r⟩ (List.mem_append_right _ (List.mem_singleton_self _)) ?_)
      simp only [callback, Function.update_self]
      exact download
    · exact Or.inr (hrest (.init info mem download))
  | message k p hundred mem download =>
    rw [hq] at mem
    rcases List.mem_cons.mp mem with rfl | mem
    · apply Or.inl
      simp only [calls, hq]
      exact dispatchMessage_told download hundred
    · exact Or.inr (hrest (.message k p hundred mem download))

theorem Owes.step (ho : s.Owes d) (hwf : s.Wf) (hn : s.Unpaused) {a : ServiceAction}
    (hg : s.Succeeding a) (h : s.step a = some u) : Told d (s.calls a) ∨ u.Owes d := by
  cases a with
  | download info =>
    cases h
    apply Or.inr
    rcases download_unpaused hwf hn info with hd | hd
    · rw [hd]
      exact ho
    · rw [hd]
      exact ho.mono (fun _ h => List.mem_append_left _ h) (fun _ h => h) (fun _ h => h) (fun _ _ => rfl) hwf
  | pause link => exact hg.elim
  | onLowMemory => exact hg.elim
  | initThread i answer =>
    obtain ⟨a,rfl,ha⟩ := hg
    obtain ⟨info,hi,⟨hno,_⟩ | ⟨info',files,hr,rfl⟩⟩ := initThread_eq h
    · obtain ⟨info',hr⟩ := @initThreadRun_isSome info _ ha
      exact nomatch hr.symm.trans hno
    · apply Or.inr
      cases ho with
      | initThread info₀ mem download =>
        obtain ⟨n,hn'⟩ := List.mem_iff_getElem?.mp mem
        rcases eq_or_ne n i with rfl | hne
        · cases hi.symm.trans hn'
          refine .init info' (List.mem_append_right _ (List.mem_singleton_self _)) ?_
          rw [(initThreadRun_spec hr).2.1, download]
        · exact .initThread info₀ (List.mem_eraseIdx_iff_getElem?.mpr ⟨n,hne,hn'⟩) download
      | init info mem download => exact .init info (List.mem_append_left _ mem) download
      | worker w mem download => exact .worker w mem download
      | message k p hundred mem download =>
        exact .message k p hundred (List.mem_append_left _ mem) download
  | worker i a => exact Or.inr (ho.worker_step hwf hn hg h)
  | dispatch => exact ho.dispatch_step hwf h
  | receive i =>
    obtain ⟨link,_,rfl⟩ := receive_eq h
    exact Or.inr (ho.mono (fun _ h => h) (fun _ h => List.mem_append_left _ h) (fun _ h => h)
      (fun _ _ => rfl) hwf)

theorem Told.append_left {xs ys : List Call} (h : Told d xs) : Told d (xs ++ ys) := by
  obtain ⟨c,hm,hc⟩ := h
  exact ⟨c,List.mem_append_left _ hm,hc⟩

theorem Told.append_right {xs ys : List Call} (h : Told d ys) : Told d (xs ++ ys) := by
  obtain ⟨c,hm,hc⟩ := h
  exact ⟨c,List.mem_append_right _ hm,hc⟩

/-- By the end of a run every completion owed at its start was made, or is still owed. -/
theorem Owes.run {as : List ServiceAction} (ho : s.Owes d) (hwf : s.Wf) (hn : s.Unpaused)
    (hg : Along Service.step Succeeding s as) (he : exec Service.step s as = some u) :
    Told d (trace Service.step calls s as) ∨ u.Owes d := by
  induction as generalizing s with
  | nil =>
    cases he
    exact Or.inr ho
  | cons a as ih =>
    obtain ⟨t,ht,he⟩ := (exec_cons_eq_some Service.step).mp he
    simp only [trace, ht, Option.elim_some]
    rcases ho.step hwf hn hg.1 ht with htold | ho'
    · exact Or.inl htold.append_left
    · rcases ih ho' (hwf.step ht) (hn.step hwf hg.1 ht) (hg.2 t ht) he with htold | ho''
      · exact Or.inl htold.append_right
      · exact Or.inr ho''

end Steps

/-- When everything has come to rest, the callback of a request has been told after the
request, if the url was not listed then or the callback was still waiting anyway. -/
theorem requester_told (rows : ThreadTable) (files : FileKey → List UInt8) (hr : RowsOk rows)
    (before after : List ServiceAction) (info : TaskInfo) (d : ℕ) (s u : Service)
    (hg : Along Service.step Succeeding (onCreate rows files) (before ++ .download info :: after))
    (hs : exec Service.step (onCreate rows files) before = some s)
    (hu : exec Service.step s (.download info :: after) = some u) (hq : u.Quiescent)
    (hd : info.download = some d)
    (hlisted : (∀ k ∈ s.mListTask, s.url k ≠ info.url) ∨ s.Owes d) :
    Told d (trace Service.step calls s (.download info :: after)) := by
  obtain ⟨hbefore,hafter⟩ := (along_append hs).mp hg
  have hinv : s.Wf ∧ s.Unpaused :=
    exec_invariant (I := fun s => s.Wf ∧ s.Unpaused) (P := Succeeding)
      (fun _ _ _ hs hg h => ⟨hs.1.step h,hs.2.step hs.1 hg h⟩)
      ⟨onCreate_wf hr,⟨fun _ h => absurd h (Nat.not_lt_zero _),fun _ h => nomatch h⟩⟩ hbefore hs
  obtain ⟨hwf,hn⟩ := hinv
  obtain ⟨t,ht,hrun⟩ := (exec_cons_eq_some Service.step).mp hu
  have hstart : t.Owes d := by
    rcases hlisted with hlisted | ho
    · cases ht
      have hdown : s.download info = { s with initThreads := s.initThreads ++ [info] } := by
        rw [download, find_eq_none.mpr hlisted]
      rw [hdown]
      exact .initThread info (List.mem_append_right _ (List.mem_singleton_self _)) hd
    · rcases ho.step hwf hn hafter.1 ht with ⟨_,hm,_⟩ | ho
      · exact nomatch hm
      · exact ho
  simp only [trace, ht, Option.elim_some]
  rcases hstart.run (hwf.step ht) (hn.step hwf hafter.1 ht) (hafter.2 t ht) hrun with htold | ho
  · exact htold.append_right
  · exact absurd ho hq.not_owes

end Service

/-- The transfer of two bytes, up to the end of the receiver's work. -/
def transferRun : List ServiceAction :=
  [.worker 0 (.connect 206 [7,8]),.worker 0 (.read 2),.worker 0 (.clock false),
    .worker 0 .checkPause,.worker 0 .endOfStream,.dispatch,.receive 0,.dispatch]

instance (w : DownloadThread) (t : DownloadTask) : ∀ a, Decidable (GivesUp w t a)
  | .ioException => isTrue trivial
  | .connect responseCode _ => inferInstanceAs (Decidable (responseCode ≠ httpPartial ∧ responseCode ≠ httpOk))
  | .endOfStream => inferInstanceAs (Decidable (w.threadInfo.finished < t.mTaskInfo.lenght))
  | .read _ | .clock _ | .checkPause | .notify | .persist => isFalse not_false

instance (s : Service) : ∀ a, Decidable (s.Succeeding a)
  | .pause _ | .onLowMemory => isFalse not_false
  | .initThread _ none => isFalse (fun ⟨_,h,_⟩ => nomatch h)
  | .initThread _ (some a) =>
    decidable_of_iff (a.responseCode = httpOk ∧ 0 < a.contentLength)
      ⟨fun h => ⟨a,rfl,h⟩,fun ⟨_,h,ha⟩ => by cases h; exact ha⟩
  | .worker i a => inferInstanceAs (Decidable (∀ w ∈ s.workers[i]?, ¬ GivesUp w.thread (s.task w.task) a))
  | .download _ | .dispatch | .receive _ => isTrue trivial

theorem requester_told_single_request :
    ∃ s u, exec Service.step (Service.onCreate [] fun _ => []) [] = some s ∧
      exec Service.step s (requestAnswered ++ transferRun) = some u ∧
      Service.Told 0 (trace Service.step Service.calls s (requestAnswered ++ transferRun)) :=
  ⟨_,_,rfl,rfl,Service.requester_told [] (fun _ => []) rowsOk_nil []
    ([.initThread 0 (some twoBytesAnswer),.dispatch] ++ transferRun) (orderedInfo 0) 0 _ _ (by decide) rfl rfl
    ⟨rfl,rfl,rfl,rfl⟩ rfl (Or.inl (fun _ h => nomatch h))⟩

/-- The second requester asks for a listed url, and is never told. -/
theorem requester_not_told :
    ¬ ∀ (rows : ThreadTable) (files : FileKey → List UInt8), RowsOk rows →
      ∀ (before after : List ServiceAction) (info : TaskInfo) (d : ℕ) (s u : Service),
        info.url ≠ "" →
        Along Service.step Service.Succeeding (Service.onCreate rows files)
          (before ++ .download info :: after) →
        exec Service.step (Service.onCreate rows files) before = some s →
        exec Service.step s (.download info :: after) = some u → u.Quiescent →
        info.download = some d →
        Service.Told d (trace Service.step Service.calls s (.download info :: after)) := by
  intro h
  have htold := h [] (fun _ => []) rowsOk_nil requestAnswered transferRun (orderedInfo 1) 1 _ _
    (by decide) (by decide) rfl rfl ⟨rfl,rfl,rfl,rfl⟩ rfl
  exact absurd htold (by decide)

end AdSystem.Download
