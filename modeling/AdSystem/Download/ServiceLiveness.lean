import AdSystem.Download.ServiceExclusion

/-! # When a listed task can still make progress

A task leaves the list through its completion broadcast only. A thread that gives
up, or a completion without a callback, leaves it listed and unpaused for good.
-/
namespace AdSystem.Download
open SignedWord Pool Transition

/-- The thread has not seen a pause. -/
def DownloadThread.Working (w : DownloadThread) : Prop :=
  w.stage ≠ .pausing ∧ w.stage ≠ .persisting

/-- The thread ends without having fetched its task: by an exception, a refused status
or a response that is too short. -/
def GivesUp (w : DownloadThread) (t : DownloadTask) : ThreadAction → Prop
  | .ioException => True
  | .connect responseCode _ => responseCode ≠ httpPartial ∧ responseCode ≠ httpOk
  | .endOfStream => w.threadInfo.finished < t.mTaskInfo.lenght
  | _ => False

section Threads
variable {w : DownloadThread} {t : DownloadTask} {file : List UInt8} {rows : ThreadTable}
  {url : String} {a : ThreadAction} {e : Effect}

theorem OneThread.notifyProgress (ht : OneThread t) (hw : RowOf url w.threadInfo)
    (hl : t.mTaskInfo.lenght ≤ w.threadInfo.finished) :
    ∃ p, (t.notifyProgress w.threadInfo.id w.threadInfo.finished).2 = some p ∧ 100 ≤ p := by
  obtain ⟨x,hx⟩ := List.length_eq_one_iff.mp ht.totals
  have hsum : sum32 [w.threadInfo.finished] = w.threadInfo.finished := by
    simp only [sum32, List.foldl_cons, List.foldl_nil, zero_add]
    exact i32_eq hw.finished
  refine ⟨percent w.threadInfo.finished t.mTaskInfo.lenght,?_,(hundred_le_percent ht.lenght).mpr hl⟩
  rw [hw.id]
  simp only [DownloadTask.notifyProgress, hx]
  simp [hsum]

/-- What can become of a thread in one action. -/
theorem run_progress (ht : OneThread t) (hw : RowOf url w.threadInfo)
    (h : w.run t file rows a = some e) :
    (∃ w', e.thread = some w' ∧ w'.Working) ∨ ¬ w.Working ∨ t.isPause = true ∨
      (∃ p, e.posted = some p ∧ 100 ≤ p) ∨ GivesUp w t a := by
  cases run_acts h with
  | connected | delivered | early | late => exact Or.inl ⟨_,rfl,by simp [DownloadThread.Working]⟩
  | refused _ hcode =>
    refine Or.inr (Or.inr (Or.inr (Or.inr ?_)))
    exact not_or.mp hcode
  | checked =>
    cases hp : t.isPause with
    | true => exact Or.inr (Or.inr (Or.inl rfl))
    | false => exact Or.inl ⟨_,rfl,by simp [DownloadThread.Working]⟩
  | notified hc => exact Or.inr (Or.inl fun hworking => hworking.1 hc)
  | persisted hc => exact Or.inr (Or.inl fun hworking => hworking.2 hc)
  | ended =>
    rcases lt_or_ge w.threadInfo.finished t.mTaskInfo.lenght with hlt | hge
    · exact Or.inr (Or.inr (Or.inr (Or.inr hlt)))
    · exact Or.inr (Or.inr (Or.inr (Or.inl (ht.notifyProgress hw hge))))
  | failed => exact Or.inr (Or.inr (Or.inr (Or.inr trivial)))

end Threads

namespace Service

/-- Task `k` is being fetched, or its completion is on its way. -/
inductive Progress (s : Service) (k : ℕ) : Prop where
  | worker (w : Worker) (mem : w ∈ s.workers) (task : w.task = k) (working : w.thread.Working)
  | message (p : ℤ) (hundred : 100 ≤ p) (mem : .downloading k p ∈ s.queue)
  | broadcast (mem : s.url k ∈ s.broadcasts)
  | finished (mem : .downloadFinished (s.url k) ∈ s.queue)

/-- If the task is listed and not paused, it can make progress. -/
def Covered (s : Service) (k : ℕ) : Prop :=
  k ∈ s.mListTask → (s.task k).isPause = false → s.Progress k

/-- A thread only gives up, and a completion is only dropped, when the task is covered
by something else; and no second task of a url is made. -/
def Guarded (s : Service) : ServiceAction → Prop
  | .worker i a => ∀ w ∈ s.workers[i]?, w.thread.Working → GivesUp w.thread (s.task w.task) a →
      { s with workers := s.workers.eraseIdx i : Service }.Covered w.task
  | .dispatch =>
    match s.queue with
    | .init info :: _ => s.find info.url = none
    | .downloading k p :: queue => 100 ≤ p → (s.task k).mTaskInfo.download = none →
        { s with queue : Service }.Covered k
    | _ => True
  | _ => True

/-- Every task is covered, and the listed urls are distinct. -/
structure Live (s : Service) : Prop where
  nodup : (s.mListTask.map s.url).Nodup
  covered : ∀ k, s.Covered k

section Steps
variable {s u : Service} {k : ℕ}

theorem Progress.mono (h : s.Progress k) (hw : ∀ w ∈ s.workers, w ∈ u.workers)
    (hq : ∀ m ∈ s.queue, m ∈ u.queue) (hb : ∀ l ∈ s.broadcasts, l ∈ u.broadcasts)
    (hurl : u.url k = s.url k) : u.Progress k := by
  cases h with
  | worker w mem task working => exact .worker w (hw w mem) task working
  | message p hundred mem => exact .message p hundred (hq _ mem)
  | broadcast mem => exact .broadcast (hurl ▸ hb _ mem)
  | finished mem => exact .finished (hurl ▸ hq _ mem)

theorem Live.download (hs : s.Live) (hwf : s.Wf) (info : TaskInfo) : (s.download info).Live := by
  rcases download_cases hwf info with ⟨k,r,rows,hf,hp,hd,_,_⟩ | ⟨k,hf,hp,hd⟩ | ⟨hf,hd⟩
  · have hurl : (s.download info).url = s.url := by
      funext j
      rw [hd]
      exact congrArg TaskInfo.url (update_taskInfo (k := k) (t := (s.task k).restart) rfl j)
    refine ⟨by rw [hurl, hd]; exact hs.nodup,fun j hj hpj => ?_⟩
    rcases eq_or_ne j k with rfl | hne
    · refine .worker ⟨j,DownloadThread.init r⟩ ?_ rfl (by simp [DownloadThread.Working, DownloadThread.init])
      rw [hd]
      exact List.mem_append_right _ (List.mem_singleton_self _)
    · have hcov := hs.covered j
      rw [hd] at hj hpj
      simp only [Function.update_of_ne hne] at hpj
      refine (hcov hj hpj).mono ?_ ?_ ?_ (congrFun hurl j) <;> rw [hd]
      · exact fun w hw => List.mem_append_left _ hw
      · exact fun m hm => hm
      · exact fun l hl => hl
  · rw [hd]
    exact hs
  · rw [hd]
    exact ⟨hs.nodup,fun j hj hpj => (hs.covered j hj hpj).mono (fun _ h => h) (fun _ h => h)
      (fun _ h => h) rfl⟩

theorem Live.of_pause {task : ℕ → DownloadTask} (hs : s.Live)
    (ht : ∀ k, task k = s.task k ∨ task k = (s.task k).pause) :
    { s with task : Service }.Live := by
  have hurl : { s with task : Service }.url = s.url := by
    funext j
    rcases ht j with h | h
    · exact congrArg (fun t => t.mTaskInfo.url) h
    · exact congrArg (fun t => t.mTaskInfo.url) h
  refine ⟨by rw [hurl]; exact hs.nodup,fun j hj hpj => ?_⟩
  rcases ht j with h | h
  · have hpj : (task j).isPause = false := hpj
    rw [h] at hpj
    exact (hs.covered j hj hpj).mono (fun _ h => h) (fun _ h => h) (fun _ h => h) (congrFun hurl j)
  · have hpj : (task j).isPause = false := hpj
    rw [h] at hpj
    cases hpj

theorem Live.worker (hs : s.Live) (hwf : s.Wf) {i : ℕ} {a : ThreadAction}
    (hg : s.Guarded (.worker i a)) (h : s.step (.worker i a) = some u) : u.Live := by
  obtain ⟨w,e,hw,he,rfl⟩ := worker_eq h
  have hm := List.mem_of_getElem? hw
  have hf := run_frame he
  have hurl : (s.applyEffect i w.task e).url = s.url := by
    funext j
    exact congrArg TaskInfo.url (update_taskInfo hf.taskInfo j)
  have hpause : ∀ j, ((s.applyEffect i w.task e).task j).isPause = (s.task j).isPause := by
    intro j
    simp only [applyEffect]
    rcases eq_or_ne j w.task with rfl | hne
    · rw [Function.update_self, hf.isPause]
    · rw [Function.update_of_ne hne]
  have hqueue : ∀ m ∈ s.queue, m ∈ (s.applyEffect i w.task e).queue :=
    fun m hm => List.mem_append_left _ hm
  -- what covers a task without worker `i` still covers it
  have hrest : ∀ j, { s with workers := s.workers.eraseIdx i : Service }.Progress j →
      (s.applyEffect i w.task e).Progress j := by
    intro j hj
    refine hj.mono (fun w' hw' => ?_) hqueue (fun l hl => hl) (congrFun hurl j)
    obtain ⟨m,hne,hw'⟩ := List.mem_eraseIdx_iff_getElem?.mp hw'
    exact mem_update_of_ne hw' hne
  refine ⟨by rw [hurl]; exact hs.nodup,fun j hj hpj => ?_⟩
  rw [hpause] at hpj
  -- a cover other than worker `i` stays
  have hother : ∀ w' ∈ s.workers, w'.task = j → w'.thread.Working → w' ≠ w →
      (s.applyEffect i w.task e).Progress j := by
    intro w' hw' hk hworking hne
    obtain ⟨m,hm'⟩ := List.mem_iff_getElem?.mp hw'
    refine .worker w' (mem_update_of_ne hm' fun hmi => hne ?_) hk hworking
    subst hmi
    exact Option.some.inj (hm'.symm.trans hw)
  cases hs.covered j hj hpj with
  | message p hundred mem => exact .message p hundred (hqueue _ mem)
  | broadcast mem => exact .broadcast (hurl ▸ mem)
  | finished mem => exact .finished (hurl ▸ hqueue _ mem)
  | worker w' mem task working =>
    by_cases hww : w' = w
    · subst hww
      subst task
      rcases run_progress (hwf.tasks _ (hwf.made _ hm)) (hwf.workers _ hm) he with
        ⟨th,hth,hworking⟩ | hn | hp | ⟨p,hp,h100⟩ | hgive
      · refine .worker ⟨w'.task,th⟩ ?_ rfl hworking
        simp only [applyEffect, hth, Option.map_some]
        exact mem_update_self hw
      · exact absurd working hn
      · rw [hp] at hpj
        cases hpj
      · refine .message p h100 ?_
        simp [applyEffect, hp]
      · exact hrest _ (hg w' hw working hgive hj hpj)
    · exact hother w' mem task working hww

theorem Live.handleInit (hs : s.Live) (hwf : s.Wf) {info : TaskInfo} (hf : s.find info.url = none) :
    (s.handleMessage (.init info)).Live := by
  obtain ⟨r,rows,hd,_,_⟩ := handleInit_eq hwf.rows info
  have hold : ∀ j, j ≠ s.made → (s.handleMessage (.init info)).url j = s.url j := by
    intro j hne
    rw [hd, url, url]
    simp only [Function.update_of_ne hne]
  have hnew : (s.handleMessage (.init info)).url s.made = info.url := by
    rw [hd, url]
    simp only [Function.update_self]
    rfl
  constructor
  · have hlist : s.mListTask.map (s.handleMessage (.init info)).url = s.mListTask.map s.url :=
      List.map_congr_left fun j hj => hold j (hwf.listed j hj).ne
    have hmade : (s.handleMessage (.init info)).mListTask = s.mListTask ++ [s.made] := by rw [hd]
    rw [hmade, List.map_append, hlist, List.map_singleton, hnew]
    refine List.nodup_append.mpr ⟨hs.nodup,List.nodup_singleton _,fun a ha b hb => ?_⟩
    obtain ⟨j,hj,rfl⟩ := List.mem_map.mp ha
    rw [List.mem_singleton.mp hb]
    exact find_eq_none.mp hf j hj
  · intro j hj hpj
    rcases eq_or_ne j s.made with rfl | hne
    · refine .worker ⟨s.made,DownloadThread.init r⟩ ?_ rfl
        (by simp [DownloadThread.Working, DownloadThread.init])
      rw [hd]
      exact List.mem_append_right _ (List.mem_singleton_self _)
    · have hcov := hs.covered j
      have hurl := hold j hne
      rw [hd] at hj hpj
      simp only [Function.update_of_ne hne] at hpj
      have hj : j ∈ s.mListTask := by
        rcases List.mem_append.mp hj with hj | hj
        · exact hj
        · exact absurd (List.mem_singleton.mp hj) hne
      refine (hcov hj hpj).mono ?_ ?_ ?_ hurl <;> rw [hd]
      · exact fun w hw => List.mem_append_left _ hw
      · exact fun m hm => hm
      · exact fun l hl => hl

theorem Live.dispatch (hs : s.Live) (hwf : s.Wf) (hg : s.Guarded .dispatch)
    (h : s.step .dispatch = some u) : u.Live := by
  obtain ⟨m,queue,hq,rfl⟩ := dispatch_eq h
  simp only [Guarded, hq] at hg
  have hwf' : { s with queue : Service }.Wf :=
    { hwf with messages := fun m' hm' => hwf.messages m' (by rw [hq]; exact List.mem_cons_of_mem _ hm') }
  have hpop : ∀ j, s.Progress j → (∀ p, m = .downloading j p → ¬ 100 ≤ p) →
      m ≠ .downloadFinished (s.url j) → { s with queue : Service }.Progress j := by
    intro j hj hdown hfin
    cases hj with
    | worker w mem task working => exact .worker w mem task working
    | message p hundred mem =>
      rw [hq] at mem
      rcases List.mem_cons.mp mem with rfl | mem
      · exact absurd hundred (hdown p rfl)
      · exact .message p hundred mem
    | broadcast mem => exact .broadcast mem
    | finished mem =>
      rw [hq] at mem
      rcases List.mem_cons.mp mem with rfl | mem
      · exact absurd rfl hfin
      · exact .finished mem
  cases m with
  | init info =>
    have hs' : { s with queue : Service }.Live :=
      ⟨hs.nodup,fun j hj hpj => hpop j (hs.covered j hj hpj) (fun p hp => by cases hp) (fun hf => by cases hf)⟩
    exact hs'.handleInit hwf' hg
  | downloadFinished link =>
    refine ⟨hs.nodup.sublist (List.eraseP_sublist.map _),fun j hj hpj => ?_⟩
    have hmem : j ∈ s.mListTask := List.mem_of_mem_eraseP hj
    have hne : s.url j ≠ link := by
      rintro rfl
      -- the listed urls are distinct, so `j` was the one taken out
      have hcount : (s.mListTask.map s.url).count (s.url j) ≤ 1 := List.nodup_iff_count_le_one.mp hs.nodup _
      obtain ⟨a,l₁,l₂,hbefore,ha,hlist,herase⟩ :=
        List.exists_of_eraseP hmem (p := fun k => decide (s.url k = s.url j)) (by simp)
      have hj : j ∈ l₁ ++ l₂ := by
        have hj : j ∈ s.mListTask.eraseP (fun k => decide (s.url k = s.url j)) := hj
        rwa [herase] at hj
      rcases List.mem_append.mp hj with hj | hj
      · exact absurd (by simp) (hbefore j hj)
      · have hnodup := hs.nodup
        rw [hlist, List.map_append, List.map_cons, List.nodup_append] at hnodup
        have ha : s.url a = s.url j := by simpa using ha
        rw [ha] at hnodup
        exact (List.nodup_cons.mp hnodup.2.1).1 (List.mem_map_of_mem hj)
    have hcov := hpop j (hs.covered j hmem hpj) (fun p hp => by cases hp)
      (fun hf => hne (by cases hf; rfl))
    exact hcov.mono (fun _ h => h) (fun _ h => h) (fun _ h => h) rfl
  | downloading k progress =>
    simp only [handleMessage]
    have hother : ∀ j, s.Covered j → (j = k → ¬ 100 ≤ progress) →
        { s with queue : Service }.Covered j := by
      intro j hj hno hmem hpj
      exact hpop j (hj hmem hpj) (fun p hp => by cases hp; exact hno rfl) (fun hf => by cases hf)
    by_cases hfin : (s.task k).finishes progress = true
    · rw [if_pos hfin]
      refine ⟨hs.nodup,fun j hj hpj => ?_⟩
      by_cases hjk : j = k
      · subst hjk
        exact .broadcast (List.mem_append_right _ (List.mem_singleton_self _))
      · refine (hother j (hs.covered j) (fun h => absurd h hjk) hj hpj).mono (fun _ h => h)
          (fun _ h => h) (fun l hl => List.mem_append_left _ hl) rfl
    · rw [if_neg hfin]
      refine ⟨hs.nodup,fun j => ?_⟩
      by_cases hjk : j = k
      · subst hjk
        by_cases h100 : 100 ≤ progress
        · apply hg h100
          simpa [DownloadTask.finishes, h100] using hfin
        · exact hother j (hs.covered j) (fun _ => h100)
      · exact hother j (hs.covered j) (fun h => absurd h hjk)

theorem Live.receive (hs : s.Live) {i : ℕ} (h : s.step (.receive i) = some u) : u.Live := by
  obtain ⟨link,hl,rfl⟩ := receive_eq h
  refine ⟨hs.nodup,fun j hj hpj => ?_⟩
  cases hs.covered j hj hpj with
  | worker w mem task working => exact .worker w mem task working
  | message p hundred mem => exact .message p hundred (List.mem_append_left _ mem)
  | finished mem => exact .finished (List.mem_append_left _ mem)
  | broadcast mem =>
    obtain ⟨n,hn⟩ := List.mem_iff_getElem?.mp mem
    rcases eq_or_ne n i with rfl | hne
    · cases hl.symm.trans hn
      exact .finished (List.mem_append_right _ (List.mem_singleton_self _))
    · exact .broadcast (List.mem_eraseIdx_iff_getElem?.mpr ⟨n,hne,hn⟩)

theorem Live.step (hs : s.Live) (hwf : s.Wf) {a : ServiceAction} (hg : s.Guarded a)
    (h : s.step a = some u) : u.Live := by
  cases a with
  | download info => cases h; exact hs.download hwf info
  | pause link =>
    cases h
    unfold pause
    cases hf : s.find link with
    | none => exact hs
    | some k =>
      apply hs.of_pause
      intro j
      rcases eq_or_ne j k with rfl | hne
      · exact Or.inr (Function.update_self ..)
      · exact Or.inl (Function.update_of_ne hne _ _)
  | onLowMemory =>
    cases h
    apply hs.of_pause
    intro j
    by_cases hj : j ∈ s.mListTask
    · exact Or.inr (if_pos hj)
    · exact Or.inl (if_neg hj)
  | initThread i answer =>
    obtain ⟨info,_,⟨_,rfl⟩ | ⟨info',files,_,rfl⟩⟩ := initThread_eq h
    · exact ⟨hs.nodup,fun j hj hpj => (hs.covered j hj hpj).mono (fun _ h => h) (fun _ h => h)
        (fun _ h => h) rfl⟩
    · exact ⟨hs.nodup,fun j hj hpj => (hs.covered j hj hpj).mono (fun _ h => h)
        (fun m hm => List.mem_append_left _ hm) (fun _ h => h) rfl⟩
  | worker i a => exact hs.worker hwf hg h
  | dispatch => exact hs.dispatch hwf hg h
  | receive i => exact hs.receive h

end Steps

/-- The state in which a listed, unpaused task is waited for by nobody is never reached
while no thread gives up and no completion is dropped. -/
theorem listed_task_progress (rows : ThreadTable) (files : FileKey → List UInt8) (hr : RowsOk rows)
    (as : List ServiceAction) (s : Service) (hg : Along Service.step Guarded (onCreate rows files) as)
    (he : exec Service.step (onCreate rows files) as = some s) (k : ℕ) (hk : k ∈ s.mListTask)
    (hp : (s.task k).isPause = false) :
    (∃ w ∈ s.workers, w.task = k) ∨ (∃ p, 100 ≤ p ∧ .downloading k p ∈ s.queue) ∨
      s.url k ∈ s.broadcasts ∨ .downloadFinished (s.url k) ∈ s.queue := by
  have hlive : s.Wf ∧ s.Live :=
    exec_invariant (I := fun s => s.Wf ∧ s.Live) (P := Guarded)
      (fun _ _ _ hs hg h => ⟨hs.1.step h,hs.2.step hs.1 hg h⟩)
      ⟨onCreate_wf hr,⟨List.nodup_nil,fun _ hk => nomatch hk⟩⟩ hg he
  cases hlive.2.covered k hk hp with
  | worker w mem task working => exact Or.inl ⟨w,mem,task⟩
  | message p hundred mem => exact Or.inr (Or.inl ⟨p,hundred,mem⟩)
  | broadcast mem => exact Or.inr (Or.inr (Or.inl mem))
  | finished mem => exact Or.inr (Or.inr (Or.inr mem))

end Service

def requestAnswered : List ServiceAction :=
  [.download (orderedInfo 0),.initThread 0 (some twoBytesAnswer),.dispatch]

theorem listed_task_progress_single_request :
    (∃ w ∈ [Worker.mk 0 (DownloadThread.init ⟨0,"u",0,2,0⟩)], w.task = 0) ∨
      (∃ p, 100 ≤ p ∧ Message.downloading 0 p ∈ []) ∨ "u" ∈ ([] : List String) ∨
      Message.downloadFinished "u" ∈ [] :=
  Service.listed_task_progress [] (fun _ => []) rowsOk_nil requestAnswered _
    ⟨trivial,fun _ h => by cases h; exact ⟨trivial,fun _ h => by cases h; exact ⟨by rfl,fun _ _ => trivial⟩⟩⟩
    rfl 0 (by decide) rfl

/-- The connection breaks: the task stays listed, unpaused and without a thread. -/
theorem listed_task_dead :
    ¬ ∀ (rows : ThreadTable) (files : FileKey → List UInt8), RowsOk rows →
      ∀ (as : List ServiceAction) (s : Service),
        exec Service.step (Service.onCreate rows files) as = some s →
        ∀ k ∈ s.mListTask, (s.task k).isPause = false →
          (∃ w ∈ s.workers, w.task = k) ∨ (∃ p, 100 ≤ p ∧ .downloading k p ∈ s.queue) ∨
            s.url k ∈ s.broadcasts ∨ .downloadFinished (s.url k) ∈ s.queue := by
  intro h
  have hs := h [] (fun _ => []) rowsOk_nil (requestAnswered ++ [.worker 0 .ioException]) _ rfl 0
    (by decide) rfl
  rcases hs with ⟨w,hw,_⟩ | ⟨p,_,hp⟩ | hb | hf
  · exact nomatch hw
  · exact nomatch hp
  · exact nomatch hb
  · exact nomatch hf

end AdSystem.Download
