import AdSystem.Download.FinishedFile
import AdSystem.Download.RowInserts

/-! # Completion across sessions

The invariant of a session joins the file, the table and the totals. Every action
keeps it as long as a whole body only answers a request for everything, also where
the process dies while rows are stored.
-/
namespace AdSystem.Download
open SignedWord ByteFile Slices Pool Transition

/-- Whatever the session believes to be fetched is in the file. -/
structure Session.Sound (resource : List UInt8) (info : TaskInfo) (T : ℕ) (s : Session) : Prop where
  announced : ∀ lenght, s.announced = some lenght →
    lenght = resource.length ∧ s.file.length = resource.length
  taskInfo : ∀ t, s.task = some t → t.mTaskInfo = { info with lenght := resource.length }
  threadCount : ∀ t, s.task = some t → t.mThreadCount = T
  totals : ∀ t, s.task = some t → TotalsSound resource (parts resource.length T) T s.file t.mTotalFinished
  length : ∀ t, s.task = some t → s.file.length = resource.length
  idle : s.task = none → s.threads = [] ∧ s.queue = []
  threads : ∀ w ∈ s.threads, ThreadSound resource info.url (parts resource.length T) s.file w
  queue : ∀ p ∈ s.queue, 100 ≤ p → Complete resource s.file
  rows : ∀ r ∈ getThread s.rows info.url, RowSound resource info.url (parts resource.length T) s.file r

section Actions
variable {resource : List UInt8} {info : TaskInfo} {T : ℕ} {s u : Session}

theorem fresh_sound {rows : ThreadTable} {file : List UInt8}
    (hr : ∀ r ∈ getThread rows info.url,
      RowSound resource info.url (parts resource.length T) file r) :
    (Session.fresh rows file).Sound resource info T where
  announced _ h := nomatch h
  taskInfo _ h := nomatch h
  threadCount _ h := nomatch h
  totals _ h := nomatch h
  length _ h := nomatch h
  idle _ := ⟨rfl,rfl⟩
  threads _ h := nomatch h
  queue _ h := nomatch h
  rows := hr

theorem Session.Sound.initThread (hs : s.Sound resource info T)
    (h : s.step info (.initThread resource.length) = some u) : u.Sound resource info T := by
  cases Session.step_acts h with
  | announced task _ =>
    obtain ⟨hthreads,hqueue⟩ := hs.idle task
    have hg : Grows resource s.file (setLength s.file resource.length) :=
      fun _ ha => ha.setLength le_rfl
    have hno : ∀ {t}, s.task = some t → False := fun ht => nomatch task.symm.trans ht
    exact {
      announced := fun lenght he => by cases he; exact ⟨rfl,by simp⟩
      taskInfo := fun t ht => (hno ht).elim
      threadCount := fun t ht => (hno ht).elim
      totals := fun t ht => (hno ht).elim
      length := fun t ht => (hno ht).elim
      idle := hs.idle
      threads := fun w hw => (hs.threads w hw).grows hg
      queue := fun p hp => by rw [hqueue] at hp; cases hp
      rows := fun r hm => (hs.rows r hm).grows hg }

/-- A task that differs in nothing that the file has to agree with. -/
theorem Session.Sound.setTask (hs : s.Sound resource info T) {t t' : DownloadTask} (ht : s.task = some t)
    (hinfo : t'.mTaskInfo = t.mTaskInfo) (hcount : t'.mThreadCount = t.mThreadCount)
    (htotals : t'.mTotalFinished = t.mTotalFinished) : { s with task := some t' }.Sound resource info T :=
  { hs with
    taskInfo := fun _ he => by cases he; rw [hinfo]; exact hs.taskInfo t ht
    threadCount := fun _ he => by cases he; rw [hcount]; exact hs.threadCount t ht
    totals := fun _ he => by cases he; rw [htotals]; exact hs.totals t ht
    length := fun _ _ => hs.length t ht
    idle := fun he => nomatch he }

/-- A new task has nothing fetched. -/
theorem Session.Sound.init (hs : s.Sound resource info T) (hT : 0 < T) {lenght : ℤ}
    (ann : s.announced = some lenght) (task : s.task = none) :
    { s with
      announced := none
      threads := []
      task := some (DownloadTask.init { info with lenght } T) }.Sound resource info T := by
  obtain ⟨rfl,hlen⟩ := hs.announced lenght ann
  have hcount : (if (0 : ℤ) < T then (T : ℤ).toNat else defaultThreadCount) = T := by
    rw [if_pos (by omega), Int.toNat_natCast]
  have hqueue := (hs.idle task).2
  exact {
    announced := fun lenght he => nomatch he
    taskInfo := fun t he => by cases he; rfl
    threadCount := fun t he => by cases he; exact hcount
    totals := fun t he => by
      cases he
      dsimp only [DownloadTask.init]
      rw [hcount]
      exact totalsSound_replicate T s.file
    length := fun t he => hlen
    idle := fun he => nomatch he
    threads := fun w hw => nomatch hw
    queue := fun p hp => by rw [hqueue] at hp; cases hp
    rows := hs.rows }

/-- Threads that are started for rows claim what the rows do. -/
theorem Session.Sound.start (hs : s.Sound resource info T) {t : DownloadTask} (ht : s.task = some t)
    {infos : List ThreadInfo}
    (hinfos : ∀ r ∈ infos, RowSound resource info.url (parts resource.length T) s.file r) :
    { s with threads := s.threads ++ startThreads infos }.Sound resource info T := by
  refine { hs with
    idle := fun hn => nomatch ht.symm.trans hn
    threads := fun w hw => ?_ }
  rcases List.mem_append.mp hw with hw | hw
  · exact hs.threads w hw
  · obtain ⟨r,hr,rfl⟩ := List.mem_map.mp hw
    exact (hinfos r hr).threadSound

theorem Session.Sound.pause (hs : s.Sound resource info T)
    (h : s.step info .pause = some u) : u.Sound resource info T := by
  cases Session.step_acts h with
  | paused task => exact hs.setTask task rfl rfl rfl

theorem Session.Sound.thread (hs : s.Sound resource info T) (hT : 0 < T)
    (h0 : 0 < resource.length) (hL : resource.length < 2147483648) {i : ℕ} {a : ThreadAction}
    (ha : ServedBy resource T (Faithful resource) s (.thread i a))
    (h : s.step info (.thread i a) = some u) : u.Sound resource info T := by
  cases Session.step_acts h with
  | @ran t w _ _ e task thread run =>
    have hf := run_frame run
    have hready : Ready resource info.url (parts resource.length T) T t s.file s.rows :=
      ⟨hs.length t task,by rw [hs.taskInfo t task],hs.totals t task,hs.rows⟩
    have hwm := hs.threads w (List.mem_of_getElem? thread)
    have hsound := run_sound hready (parts_le hT) h0 hL hwm
      (fun responseCode body hc => by subst hc; exact ha w thread) run
    refine {
      announced := fun lenght hl => ⟨(hs.announced lenght hl).1,hsound.length⟩
      taskInfo := fun t' ht' => by cases ht'; rw [hf.taskInfo]; exact hs.taskInfo t task
      threadCount := fun t' ht' => by cases ht'; rw [hf.threadCount]; exact hs.threadCount t task
      totals := fun t' ht' => by cases ht'; exact hsound.totals
      length := fun _ _ => hsound.length
      idle := fun hn => nomatch hn
      threads := fun w' hw' => ?_
      queue := fun p hp h100 => ?_
      rows := hsound.rows }
    · rcases mem_update hw' with hw' | hw'
      · exact (hs.threads w' hw').grows hsound.grows
      · exact hsound.thread w' hw'
    · rcases List.mem_append.mp hp with hp | hp
      · exact hsound.grows _ (hs.queue p hp h100)
      · exact hsound.posted p (Option.mem_toList.mp hp) h100

theorem Session.Sound.handle (hs : s.Sound resource info T)
    (h : s.step info .handle = some u) : u.Sound resource info T := by
  cases Session.step_acts h with
  | @handled t progress queue task queued =>
    refine { hs with
      idle := fun hn => nomatch task.symm.trans hn
      queue := fun p hp => hs.queue p ?_
      rows := fun r hm => ?_ }
    · rw [queued]
      exact List.mem_cons_of_mem _ hp
    · obtain ⟨hm,hu⟩ := mem_getThread.mp hm
      refine hs.rows r (mem_getThread.mpr ⟨?_,hu⟩)
      dsimp only at hm
      split_ifs at hm
      · exact (mem_deleteThread.mp hm).1
      · exact hm

theorem handlerCalls_finished {d : ℕ} {filePath fileName : Option String}
    (h : Call.onDownloadFinished d filePath fileName ∈ s.handlerCalls) :
    ∃ t progress queue, s.task = some t ∧ s.queue = progress :: queue ∧ 100 ≤ progress := by
  unfold Session.handlerCalls at h
  split at h
  · rename_i t progress queue ht hq
    refine ⟨t,progress,queue,ht,hq,?_⟩
    unfold DownloadTask.dispatchMessage at h
    split at h
    · cases h
    · by_contra hn
      rw [if_neg hn, List.mem_singleton] at h
      cases h
  · cases h

end Actions

namespace StoringSession

/-- The same, and the rows that are still to be stored are rows of the task. -/
structure Sound (resource : List UInt8) (info : TaskInfo) (T : ℕ) (s : StoringSession) : Prop where
  session : s.session.Sound resource info T
  inserting : ∀ rest, s.inserting = some rest → ∀ r ∈ rest, r.url = info.url ∧
    ∀ file, RowSound resource info.url (parts resource.length T) file r

/-- One resource, one thread count, and answers that meet `ok`. -/
def ServedBy (resource : List UInt8) (T : ℕ) (ok : DownloadThread → ℕ → List UInt8 → Prop)
    (s : StoringSession) : StoringAction → Prop
  | .session a => Download.ServedBy resource T ok s.session a
  | .insertNext => True

instance (resource : List UInt8) (T : ℕ) (ok : DownloadThread → ℕ → List UInt8 → Prop)
    [∀ w c b, Decidable (ok w c b)] (s : StoringSession) : ∀ a, Decidable (ServedBy resource T ok s a)
  | .session a => inferInstanceAs (Decidable (Download.ServedBy resource T ok s.session a))
  | .insertNext => isTrue trivial

section Actions
variable {resource : List UInt8} {info : TaskInfo} {T : ℕ} {s u : StoringSession}

theorem Sound.of_session {s : Session} (hs : s.Sound resource info T) : (⟨s,none⟩ : StoringSession).Sound resource info T :=
  ⟨hs,fun _ h => nomatch h⟩

theorem newThreads_sound {t : DownloadTask} (hinfo : t.mTaskInfo = { info with lenght := resource.length })
    (hcount : t.mThreadCount = T) (hL : resource.length < 2147483648) {r : ThreadInfo} (hr : r ∈ t.newThreads) :
    r.url = info.url ∧ ∀ file, RowSound resource info.url (parts resource.length T) file r := by
  have hurl : t.mTaskInfo.url = info.url := by rw [hinfo]
  rw [newThreads_eq (by rw [hinfo]) hL hcount, hurl] at hr
  obtain ⟨i,hi,rfl⟩ := List.mem_map.mp hr
  exact ⟨rfl,fun _ => rowSound_threadRow (List.mem_range.mp hi)⟩

theorem Sound.downlaod {s : Session} {t : DownloadTask} (hs : { s with task := some t }.Sound resource info T)
    (hL : resource.length < 2147483648) : (downlaod s t).Sound resource info T := by
  have hinfo := hs.taskInfo t rfl
  have hurl : t.mTaskInfo.url = info.url := by rw [hinfo]
  unfold StoringSession.downlaod
  dsimp only
  split_ifs
  · refine ⟨hs,fun rest hrest r hr => ?_⟩
    cases hrest
    exact newThreads_sound hinfo (hs.threadCount t rfl) hL hr
  · refine .of_session (hs.start rfl fun r hr => ?_)
    rw [hurl] at hr
    exact hs.rows r hr

theorem Sound.insertNext (hs : s.Sound resource info T) (hL : resource.length < 2147483648)
    (h : step info s .insertNext = some u) : u.Sound resource info T := by
  cases step_acts h with
  | @stored t r rest inserting task =>
    obtain ⟨hurl,hr⟩ := hs.inserting _ inserting r List.mem_cons_self
    refine ⟨{ hs.session with rows := fun q hq => ?_ },fun rest' h q hq => ?_⟩
    · obtain ⟨hq,hqurl⟩ := mem_getThread.mp hq
      rcases List.mem_append.mp hq with hq | hq
      · exact hs.session.rows q (mem_getThread.mpr ⟨hq,hqurl⟩)
      · cases List.mem_singleton.mp hq
        exact hr _
    · cases h
      exact hs.inserting _ inserting q (List.mem_cons_of_mem _ hq)
  | @started t inserting task =>
    exact .of_session (hs.session.start task fun r hr =>
      (newThreads_sound (hs.session.taskInfo t task) (hs.session.threadCount t task) hL hr).2 _)

theorem Sound.step (hs : s.Sound resource info T) (hT : 0 < T) (h0 : 0 < resource.length)
    (hL : resource.length < 2147483648) {a : StoringAction} (ha : s.ServedBy resource T (Faithful resource) a)
    (h : step info s a = some u) : u.Sound resource info T := by
  cases a with
  | insertNext => exact hs.insertNext hL h
  | session a =>
    cases a with
    | msgInit threadCount =>
      cases ha
      cases step_acts h with
      | initialized _ ann task => exact .downlaod (hs.session.init hT ann task) hL
    | restart =>
      cases step_acts h with
      | restarted _ task => exact .downlaod (hs.session.setTask task rfl rfl rfl) hL
    | thread i a =>
      obtain ⟨v,hv,rfl⟩ := Option.map_eq_some_iff.mp h
      exact ⟨hs.session.thread hT h0 hL ha hv,hs.inserting⟩
    | die =>
      cases h
      exact .of_session (fresh_sound hs.session.rows)
    | initThread contentLength =>
      cases ha
      simp only [StoringSession.step] at h
      split_ifs at h
      obtain ⟨v,hv,rfl⟩ := Option.map_eq_some_iff.mp h
      exact .of_session (hs.session.initThread hv)
    | pause =>
      simp only [StoringSession.step] at h
      split_ifs at h
      obtain ⟨v,hv,rfl⟩ := Option.map_eq_some_iff.mp h
      exact .of_session (hs.session.pause hv)
    | handle =>
      simp only [StoringSession.step] at h
      split_ifs at h
      obtain ⟨v,hv,rfl⟩ := Option.map_eq_some_iff.mp h
      exact .of_session (hs.session.handle hv)

end Actions
end StoringSession

/-- Over any sessions of one resource, and wherever between two of its rows a process may have died, the
file is the resource whenever completion is reported, if no whole body answers a request for a part. -/
theorem onDownloadFinished_resource (resource : List UInt8) (h0 : 1 ≤ resource.length)
    (hL : resource.length ≤ 2147483647) (T : ℕ) (hT : 1 ≤ T) (info : TaskInfo) (rows : ThreadTable)
    (hrows : getThread rows info.url = []) (file : List UInt8) (as : List StoringAction) (s : StoringSession)
    (hserved : Along (StoringSession.step info) (StoringSession.ServedBy resource T (Faithful resource))
      (StoringSession.fresh rows file) as)
    (he : exec (StoringSession.step info) (StoringSession.fresh rows file) as = some s)
    (d : ℕ) (filePath fileName : Option String)
    (hd : Call.onDownloadFinished d filePath fileName ∈ s.session.handlerCalls) :
    s.session.file.take resource.length = resource ∧ s.session.file.length = resource.length := by
  have hfresh : (StoringSession.fresh rows file).Sound resource info T := by
    refine .of_session (fresh_sound fun r hm => ?_)
    rw [hrows] at hm
    cases hm
  have hs : s.Sound resource info T :=
    exec_invariant (fun _ _ _ hs ha h => StoringSession.Sound.step hs hT h0 (by omega) ha h) hfresh hserved he
  obtain ⟨t,progress,queue,ht,hq,h100⟩ := handlerCalls_finished hd
  have hlen := hs.session.length t ht
  have hc : Complete resource s.session.file := hs.session.queue progress (by rw [hq]; exact List.mem_cons_self) h100
  rw [hc.eq hlen]
  exact ⟨List.take_length,rfl⟩

def twoBytes : List UInt8 := [7,8]
def twoByteInfo : TaskInfo := ⟨"u",none,none,0,some 0⟩

/-- The process dies when its row is stored, before it starts the thread. -/
def storedThenDeadRun : List StoringAction :=
  [.session (.initThread 2),.session (.msgInit 1),.insertNext,.session .die,.session (.initThread 2),
    .session (.msgInit 1),.session (.thread 0 (.connect 206 [7,8])),.session (.thread 0 (.read 2)),
    .session (.thread 0 (.clock false)),.session (.thread 0 .checkPause),.session (.thread 0 .endOfStream)]

theorem onDownloadFinished_resource_resumed :
    ∃ s, exec (StoringSession.step twoByteInfo) (StoringSession.fresh [] []) storedThenDeadRun = some s ∧
      s.session.file.take 2 = twoBytes ∧ s.session.file.length = 2 :=
  ⟨_,rfl,onDownloadFinished_resource twoBytes (by decide) (by decide) 1 le_rfl twoByteInfo [] rfl []
    storedThenDeadRun _ (by decide) rfl 0 none none (by decide)⟩

/-- Paused after one byte, the thread asks for the rest and is given the whole body. -/
def wholeBodyRun : List StoringAction :=
  [.session (.initThread 2),.session (.msgInit 1),.insertNext,.insertNext,
    .session (.thread 0 (.connect 206 [7,8])),.session (.thread 0 (.read 1)),.session .pause,
    .session (.thread 0 (.clock false)),.session (.thread 0 .checkPause),.session (.thread 0 .notify),
    .session (.thread 0 .persist),.session .handle,.session .restart,.session (.thread 0 (.connect 200 [7,8])),
    .session (.thread 0 (.read 2)),.session (.thread 0 (.clock false)),.session (.thread 0 .checkPause),
    .session (.thread 0 .endOfStream)]

theorem onDownloadFinished_not_resource :
    ¬ ∀ (resource : List UInt8), 1 ≤ resource.length → resource.length ≤ 2147483647 →
      ∀ T : ℕ, 1 ≤ T → ∀ (info : TaskInfo) (rows : ThreadTable), getThread rows info.url = [] →
      ∀ (file : List UInt8) (as : List StoringAction) (s : StoringSession),
        Along (StoringSession.step info) (StoringSession.ServedBy resource T (Answers resource))
          (StoringSession.fresh rows file) as →
        exec (StoringSession.step info) (StoringSession.fresh rows file) as = some s →
        ∀ (d : ℕ) (filePath fileName : Option String),
          Call.onDownloadFinished d filePath fileName ∈ s.session.handlerCalls →
          s.session.file.take resource.length = resource ∧ s.session.file.length = resource.length := by
  intro h
  obtain ⟨s,he⟩ : ∃ s, exec (StoringSession.step twoByteInfo) (StoringSession.fresh [] []) wholeBodyRun = some s :=
    ⟨_,rfl⟩
  have hd := h twoBytes (by decide) (by decide) 1 le_rfl twoByteInfo [] rfl [] wholeBodyRun s
    (by decide) he 0 none none
  cases he
  exact absurd (hd (by decide)).2 (by decide)

end AdSystem.Download
