import AdSystem.Download.DownloadService

/-! # What every state of the service satisfies

The service starts every task with one thread. So a url has at most one row, every
thread is thread 0 of its task, and a task has one total.
-/
namespace AdSystem.Download
open SignedWord Pool Transition

/-- At most one row for a url, that of thread 0. -/
structure RowsOk (rows : ThreadTable) : Prop where
  nodup : (rows.map ThreadInfo.url).Nodup
  id : ∀ r ∈ rows, r.id = 0
  finished : ∀ r ∈ rows, InRange r.finished

/-- A task of one thread and a positive length. -/
structure OneThread (t : DownloadTask) : Prop where
  threadCount : t.mThreadCount = 1
  totals : t.mTotalFinished.length = 1
  lenght : 0 < t.mTaskInfo.lenght

/-- The record is that of thread 0 of a url. -/
structure RowOf (url : String) (r : ThreadInfo) : Prop where
  url : r.url = url
  id : r.id = 0
  finished : InRange r.finished

section Rows
variable {rows : ThreadTable} {t : DownloadTask} {w : DownloadThread} {url : String}

theorem rowsOk_nil : RowsOk [] :=
  ⟨List.nodup_nil,fun _ h => (nomatch h),fun _ h => nomatch h⟩

theorem RowsOk.deleteThread (h : RowsOk rows) (url : String) : RowsOk (deleteThread rows url) := by
  have hs : (rows.filter (fun r => r.url ≠ url)).Sublist rows := List.filter_sublist
  exact ⟨h.nodup.sublist (hs.map _),fun r hr => h.id r (hs.subset hr),
    fun r hr => h.finished r (hs.subset hr)⟩

theorem RowsOk.updateThread (h : RowsOk rows) (url : String) (id : ℤ) {finished : ℤ}
    (hf : InRange finished) : RowsOk (updateThread rows url id finished) := by
  refine ⟨?_,fun r hr => ?_,fun r hr => ?_⟩
  · rw [updateThread_map _ (fun _ _ => rfl)]
    exact h.nodup
  · rcases mem_updateThread hr with hr | ⟨q,hq,_,_,rfl⟩
    · exact h.id r hr
    · exact h.id q hq
  · rcases mem_updateThread hr with hr | ⟨q,_,_,_,rfl⟩
    · exact h.finished r hr
    · exact hf

theorem newThreads_single (ht : t.mThreadCount = 1) :
    ∃ r, t.newThreads = [r] ∧ RowOf t.mTaskInfo.url r := by
  have h0 : InRange 0 := ⟨by omega,by omega⟩
  unfold DownloadTask.newThreads
  dsimp only
  rw [ht]
  split_ifs
  · exact ⟨_,rfl,rfl,rfl,h0⟩
  · exact ⟨_,rfl,rfl,rfl,h0⟩

theorem getThread_le_one (h : RowsOk rows) (url : String) : (getThread rows url).length ≤ 1 := by
  have hs : ((getThread rows url).map ThreadInfo.url).Nodup :=
    h.nodup.sublist (List.filter_sublist.map _)
  have hall : ∀ u ∈ (getThread rows url).map ThreadInfo.url, u = url := by
    intro u hu
    obtain ⟨r,hr,rfl⟩ := List.mem_map.mp hu
    exact (mem_getThread.mp hr).2
  rw [List.eq_replicate_of_mem hall, List.nodup_replicate, List.length_map] at hs
  exact hs

theorem downlaod_single (h : RowsOk rows) (ht : t.mThreadCount = 1) :
    ∃ r, (t.downlaod rows).2 = [r] ∧ RowOf t.mTaskInfo.url r ∧ RowsOk (t.downlaod rows).1 := by
  rcases downlaod_cases t rows with ⟨hne,he⟩ | ⟨hnil,he⟩
  · have hle := getThread_le_one h t.mTaskInfo.url
    obtain ⟨r,hr⟩ : ∃ r, getThread rows t.mTaskInfo.url = [r] := by
      have hpos := List.length_pos_iff.mpr hne
      exact List.length_eq_one_iff.mp (by omega)
    obtain ⟨hmem,hurl⟩ := mem_getThread.mp (hr ▸ List.mem_singleton_self r : r ∈ getThread rows _)
    exact ⟨r,by rw [he, hr],⟨hurl,h.id r hmem,h.finished r hmem⟩,by rw [he]; exact h⟩
  · obtain ⟨r,hr,hof⟩ := newThreads_single ht
    refine ⟨r,by rw [he, hr],hof,?_⟩
    rw [he, hr]
    refine ⟨?_,fun q hq => ?_,fun q hq => ?_⟩
    · rw [List.map_append, List.nodup_append]
      refine ⟨h.nodup,List.nodup_singleton _,fun u hu v hv => ?_⟩
      obtain ⟨q,hq,rfl⟩ := List.mem_map.mp hu
      rw [List.map_singleton, List.mem_singleton] at hv
      rintro rfl
      have hm : q ∈ getThread rows t.mTaskInfo.url := mem_getThread.mpr ⟨hq,hv.trans hof.url⟩
      rw [hnil] at hm
      cases hm
    · rcases List.mem_append.mp hq with hq | hq
      · exact h.id q hq
      · rw [List.mem_singleton.mp hq]
        exact hof.id
    · rcases List.mem_append.mp hq with hq | hq
      · exact h.finished q hq
      · rw [List.mem_singleton.mp hq]
        exact hof.finished

theorem RowOf.of_segment {r q : ThreadInfo} (h : RowOf url r) (hs : q.segment = r.segment)
    (hf : InRange q.finished) : RowOf url q := by
  have hurl := congrArg ThreadInfo.url hs
  have hid := congrArg ThreadInfo.id hs
  exact ⟨hurl.trans h.url,hid.trans h.id,hf⟩

theorem run_rows {file : List UInt8} {a : ThreadAction} {e : Effect} (hr : RowsOk rows)
    (hw : InRange w.threadInfo.finished) (h : w.run t file rows a = some e) : RowsOk e.rows := by
  rcases run_rows_cases h with he | ⟨_,he⟩
  · rw [he]
    exact hr
  · rw [he]
    exact hr.updateThread _ _ hw

end Rows

def MessageOk (made : ℕ) : Message → Prop
  | .init info => 0 < info.lenght
  | .downloading k _ => k < made
  | .downloadFinished _ => True

/-- References point to tasks that were made, and every thread is thread 0 of its task. -/
structure Service.Wf (s : Service) : Prop where
  listed : ∀ k ∈ s.mListTask, k < s.made
  nodup : s.mListTask.Nodup
  tasks : ∀ k < s.made, OneThread (s.task k)
  made : ∀ w ∈ s.workers, w.task < s.made
  workers : ∀ w ∈ s.workers, RowOf (s.url w.task) w.thread.threadInfo
  messages : ∀ m ∈ s.queue, MessageOk s.made m
  rows : RowsOk s.rows

namespace Service
variable {s u : Service} {k i : ℕ} {info : TaskInfo} {link : String}

theorem onCreate_wf {rows : ThreadTable} {files : FileKey → List UInt8} (h : RowsOk rows) :
    (onCreate rows files).Wf where
  listed _ h := nomatch h
  nodup := List.nodup_nil
  tasks _ h := absurd h (Nat.not_lt_zero _)
  made _ h := nomatch h
  workers _ h := nomatch h
  messages _ h := nomatch h
  rows := h

theorem find_eq_some (h : s.find link = some k) : k ∈ s.mListTask ∧ s.url k = link :=
  ⟨List.mem_of_find?_eq_some h,by simpa using List.find?_some h⟩

theorem find_eq_none : s.find link = none ↔ ∀ k ∈ s.mListTask, s.url k ≠ link := by
  simp [find]

theorem start_eq (hr : RowsOk s.rows) (ht : (s.task k).mThreadCount = 1) :
    ∃ r rows, s.start k = { s with rows, workers := s.workers ++ [⟨k,DownloadThread.init r⟩] } ∧
      RowOf (s.url k) r ∧ RowsOk rows := by
  obtain ⟨r,hd,hof,hrows⟩ := downlaod_single hr ht
  refine ⟨r,((s.task k).downlaod s.rows).1,?_,hof,hrows⟩
  simp only [start, hd, List.map_singleton]

/-- What a request does: it restarts a paused task, is dropped, or starts an init thread. -/
theorem download_cases (hs : s.Wf) (info : TaskInfo) :
    (∃ k r rows, s.find info.url = some k ∧ (s.task k).isPause = true ∧
      s.download info = { s with
        task := Function.update s.task k (s.task k).restart, rows,
        workers := s.workers ++ [⟨k,DownloadThread.init r⟩] } ∧
      RowOf info.url r ∧ RowsOk rows) ∨
    (∃ k, s.find info.url = some k ∧ (s.task k).isPause = false ∧ s.download info = s) ∨
    (s.find info.url = none ∧
      s.download info = { s with initThreads := s.initThreads ++ [info] }) := by
  unfold download
  cases hf : s.find info.url with
  | none => exact Or.inr (Or.inr ⟨rfl,rfl⟩)
  | some k =>
    obtain ⟨hk,hurl⟩ := find_eq_some hf
    cases hp : (s.task k).isPause with
    | false => exact Or.inr (Or.inl ⟨k,rfl,hp,by simp [hp]⟩)
    | true =>
      have hcount : ((s.setTask k (s.task k).restart).task k).mThreadCount = 1 := by
        simp only [setTask, Function.update_self]
        exact (hs.tasks k (hs.listed k hk)).threadCount
      obtain ⟨r,rows,he,hof,hrows⟩ := start_eq (s := s.setTask k (s.task k).restart) hs.rows hcount
      have hurl' : (s.setTask k (s.task k).restart).url k = info.url := by
        simp only [url, setTask, Function.update_self]
        exact hurl
      exact Or.inl ⟨k,r,rows,rfl,hp,by simp only [hp, if_true]; exact he,hurl' ▸ hof,hrows⟩

theorem handleInit_eq (hr : RowsOk s.rows) (info : TaskInfo) :
    ∃ r rows, s.handleMessage (.init info) = { s with
        task := Function.update s.task s.made (DownloadTask.init info 1),
        made := s.made + 1,
        mListTask := s.mListTask ++ [s.made], rows,
        workers := s.workers ++ [⟨s.made,DownloadThread.init r⟩] } ∧
      RowOf info.url r ∧ RowsOk rows := by
  obtain ⟨r,rows,he,hof,hrows⟩ := start_eq (k := s.made) (s := { s with
      task := Function.update s.task s.made (DownloadTask.init info 1),
      made := s.made + 1,
      mListTask := s.mListTask ++ [s.made] : Service }) hr
    (by simp only [Function.update_self]; rfl)
  refine ⟨r,rows,he,?_,hrows⟩
  simpa [url, DownloadTask.init] using hof

theorem worker_eq {a : ThreadAction} (h : s.step (.worker i a) = some u) :
    ∃ w e, s.workers[i]? = some w ∧
      w.thread.run (s.task w.task) (s.files (s.task w.task).mTaskInfo.file) s.rows a = some e ∧
      u = s.applyEffect i w.task e := by
  obtain ⟨w,hw,h⟩ := Option.bind_eq_some_iff.mp h
  obtain ⟨e,he,rfl⟩ := Option.map_eq_some_iff.mp h
  exact ⟨w,e,hw,he,rfl⟩

theorem dispatch_eq (h : s.step .dispatch = some u) :
    ∃ m queue, s.queue = m :: queue ∧ u = { s with queue : Service }.handleMessage m := by
  simp only [step] at h
  cases hq : s.queue with
  | nil => rw [hq] at h; cases h
  | cons m queue =>
    rw [hq] at h
    cases h
    exact ⟨m,queue,rfl,rfl⟩

theorem receive_eq (h : s.step (.receive i) = some u) :
    ∃ link, s.broadcasts[i]? = some link ∧
      u = { s with broadcasts := s.broadcasts.eraseIdx i, queue := s.queue ++ [.downloadFinished link] } := by
  obtain ⟨link,hl,rfl⟩ := Option.map_eq_some_iff.mp h
  exact ⟨link,hl,rfl⟩

theorem initThread_eq {answer : Option InitAnswer} (h : s.step (.initThread i answer) = some u) :
    ∃ info, s.initThreads[i]? = some info ∧
      ((answer.bind (initThreadRun info) = none ∧
          u = { s with initThreads := s.initThreads.eraseIdx i }) ∨
        ∃ info' files, answer.bind (initThreadRun info) = some info' ∧
          u = { s with initThreads := s.initThreads.eraseIdx i, queue := s.queue ++ [.init info'], files }) := by
  obtain ⟨info,hi,rfl⟩ := Option.map_eq_some_iff.mp h
  refine ⟨info,hi,?_⟩
  simp only [initDone]
  cases hr : answer.bind (initThreadRun info) with
  | none => exact Or.inl ⟨rfl,rfl⟩
  | some info' => exact Or.inr ⟨info',_,rfl,rfl⟩

end Service

theorem initThreadRun_spec {info info' : TaskInfo} {answer : InitAnswer}
    (h : initThreadRun info answer = some info') :
    info'.url = info.url ∧ info'.download = info.download ∧ 0 < info'.lenght := by
  unfold initThreadRun at h
  by_cases hc : answer.responseCode = httpOk ∧ 0 < answer.contentLength
  · rw [if_pos hc] at h
    cases h
    exact ⟨rfl,rfl,hc.2⟩
  · rw [if_neg hc] at h
    cases h

theorem update_taskInfo {task : ℕ → DownloadTask} {k : ℕ} {t : DownloadTask}
    (h : t.mTaskInfo = (task k).mTaskInfo) (j : ℕ) :
    (Function.update task k t j).mTaskInfo = (task j).mTaskInfo := by
  rcases eq_or_ne j k with rfl | hne
  · rw [Function.update_self, h]
  · rw [Function.update_of_ne hne]

section Preservation
variable {s u : Service} {k : ℕ} {t : DownloadTask}

theorem Service.Wf.updateTask (hs : s.Wf) (hi : t.mTaskInfo = (s.task k).mTaskInfo)
    (ht : k < s.made → OneThread t) : { s with task := Function.update s.task k t : Service }.Wf where
  listed := hs.listed
  nodup := hs.nodup
  tasks j hj := by
    rcases eq_or_ne j k with rfl | hne
    · simp only [Function.update_self]
      exact ht hj
    · simp only [Function.update_of_ne hne]
      exact hs.tasks j hj
  made := hs.made
  workers w hw := by
    have hof := hs.workers w hw
    rw [Service.url] at hof ⊢
    rwa [update_taskInfo hi]
  messages := hs.messages
  rows := hs.rows

theorem Service.Wf.addWorker (hs : s.Wf) (hk : k < s.made) {r : ThreadInfo} {rows : ThreadTable}
    (hof : RowOf (s.url k) r) (hr : RowsOk rows) :
    { s with rows, workers := s.workers ++ [⟨k,DownloadThread.init r⟩] : Service }.Wf where
  listed := hs.listed
  nodup := hs.nodup
  tasks := hs.tasks
  made w hw := by
    rcases List.mem_append.mp hw with hw | hw
    · exact hs.made w hw
    · rw [List.mem_singleton.mp hw]
      exact hk
  workers w hw := by
    rcases List.mem_append.mp hw with hw | hw
    · exact hs.workers w hw
    · rw [List.mem_singleton.mp hw]
      exact hof
  messages := hs.messages
  rows := hr

theorem Service.Wf.newTask (hs : s.Wf) {info : TaskInfo} (hl : 0 < info.lenght) :
    { s with
      task := Function.update s.task s.made (DownloadTask.init info 1),
      made := s.made + 1,
      mListTask := s.mListTask ++ [s.made] : Service }.Wf where
  listed j hj := by
    rcases List.mem_append.mp hj with hj | hj
    · exact Nat.lt_succ_of_lt (hs.listed j hj)
    · rw [List.mem_singleton.mp hj]
      exact Nat.lt_succ_self _
  nodup := by
    refine List.nodup_append.mpr ⟨hs.nodup,List.nodup_singleton _,fun j hj j' hj' => ?_⟩
    rw [List.mem_singleton.mp hj']
    exact (hs.listed j hj).ne
  tasks j hj := by
    rcases eq_or_ne j s.made with rfl | hne
    · simp only [Function.update_self]
      exact ⟨rfl,rfl,hl⟩
    · simp only [Function.update_of_ne hne]
      exact hs.tasks j (by dsimp only at hj; omega)
  made w hw := Nat.lt_succ_of_lt (hs.made w hw)
  workers w hw := by
    have hof := hs.workers w hw
    rw [Service.url] at hof ⊢
    simpa only [Function.update_of_ne (hs.made w hw).ne] using hof
  messages m hm := by
    have h := hs.messages m hm
    cases m with
    | init info => exact h
    | downloadFinished url => trivial
    | downloading j progress => exact Nat.lt_succ_of_lt h
  rows := hs.rows

theorem Service.Wf.download (hs : s.Wf) (info : TaskInfo) : (s.download info).Wf := by
  rcases Service.download_cases hs info with ⟨k,r,rows,hf,_,he,hof,hr⟩ | ⟨k,_,_,he⟩ | ⟨_,he⟩
  · obtain ⟨hk,hurl⟩ := Service.find_eq_some hf
    have ht := hs.tasks k (hs.listed k hk)
    have hs' := hs.updateTask (k := k) (t := (s.task k).restart) rfl
      (fun _ => ⟨ht.threadCount,ht.totals,ht.lenght⟩)
    rw [he]
    refine hs'.addWorker (hs.listed k hk) ?_ hr
    rw [← hurl] at hof
    simpa [Service.url, DownloadTask.restart] using hof
  · rw [he]
    exact hs
  · rw [he]
    exact { hs with }

theorem Service.Wf.pause (hs : s.Wf) (link : String) : (s.pause link).Wf := by
  unfold Service.pause
  cases hf : s.find link with
  | none => exact hs
  | some k =>
    have ht := hs.tasks k (hs.listed k (Service.find_eq_some hf).1)
    exact hs.updateTask rfl (fun _ => ⟨ht.threadCount,ht.totals,ht.lenght⟩)

theorem onLowMemory_taskInfo (s : Service) (k : ℕ) :
    (s.onLowMemory.task k).mTaskInfo = (s.task k).mTaskInfo := by
  simp only [Service.onLowMemory]
  split_ifs <;> rfl

theorem Service.Wf.onLowMemory (hs : s.Wf) : s.onLowMemory.Wf where
  listed := hs.listed
  nodup := hs.nodup
  tasks j hj := by
    have ht := hs.tasks j hj
    simp only [Service.onLowMemory]
    split_ifs
    · exact ⟨ht.threadCount,ht.totals,ht.lenght⟩
    · exact ht
  made := hs.made
  workers w hw := by
    have hof := hs.workers w hw
    rw [Service.url] at hof ⊢
    rwa [onLowMemory_taskInfo]
  messages := hs.messages
  rows := hs.rows

theorem Service.Wf.initThread (hs : s.Wf) {i : ℕ} {answer : Option InitAnswer}
    (h : s.step (.initThread i answer) = some u) : u.Wf := by
  obtain ⟨info,_,⟨_,rfl⟩ | ⟨info',files,hr,rfl⟩⟩ := Service.initThread_eq h
  · exact { hs with }
  · obtain ⟨a,_,ha⟩ := Option.bind_eq_some_iff.mp hr
    refine { hs with messages := fun m hm => ?_ }
    rcases List.mem_append.mp hm with hm | hm
    · exact hs.messages m hm
    · rw [List.mem_singleton.mp hm]
      exact (initThreadRun_spec ha).2.2

theorem Service.Wf.worker (hs : s.Wf) {i : ℕ} {a : ThreadAction}
    (h : s.step (.worker i a) = some u) : u.Wf := by
  obtain ⟨w,e,hw,he,rfl⟩ := Service.worker_eq h
  have hm := List.mem_of_getElem? hw
  have hf := run_frame he
  have hof := hs.workers w hm
  have ht := hs.tasks w.task (hs.made w hm)
  have hs' := hs.updateTask (k := w.task) (t := e.task) hf.taskInfo
    (fun _ => ⟨by rw [hf.threadCount, ht.threadCount],by rw [hf.length, ht.totals],
      by rw [hf.taskInfo]; exact ht.lenght⟩)
  have hnew : ∀ w' ∈ update s.workers i (e.thread.map (Worker.mk w.task)),
      w' ∈ s.workers ∨ (w'.task = w.task ∧ RowOf (s.url w.task) w'.thread.threadInfo) := by
    intro w' hw'
    rcases mem_update hw' with hw' | hw'
    · exact Or.inl hw'
    · obtain ⟨th,hth,rfl⟩ := Option.map_eq_some_iff.mp hw'
      exact Or.inr ⟨rfl,hof.of_segment (hf.thread th hth) (run_finished hof.finished he th hth)⟩
  exact {
    listed := hs.listed
    nodup := hs.nodup
    tasks := hs'.tasks
    made := fun w' hw' => by
      rcases hnew w' hw' with hw' | ⟨hk,_⟩
      · exact hs.made w' hw'
      · rw [hk]
        exact hs.made w hm
    workers := fun w' hw' => by
      rw [Service.url]
      simp only [Service.applyEffect, update_taskInfo hf.taskInfo]
      rcases hnew w' hw' with hw' | ⟨hk,hof'⟩
      · exact hs.workers w' hw'
      · rw [hk]
        exact hof'
    messages := fun m hm' => by
      rcases List.mem_append.mp hm' with hm' | hm'
      · exact hs.messages m hm'
      · obtain ⟨p,_,rfl⟩ := Option.map_eq_some_iff.mp (Option.mem_toList.mp hm')
        exact hs.made w hm
    rows := run_rows hs.rows hof.finished he }

theorem Service.Wf.dispatch (hs : s.Wf) (h : s.step .dispatch = some u) : u.Wf := by
  obtain ⟨m,queue,hq,rfl⟩ := Service.dispatch_eq h
  have hmem : m ∈ s.queue := by rw [hq]; exact List.mem_cons_self
  have hs' : { s with queue : Service }.Wf :=
    { hs with messages := fun m' hm' => hs.messages m' (by rw [hq]; exact List.mem_cons_of_mem _ hm') }
  cases m with
  | init info =>
    obtain ⟨r,rows,he,hof,hr⟩ := Service.handleInit_eq hs'.rows info
    rw [he]
    refine (hs'.newTask (hs.messages _ hmem)).addWorker (Nat.lt_succ_self _) ?_ hr
    simpa [Service.url, DownloadTask.init] using hof
  | downloadFinished url =>
    exact { hs' with
      listed := fun j hj => hs.listed j (List.mem_of_mem_eraseP hj)
      nodup := hs.nodup.sublist List.eraseP_sublist }
  | downloading k progress =>
    simp only [Service.handleMessage]
    split_ifs
    · exact { hs' with rows := hs.rows.deleteThread _ }
    · exact hs'

theorem Service.Wf.step (hs : s.Wf) {a : ServiceAction} (h : s.step a = some u) : u.Wf := by
  cases a with
  | download info => cases h; exact hs.download info
  | pause link => cases h; exact hs.pause link
  | onLowMemory => cases h; exact hs.onLowMemory
  | initThread i answer => exact hs.initThread h
  | worker i a => exact hs.worker h
  | dispatch => exact hs.dispatch h
  | receive i =>
    obtain ⟨link,_,rfl⟩ := Service.receive_eq h
    refine { hs with messages := fun m hm => ?_ }
    rcases List.mem_append.mp hm with hm | hm
    · exact hs.messages m hm
    · rw [List.mem_singleton.mp hm]
      trivial

end Preservation
end AdSystem.Download
