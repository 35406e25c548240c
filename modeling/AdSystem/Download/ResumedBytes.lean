import AdSystem.Download.RowLayout

/-! # Resuming leaves no hole

The offsets that the threads wrote are kept beside the sessions. As long as the url keeps its
length and its thread count, all its records with one id start at the same byte, so that any of
them may be persisted for any other: what a row counts as finished was written by one of them.
-/
namespace AdSystem.Download
open SignedWord ByteFile Slices Pool Transition

/-- The offsets of the file that an action writes. -/
def StoringSession.writes (s : StoringSession) : StoringAction → List ℕ
  | .session (.thread i (.read readLen)) =>
    match s.session.threads[i]? with
    | some w => List.range' w.filePointer readLen
    | none => []
  | _ => []

/-- With the bytes of the response that go there. -/
def StoringSession.bytesWritten (s : StoringSession) : StoringAction → List (ℕ × UInt8)
  | .session (.thread i (.read readLen)) =>
    match s.session.threads[i]? with
    | some w => (List.range' w.filePointer readLen).zip w.inputStream
    | none => []
  | _ => []

/-- The url keeps its length and is always downloaded with `T` threads. -/
def StoringSession.Repeats (L T : ℕ) (_ : StoringSession) : StoringAction → Prop
  | .session (.initThread contentLength) => contentLength = L
  | .session (.msgInit threadCount) => threadCount = T
  | _ => True

instance (L T : ℕ) (s : StoringSession) : ∀ a, Decidable (s.Repeats L T a)
  | .session (.initThread contentLength) => inferInstanceAs (Decidable (contentLength = (L : ℤ)))
  | .session (.msgInit threadCount) => inferInstanceAs (Decidable (threadCount = (T : ℤ)))
  | .session .pause | .session .restart | .session (.thread _ _) | .session .handle | .session .die
  | .insertNext => isTrue trivial

/-- Each of these offsets then holds a byte that goes there. -/
theorem StoringSession.file_of_mem_writes {info : TaskInfo} {s u : StoringSession} {a : StoringAction}
    (h : step info s a = some u) {k : ℕ} (hk : k ∈ s.writes a) :
    ∃ b, u.session.file[k]? = some b ∧ (k,b) ∈ s.bytesWritten a := by
  cases step_acts h with
  | @ran t w i a e task thread run =>
    cases a with
    | read readLen =>
      simp only [writes, thread] at hk
      obtain ⟨hle,hlt⟩ := List.mem_range'_1.mp hk
      obtain ⟨j,rfl⟩ := Nat.exists_eq_add_of_le hle
      cases run_acts run with
      | delivered _ _ le =>
        have hj : j < w.inputStream.length := by omega
        have hbyte : (w.inputStream.take readLen)[j]? = some w.inputStream[j] := by
          rw [List.getElem?_take_of_lt (by omega), List.getElem?_eq_getElem hj]
        refine ⟨w.inputStream[j],(write_getElem?_inside (List.getElem?_eq_some_iff.mp hbyte).1).trans hbyte,?_⟩
        simp only [bytesWritten, thread]
        refine List.mem_iff_getElem?.mpr ⟨j,?_⟩
        rw [List.getElem?_zip_eq_some]
        refine ⟨?_,List.getElem?_eq_getElem hj⟩
        rw [List.getElem?_range' (by omega), one_mul]
    | connect | clock | checkPause | notify | persist | endOfStream | ioException => cases hk
  | announced | initialized | restarted | paused | handled | died | stored | started => cases hk

/-- The other bytes stay, as far as the length of the url. -/
theorem StoringSession.file_of_notMem_writes {info : TaskInfo} {L T : ℕ} {s u : StoringSession} {a : StoringAction}
    (h : step info s a = some u) (ha : s.Repeats L T a) {k : ℕ} (hk : k ∉ s.writes a) (hL : k < L) {b : UInt8}
    (hb : s.session.file[k]? = some b) : u.session.file[k]? = some b := by
  have hlt := (List.getElem?_eq_some_iff.mp hb).1
  cases step_acts h with
  | announced _ _ _ =>
    cases ha
    exact (setLength_getElem? hL hlt).trans hb
  | @ran t w i a e task thread run =>
    cases run_acts run with
    | @delivered readLen _ _ le =>
      simp only [writes, thread, List.mem_range'_1] at hk
      have hlen : (w.inputStream.take readLen).length = readLen := by
        rw [List.length_take]
        omega
      exact (write_getElem?_outside hlt (by omega)).trans hb
    | connected | late | notified | early | checked | persisted | ended | refused | failed => exact hb
  | initialized _ _ _ | restarted _ _ =>
    simp only [StoringSession.downlaod]
    split_ifs <;> exact hb
  | paused | handled | died | stored | started => exact hb

/-- The record is a row of the order for `L` bytes and `n` rows. -/
def Placed (url : String) (L n : ℕ) (r : ThreadInfo) : Prop := ∃ i ≤ n, r.segment = threadRow url L n i

/-- The offsets from `a` up to `b` are among the written ones. -/
def WrittenFrom (written : List ℕ) (a b : ℤ) : Prop := ∀ k : ℕ, a ≤ k → k < b → k ∈ written

/-- What the record counts as finished was written. -/
structure RowWritten (written : List ℕ) (url : String) (L n : ℕ) (r : ThreadInfo) : Prop where
  placed : Placed url L n r
  finished : InRange r.finished
  written : WrittenFrom written r.start (r.start + r.finished)

/-- A connected thread wrote what it counts, up to where its file pointer stands. -/
structure ConnectedWritten (written : List ℕ) (url : String) (L n : ℕ) (w : DownloadThread) : Prop where
  placed : Placed url L n w.threadInfo
  finished : w.threadInfo.finished = i32 (w.filePointer - w.threadInfo.start)
  written : WrittenFrom written w.threadInfo.start w.filePointer

def ThreadWritten (written : List ℕ) (url : String) (L n : ℕ) (w : DownloadThread) : Prop :=
  if w.stage = .queued then RowWritten written url L n w.threadInfo
  else ConnectedWritten written url L n w

section Records
variable {written written' : List ℕ} {url : String} {L n : ℕ} {r q : ThreadInfo} {w : DownloadThread}

theorem Placed.start_nonneg (h : Placed url L n r) : 0 ≤ r.start := by
  obtain ⟨i,_,he⟩ := h
  have hs : r.start = (sliceStart L n i : ℤ) := congrArg ThreadInfo.start he
  omega

theorem Placed.start_lt (h : Placed url L n r) (hL : L < 2147483648) : r.start < 2147483648 := by
  obtain ⟨i,hi,he⟩ := h
  have hs : r.start = (sliceStart L n i : ℤ) := congrArg ThreadInfo.start he
  have hle := sliceStart_le (L := L) hi
  omega

/-- Records of one order with the same id start at the same byte. -/
theorem Placed.start_eq (hr : Placed url L n r) (hq : Placed url L n q) (hid : r.id = q.id) :
    r.start = q.start := by
  obtain ⟨i,_,hi⟩ := hr
  obtain ⟨j,_,hj⟩ := hq
  have hri : r.id = i := congrArg ThreadInfo.id hi
  have hqj : q.id = j := congrArg ThreadInfo.id hj
  obtain rfl : i = j := by omega
  exact (congrArg ThreadInfo.start hi).trans (congrArg ThreadInfo.start hj).symm

theorem Placed.of_segment (h : Placed url L n r) (hs : q.segment = r.segment) : Placed url L n q := by
  obtain ⟨i,hi,he⟩ := h
  exact ⟨i,hi,hs.trans he⟩

theorem WrittenFrom.mono {a b : ℤ} (h : WrittenFrom written a b) (hsub : written ⊆ written') :
    WrittenFrom written' a b :=
  fun k hk hk' => hsub (h k hk hk')

theorem RowWritten.mono (h : RowWritten written url L n r) (hsub : written ⊆ written') :
    RowWritten written' url L n r :=
  ⟨h.placed,h.finished,h.written.mono hsub⟩

theorem ThreadWritten.mono (h : ThreadWritten written url L n w) (hsub : written ⊆ written') :
    ThreadWritten written' url L n w := by
  unfold ThreadWritten at h ⊢
  split_ifs at h ⊢
  · exact h.mono hsub
  · exact ⟨h.placed,h.finished,h.written.mono hsub⟩

theorem ThreadWritten.connected (h : ThreadWritten written url L n w) (hs : w.stage ≠ .queued) :
    ConnectedWritten written url L n w := by
  unfold ThreadWritten at h
  rwa [if_neg hs] at h

/-- A wrap-around only lowers the count: what it counts was written. -/
theorem ConnectedWritten.count (h : ConnectedWritten written url L n w) (hL : L < 2147483648) :
    WrittenFrom written w.threadInfo.start (w.threadInfo.start + w.threadInfo.finished) := by
  have hlt := h.placed.start_lt hL
  have hle : w.threadInfo.finished ≤ w.filePointer - w.threadInfo.start := by
    rw [h.finished]
    rcases lt_or_ge ((w.filePointer : ℤ) - w.threadInfo.start) 2147483648 with hr | hr
    · rw [i32_eq ⟨by omega,hr⟩]
    · have hmax := (i32_inRange (w.filePointer - w.threadInfo.start)).2
      omega
  exact fun k hk hk' => h.written k hk (by omega)

/-- A thread begins right behind what its row counts. -/
theorem RowWritten.connect (h : RowWritten written url L n w.threadInfo) (hL : L < 2147483648)
    (hpos : 0 ≤ w.rangeStart) (body : List UInt8) :
    ConnectedWritten written url L n ⟨w.threadInfo,.reading,w.rangeStart.toNat,body⟩ := by
  have hs := rangeStart_of_nonneg h.placed.start_nonneg (h.placed.start_lt hL) h.finished hpos
  have hp : (w.rangeStart.toNat : ℤ) = w.threadInfo.start + w.threadInfo.finished := by omega
  refine ⟨h.placed,?_,?_⟩
  · show w.threadInfo.finished = i32 (w.rangeStart.toNat - w.threadInfo.start)
    rw [hp, add_sub_cancel_left, i32_eq h.finished]
  · show WrittenFrom written w.threadInfo.start w.rangeStart.toNat
    rw [hp]
    exact h.written

/-- The next bytes go right behind the ones before. -/
theorem ConnectedWritten.read (h : ConnectedWritten written url L n w) (readLen : ℕ) (rest : List UInt8)
    (hnew : ∀ k ∈ List.range' w.filePointer readLen, k ∈ written) :
    ConnectedWritten written url L n
      ⟨w.threadInfo.setFinished (i32 (w.threadInfo.finished + readLen)),.written,
        w.filePointer + readLen,rest⟩ where
  placed := h.placed.of_segment (segment_setFinished _ _)
  finished := by
    show i32 (w.threadInfo.finished + readLen) = i32 ((w.filePointer + readLen : ℕ) - w.threadInfo.start)
    rw [h.finished, i32_add]
    congr 1
    omega
  written := by
    intro k hk hk'
    rcases lt_or_ge k w.filePointer with hlt | hge
    · exact h.written k hk (by exact_mod_cast hlt)
    · refine hnew k (List.mem_range'_1.mpr ⟨hge,?_⟩)
      have hlt : (k : ℤ) < (w.filePointer + readLen : ℕ) := hk'
      omega

theorem ConnectedWritten.thread (h : ConnectedWritten written url L n w) (hs : w.stage ≠ .queued) :
    ThreadWritten written url L n w := by
  unfold ThreadWritten
  rwa [if_neg hs]

theorem ConnectedWritten.withStage (h : ConnectedWritten written url L n w) (stage : Stage) :
    ConnectedWritten written url L n { w with stage } := ⟨h.placed,h.finished,h.written⟩

theorem RowWritten.thread (h : RowWritten written url L n r) :
    ThreadWritten written url L n (DownloadThread.init r) := by
  unfold ThreadWritten
  rw [if_pos (show (DownloadThread.init r).stage = .queued from rfl)]
  exact h

theorem run_written {t : DownloadTask} {file : List UInt8} {rows : ThreadTable} {a : ThreadAction} {e : Effect}
    (h : ThreadWritten written url L n w) (hL : L < 2147483648) (hsub : written ⊆ written')
    (hnew : ∀ readLen, a = .read readLen → ∀ k ∈ List.range' w.filePointer readLen, k ∈ written')
    (run : w.run t file rows a = some e) : ∀ w', e.thread = some w' → ThreadWritten written' url L n w' := by
  have h' := h.mono hsub
  intro w' hw'
  cases run_acts run with
  | @connected _ body stage _ =>
    cases hw'
    unfold ThreadWritten at h'
    rw [if_pos stage] at h'
    exact (h'.connect hL (rangeStart_nonneg run) body).thread (by simp)
  | @delivered readLen stage =>
    cases hw'
    exact ((h'.connected (by simp [stage])).read readLen _ (hnew readLen rfl)).thread (by simp)
  | early stage | late stage | notified stage =>
    cases hw'
    exact ((h'.connected (by simp [stage])).withStage _).thread (by simp)
  | checked stage =>
    cases hw'
    refine ((h'.connected (by simp [stage])).withStage _).thread ?_
    dsimp only
    split_ifs <;> simp
  | refused | persisted | ended | failed => cases hw'

/-- Whichever thread persists its progress, the row with its id counts written bytes only. -/
theorem RowWritten.persist (hq : RowWritten written url L n q) (hw : ThreadWritten written url L n w)
    (hL : L < 2147483648) (hs : w.stage ≠ .queued) (hid : q.id = w.threadInfo.id) :
    RowWritten written url L n (q.setFinished w.threadInfo.finished) := by
  have hc := hw.connected hs
  have hstart : q.start = w.threadInfo.start := hq.placed.start_eq hc.placed hid
  refine ⟨hq.placed.of_segment (segment_setFinished _ _),?_,?_⟩
  · show InRange w.threadInfo.finished
    rw [hc.finished]
    exact i32_inRange _
  · show WrittenFrom written q.start (q.start + w.threadInfo.finished)
    rw [hstart]
    exact hc.count hL

theorem rowWritten_newThreads {t : DownloadTask} (ht : t.Ordered url) (hl : t.mTaskInfo.lenght = L)
    (hr : r ∈ t.newThreads) : RowWritten written url L (parts L t.mThreadCount) r := by
  obtain ⟨_,hzero,hseg⟩ := ht.mem_newThreads hr
  have hlt := ht.lt
  rw [newThreads_eq hl (by omega) rfl, ht.url] at hr
  obtain ⟨i,hi,he⟩ := List.mem_map.mp hr
  refine ⟨⟨i,(List.mem_range.mp hi).le,hseg.trans he.symm⟩,?_,?_⟩
  · rw [hzero]
    exact ⟨by omega,by omega⟩
  · rw [hzero]
    intro k hk hk'
    omega

end Records

namespace StoringSession

/-- What the rows of the url and the threads count was written. -/
structure Resumes (written : List ℕ) (info : TaskInfo) (L T : ℕ) (s : StoringSession) : Prop where
  announced : ∀ lenght, s.session.announced = some lenght → lenght = L
  lenght : ∀ t, s.session.task = some t → t.mTaskInfo.lenght = L
  threadCount : ∀ t, s.session.task = some t → t.mThreadCount = T
  rows : ∀ r ∈ getThread s.session.rows info.url, RowWritten written info.url L (parts L T) r
  threads : ∀ w ∈ s.session.threads, ThreadWritten written info.url L (parts L T) w

variable {written written' : List ℕ} {info : TaskInfo} {L T : ℕ} {s u : StoringSession}

theorem Resumes.mono (h : s.Resumes written info L T) (hsub : written ⊆ written') :
    s.Resumes written' info L T :=
  { h with
    rows := fun r hr => (h.rows r hr).mono hsub
    threads := fun w hw => (h.threads w hw).mono hsub }

theorem startThreads_written {infos : List ThreadInfo} {n : ℕ}
    (h : ∀ r ∈ infos, RowWritten written info.url L n r) :
    ∀ w ∈ startThreads infos, ThreadWritten written info.url L n w := by
  intro w hw
  obtain ⟨r,hr,rfl⟩ := List.mem_map.mp hw
  exact (h r hr).thread

theorem Resumes.downlaod {v : Session} (hs : (⟨v,none⟩ : StoringSession).Resumes written info L T)
    {t : DownloadTask} (ht : t.Ordered info.url) (hl : t.mTaskInfo.lenght = L) (hc : t.mThreadCount = T) :
    (downlaod v t).Resumes written info L T := by
  unfold StoringSession.downlaod
  dsimp only
  rw [ht.url]
  split_ifs
  · exact { hs with
      lenght := fun t' he => by cases he; exact hl
      threadCount := fun t' he => by cases he; exact hc }
  · exact { hs with
      lenght := fun t' he => by cases he; exact hl
      threadCount := fun t' he => by cases he; exact hc
      threads := fun w hw => by
        rcases List.mem_append.mp hw with hw | hw
        · exact hs.threads w hw
        · exact startThreads_written hs.rows w hw }

/-- A thread writes where it counts, or persists what it counts. -/
theorem Resumes.ran (hs : s.Resumes written info L T) (hL : L < 2147483648) {t : DownloadTask}
    {w : DownloadThread} {i : ℕ} {a : ThreadAction} {e : Effect} (task : s.session.task = some t)
    (thread : s.session.threads[i]? = some w)
    (run : w.run t s.session.file s.session.rows a = some e) (inserting : Option (List ThreadInfo)) :
    StoringSession.Resumes (written ++ s.writes (.session (.thread i a))) info L T
      ⟨{ s.session with
          task := some e.task, threads := update s.session.threads i e.thread,
          queue := s.session.queue ++ e.posted.toList, rows := e.rows, file := e.file },inserting⟩ := by
  have hf := run_frame run
  have hsub : written ⊆ written ++ s.writes (.session (.thread i a)) := List.subset_append_left _ _
  have hs' := hs.mono hsub
  have hw := hs.threads w (List.mem_of_getElem? thread)
  have hnew : ∀ readLen, a = .read readLen →
      ∀ k ∈ List.range' w.filePointer readLen, k ∈ written ++ s.writes (.session (.thread i a)) := by
    rintro readLen rfl k hk
    simp only [writes, thread]
    exact List.mem_append_right _ hk
  refine {
    announced := hs.announced
    lenght := fun t' he => by cases he; rw [hf.taskInfo]; exact hs.lenght t task
    threadCount := fun t' he => by cases he; rw [hf.threadCount]; exact hs.threadCount t task
    rows := fun r hr => ?_
    threads := fun w' hw' => ?_ }
  · rcases run_rows_cases run with he | ⟨hstage,he⟩
    · exact hs'.rows r (he ▸ hr)
    · obtain ⟨hr,hu⟩ := mem_getThread.mp hr
      dsimp only at hr
      rw [he] at hr
      rcases mem_updateThread hr with hr | ⟨q,hq,_,hid,rfl⟩
      · exact hs'.rows r (mem_getThread.mpr ⟨hr,hu⟩)
      · exact (hs'.rows q (mem_getThread.mpr ⟨hq,hu⟩)).persist (hw.mono hsub) hL (by simp [hstage]) hid
  · rcases mem_update hw' with hw' | hw'
    · exact hs'.threads w' hw'
    · exact run_written hw hL hsub hnew run w' hw'

theorem Resumes.step (hs : s.Resumes written info L T) (hl : s.Layout info) (hT : 0 < T) {a : StoringAction}
    (ha : s.Repeats L T a) (h : step info s a = some u) : u.Resumes (written ++ s.writes a) info L T := by
  have hs' := hs.mono (List.subset_append_left written (s.writes a))
  cases step_acts h with
  | announced _ pos lt => exact { hs' with announced := fun lenght he => by cases he; exact ha }
  | @initialized threadCount lenght _ ann =>
    cases ha
    obtain rfl := hs.announced lenght ann
    refine Resumes.downlaod ?_ (hl.init_ordered ann _) rfl ?_
    · exact { hs' with
        announced := fun _ he => nomatch he
        threads := fun _ hw => nomatch hw }
    · simp [DownloadTask.init, hT]
  | @restarted t _ task =>
    have ht := hl.task t task
    refine Resumes.downlaod ?_ ⟨ht.url,ht.pos,ht.lt,ht.threadCount⟩ (hs.lenght t task)
      (hs.threadCount t task)
    exact { hs' with }
  | @paused t _ task =>
    exact { hs' with
      lenght := fun t' he => by cases he; exact hs.lenght t task
      threadCount := fun t' he => by cases he; exact hs.threadCount t task }
  | @ran t w i a e task thread run =>
    have hlt := (hl.task t task).lt
    rw [hs.lenght t task] at hlt
    exact hs.ran (by omega) task thread run s.inserting
  | @handled t progress queue _ task =>
    refine { hs' with rows := fun r hr => ?_ }
    dsimp only at hr
    split_ifs at hr
    · rw [(hl.task t task).url, getThread_deleteThread] at hr
      cases hr
    · exact hs'.rows r hr
  | died =>
    exact {
      announced := fun _ he => nomatch he
      lenght := fun _ he => nomatch he
      threadCount := fun _ he => nomatch he
      rows := hs'.rows
      threads := fun _ hw => nomatch hw }
  | @stored t r rest inserting task =>
    have hr : r ∈ t.newThreads :=
      hl.inserting t _ task inserting ▸ List.mem_append_right _ List.mem_cons_self
    have ht := hl.task t task
    refine { hs' with rows := fun q hq => ?_ }
    dsimp only at hq
    rw [getThread_insertThread (ht.mem_newThreads hr).1] at hq
    rcases List.mem_append.mp hq with hq | hq
    · exact hs'.rows q hq
    · rw [List.mem_singleton.mp hq, ← hs.threadCount t task]
      exact rowWritten_newThreads ht (hs.lenght t task) hr
  | @started t inserting task =>
    refine { hs' with threads := fun w hw => ?_ }
    rcases List.mem_append.mp hw with hw | hw
    · exact hs'.threads w hw
    · refine startThreads_written (fun r hr => ?_) w hw
      rw [← hs.threadCount t task]
      exact rowWritten_newThreads (hl.task t task) (hs.lenght t task) hr

/-- As far as the length, the file keeps what was written. -/
theorem file_of_written {rows : ThreadTable} {file : List UInt8} {as : List StoringAction}
    (hsame : Along (step info) (Repeats L T) (fresh rows file) as)
    (he : exec (step info) (fresh rows file) as = some s) :
    ∀ k < L, k ∈ trace (step info) writes (fresh rows file) as →
      ∃ b, s.session.file[k]? = some b ∧ (k,b) ∈ trace (step info) bytesWritten (fresh rows file) as := by
  have hall := exec_history
    (I := fun as s => Along (step info) (Repeats L T) (fresh rows file) as →
      ∀ k < L, k ∈ trace (step info) writes (fresh rows file) as →
        ∃ b, s.session.file[k]? = some b ∧ (k,b) ∈ trace (step info) bytesWritten (fresh rows file) as)
    (fun _ _ _ hk => nomatch hk)
    (fun as t a u ht ih hu hsame k hL hk => by
      obtain ⟨hsame,ha⟩ := (along_append_singleton ht).mp hsame
      rw [trace_append_singleton _ ht, List.mem_append] at hk
      rw [trace_append_singleton _ ht]
      by_cases hnow : k ∈ t.writes a
      · obtain ⟨b,hb,hmem⟩ := file_of_mem_writes hu hnow
        exact ⟨b,hb,List.mem_append_right _ hmem⟩
      · obtain ⟨b,hb,hmem⟩ := ih hsame k hL (hk.resolve_right hnow)
        exact ⟨b,file_of_notMem_writes hu ha hnow hL hb,List.mem_append_left _ hmem⟩) he
  exact hall hsame

/-- Whatever pauses, restarts and deaths there were, a row counts written bytes only, no byte between
the start of a connected thread and its file pointer is left out, and what was written is in the file. -/
theorem finished_bytes_written (info : TaskInfo) (L T : ℕ) (hT : 1 ≤ T) (rows : ThreadTable)
    (hrows : getThread rows info.url = []) (file : List UInt8) (as : List StoringAction) (s : StoringSession)
    (hsame : Along (step info) (Repeats L T) (fresh rows file) as)
    (he : exec (step info) (fresh rows file) as = some s) :
    (∀ r ∈ getThread s.session.rows info.url, ∀ k : ℕ, r.start ≤ k → k < r.start + r.finished →
      k ∈ trace (step info) writes (fresh rows file) as) ∧
    (∀ w ∈ s.session.threads, w.stage ≠ .queued →
      ∀ k : ℕ, w.threadInfo.start ≤ k → k < w.filePointer → k ∈ trace (step info) writes (fresh rows file) as) ∧
    ∀ k < L, k ∈ trace (step info) writes (fresh rows file) as →
      ∃ b, s.session.file[k]? = some b ∧ (k,b) ∈ trace (step info) bytesWritten (fresh rows file) as := by
  have hfresh : (fresh rows file).Resumes [] info L T := {
    announced := fun _ h => nomatch h
    lenght := fun _ h => nomatch h
    threadCount := fun _ h => nomatch h
    rows := fun r hr => by
      have hr : r ∈ getThread rows info.url := hr
      rw [hrows] at hr
      cases hr
    threads := fun _ h => nomatch h }
  have hinv := exec_history
    (I := fun as s => Along (step info) (Repeats L T) (fresh rows file) as →
      s.Resumes (trace (step info) writes (fresh rows file) as) info L T)
    (fun _ => hfresh)
    (fun as t a u ht ih hu hsame => by
      obtain ⟨hsame,ha⟩ := (along_append_singleton ht).mp hsame
      rw [trace_append_singleton _ ht]
      exact (ih hsame).step (exec_layout hrows ht) hT ha hu) he hsame
  refine ⟨fun r hr k hk hk' => (hinv.rows r hr).written k hk hk',fun w hw hstage k hk hk' => ?_,
    file_of_written hsame he⟩
  exact ((hinv.threads w hw).connected hstage).written k hk (by exact_mod_cast hk')

def resumedInfo : TaskInfo := ⟨"u",none,none,0,some 0⟩

/-- A thread is paused behind its first byte and persists it, before the process dies. -/
def pausedThenDeadRun : List StoringAction :=
  [.session (.initThread 2),.session (.msgInit 1),.insertNext,.insertNext,
    .session (.thread 0 (.connect 206 [7,8])),.session (.thread 0 (.read 1)),.session .pause,
    .session (.thread 0 (.clock false)),.session (.thread 0 .checkPause),.session (.thread 0 .notify),
    .session (.thread 0 .persist),.session .die]

theorem finished_bytes_written_paused :
    ∃ s, exec (StoringSession.step resumedInfo) (fresh [] []) pausedThenDeadRun = some s ∧
      0 ∈ trace (StoringSession.step resumedInfo) writes (fresh [] []) pausedThenDeadRun ∧
      ∃ b, s.session.file[0]? = some b ∧
        (0,b) ∈ trace (StoringSession.step resumedInfo) bytesWritten (fresh [] []) pausedThenDeadRun := by
  have h := finished_bytes_written resumedInfo 2 1 le_rfl [] rfl [] pausedThenDeadRun _ (by decide) rfl
  have hzero := h.1 ⟨0,"u",0,2,1⟩ (by decide) 0 (by decide) (by decide)
  exact ⟨_,rfl,hzero,h.2.2 0 (by decide) hzero⟩

end StoringSession
end AdSystem.Download
