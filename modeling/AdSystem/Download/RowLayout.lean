import Mathlib.Data.Int.ConditionallyCompleteOrder
import AdSystem.Download.RowInserts

/-! # The rows that sessions leave

Whatever lengths and thread counts the sessions of a url were given, and wherever they died,
its rows are the first ones of a single order: `downlaod` makes rows only where it finds none.
They begin at 0 and each of them begins behind the end of the one before.
-/
namespace AdSystem.Download
open SignedWord Slices Pool Transition

/-- A task that the service makes for the url. -/
structure DownloadTask.Ordered (url : String) (t : DownloadTask) : Prop where
  url : t.mTaskInfo.url = url
  pos : 0 < t.mTaskInfo.lenght
  lt : t.mTaskInfo.lenght < 2147483648
  threadCount : 0 < t.mThreadCount

/-- The first rows of an order, without their progress. -/
def Laid (url : String) (segments : List ThreadInfo) : Prop :=
  ∃ t : DownloadTask, t.Ordered url ∧ segments <+: t.newThreads

/-- Rows of which the first begins at `a` and each other one behind the end of the one before. -/
def Consecutive : ℤ → List ThreadInfo → Prop
  | _, [] => True
  | a, r :: rows =>
    r.start = a ∧ a ≤ r.«end» ∧ r.«end» < 2147483648 ∧ Consecutive (r.«end» + 1) rows

section Consecutive
variable {a : ℤ} {rows rest : List ThreadInfo} {r : ThreadInfo}

theorem consecutive_map_segment : Consecutive a (rows.map ThreadInfo.segment) ↔ Consecutive a rows := by
  induction rows generalizing a with
  | nil => exact Iff.rfl
  | cons r rows ih =>
    rw [List.map_cons, Consecutive, Consecutive, ih]
    rfl

theorem Consecutive.of_append (h : Consecutive a (rows ++ rest)) : Consecutive a rows := by
  induction rows generalizing a with
  | nil => trivial
  | cons r rows ih => exact ⟨h.1,h.2.1,h.2.2.1,ih h.2.2.2⟩

theorem Consecutive.le_start (h : Consecutive a rows) (hr : r ∈ rows) : a ≤ r.start := by
  induction rows generalizing a with
  | nil => cases hr
  | cons q rows ih =>
    obtain ⟨hs,hle,_,ht⟩ := h
    rcases List.mem_cons.mp hr with rfl | hr
    · exact hs.ge
    · have hle' := ih ht hr
      omega

theorem Consecutive.bounds (h : Consecutive a rows) (hr : r ∈ rows) :
    r.start ≤ r.«end» ∧ r.«end» < 2147483648 := by
  induction rows generalizing a with
  | nil => cases hr
  | cons q rows ih =>
    obtain ⟨hs,hle,hlt,ht⟩ := h
    rcases List.mem_cons.mp hr with rfl | hr
    · exact ⟨hs.le.trans hle,hlt⟩
    · exact ih ht hr

/-- A byte before the start of a row is in the segment of some row. -/
theorem Consecutive.exists_mem (h : Consecutive a rows) (hr : r ∈ rows) {k : ℤ} (hak : a ≤ k)
    (hk : k < r.start) : ∃ q ∈ rows, q.start ≤ k ∧ k ≤ q.«end» := by
  induction rows generalizing a with
  | nil => cases hr
  | cons q rows ih =>
    obtain ⟨hs,hle,_,ht⟩ := h
    rcases lt_or_ge q.«end» k with hq | hq
    · rcases List.mem_cons.mp hr with rfl | hr
      · omega
      · obtain ⟨p,hp,hpk⟩ := ih ht hr (by omega)
        exact ⟨p,List.mem_cons_of_mem _ hp,hpk⟩
    · exact ⟨q,List.mem_cons_self,by omega,hq⟩

/-- The segments of consecutive rows have no byte in common. -/
theorem Consecutive.pairwise_disjoint (h : Consecutive a rows) :
    rows.Pairwise fun r q => Disjoint (Set.Icc r.start r.«end») (Set.Icc q.start q.«end») := by
  induction rows generalizing a with
  | nil => exact List.Pairwise.nil
  | cons r rows ih =>
    obtain ⟨_,_,_,ht⟩ := h
    refine List.Pairwise.cons (fun q hq => ?_) (ih ht)
    have hle := ht.le_start hq
    rw [Set.disjoint_left]
    rintro k ⟨_,hk⟩ ⟨hk',_⟩
    omega

end Consecutive

section NewThreads
variable {t : DownloadTask} {url : String}

theorem consecutive_threadRow (url : String) {L n : ℕ} (hL : L < 2147483648) (hn : 1 < n → 0 < L / n)
    (m j : ℕ) (hm : j + m ≤ n) :
    Consecutive (sliceStart L n j) ((List.range' j m).map (threadRow url L n)) := by
  induction m generalizing j with
  | zero => trivial
  | succ m ih =>
    rw [List.range'_succ, List.map_cons]
    have hle := sliceStart_le (L := L) (show j + 1 ≤ n by omega)
    by_cases hlast : j + 1 < n
    · have hend : (threadRow url L n j).«end» = (sliceStart L n (j + 1) : ℤ) - 1 := by
        rw [threadRow, if_pos hlast, sliceStop, if_pos hlast]
        rfl
      have hlt : sliceStart L n j < sliceStart L n (j + 1) :=
        Nat.mul_lt_mul_of_pos_right (Nat.lt_succ_self j) (hn (by omega))
      have htail := ih (j + 1) (by omega)
      refine ⟨rfl,by omega,by omega,?_⟩
      rwa [hend, sub_add_cancel]
    · obtain rfl : m = 0 := by omega
      have hend : (threadRow url L n j).«end» = L := if_neg hlast
      have hstart := sliceStart_le (L := L) (show j ≤ n by omega)
      exact ⟨rfl,by omega,by omega,trivial⟩

theorem block_pos {L T : ℕ} (h : 1 < parts L T) : 0 < L / parts L T := by
  unfold parts at h ⊢
  split_ifs at h ⊢ with h0
  · omega
  · exact Nat.pos_of_ne_zero h0

/-- The rows that a task makes, for a length that is known as a natural number. -/
theorem DownloadTask.Ordered.newThreads_eq (h : t.Ordered url) :
    ∃ L : ℕ, t.mTaskInfo.lenght = L ∧ L < 2147483648 ∧ t.newThreads =
      (List.range (parts L t.mThreadCount)).map (threadRow url L (parts L t.mThreadCount)) := by
  obtain ⟨L,hL⟩ := Int.eq_ofNat_of_zero_le h.pos.le
  have hlt := h.lt
  refine ⟨L,hL,by omega,?_⟩
  rw [AdSystem.Download.newThreads_eq hL (by omega) rfl, h.url]

theorem DownloadTask.Ordered.consecutive (h : t.Ordered url) : Consecutive 0 t.newThreads := by
  obtain ⟨L,_,hlt,he⟩ := h.newThreads_eq
  have hc := consecutive_threadRow url hlt (block_pos (T := t.mThreadCount)) _ 0 (Nat.zero_add _).le
  rw [sliceStart, Nat.zero_mul, Nat.cast_zero] at hc
  rw [he, List.range_eq_range']
  exact hc

theorem DownloadTask.Ordered.mem_newThreads (h : t.Ordered url) {r : ThreadInfo} (hr : r ∈ t.newThreads) :
    r.url = url ∧ r.finished = 0 ∧ r.segment = r := by
  obtain ⟨L,_,_,he⟩ := h.newThreads_eq
  rw [he] at hr
  obtain ⟨i,_,rfl⟩ := List.mem_map.mp hr
  exact ⟨rfl,rfl,rfl⟩

theorem Laid.consecutive {rows : List ThreadInfo} (h : Laid url (rows.map ThreadInfo.segment)) :
    Consecutive 0 rows := by
  obtain ⟨t,ht,rest,he⟩ := h
  exact consecutive_map_segment.mp (Consecutive.of_append (he ▸ ht.consecutive))

theorem laid_nil (url : String) : Laid url [] :=
  ⟨⟨⟨url,none,none,1,none⟩,false,1,[0]⟩,⟨rfl,one_pos,by norm_num,one_pos⟩,List.nil_prefix⟩

end NewThreads

section Table
variable {rows : ThreadTable} {url : String} {r : ThreadInfo}

theorem getThread_insertThread (h : r.url = url) :
    getThread (insertThread rows r) url = getThread rows url ++ [r] := by
  simp [getThread, insertThread, List.filter_append, h]

theorem getThread_deleteThread : getThread (deleteThread rows url) url = [] := by
  rw [List.eq_nil_iff_forall_not_mem]
  intro r hr
  obtain ⟨hr,hu⟩ := mem_getThread.mp hr
  exact (mem_deleteThread.mp hr).2 hu

/-- Rows without their progress are read as they are in the table. -/
theorem getThread_map_segment (rows : ThreadTable) (url : String) :
    (getThread rows url).map ThreadInfo.segment = getThread (rows.map ThreadInfo.segment) url := by
  rw [getThread, getThread, List.filter_map]
  rfl

end Table

namespace StoringSession

/-- The rows of the url are those of one order, as far as they are stored. -/
structure Layout (info : TaskInfo) (s : StoringSession) : Prop where
  announced : ∀ lenght, s.session.announced = some lenght → 0 < lenght ∧ lenght < 2147483648
  task : ∀ t, s.session.task = some t → t.Ordered info.url
  rows : Laid info.url ((getThread s.session.rows info.url).map ThreadInfo.segment)
  inserting : ∀ t rest, s.session.task = some t → s.inserting = some rest →
    (getThread s.session.rows info.url).map ThreadInfo.segment ++ rest = t.newThreads
  finished : ∀ r ∈ getThread s.session.rows info.url, InRange r.finished
  threads : ∀ w ∈ s.session.threads, InRange w.threadInfo.finished

variable {info : TaskInfo} {s u : StoringSession}

theorem fresh_layout {rows : ThreadTable} {file : List UInt8}
    (hrows : Laid info.url ((getThread rows info.url).map ThreadInfo.segment))
    (hfinished : ∀ r ∈ getThread rows info.url, InRange r.finished) : (fresh rows file).Layout info where
  announced _ h := nomatch h
  task _ h := nomatch h
  rows := hrows
  inserting _ _ h := nomatch h
  finished := hfinished
  threads _ h := nomatch h

theorem startThreads_finished {infos : List ThreadInfo} (h : ∀ r ∈ infos, InRange r.finished) :
    ∀ w ∈ startThreads infos, InRange w.threadInfo.finished := by
  intro w hw
  obtain ⟨r,hr,rfl⟩ := List.mem_map.mp hw
  exact h r hr

/-- `downlaod` starts threads for the rows it finds, or has all the rows of its order to store. -/
theorem Layout.downlaod {v : Session} (hs : (⟨v,none⟩ : StoringSession).Layout info)
    {t : DownloadTask} (ht : t.Ordered info.url) : (downlaod v t).Layout info := by
  unfold StoringSession.downlaod
  dsimp only
  rw [ht.url]
  split_ifs with hlen
  · have hnil : getThread v.rows info.url = [] := List.length_eq_zero_iff.mp (Nat.le_zero.mp hlen)
    exact {
      announced := hs.announced
      task := fun t' he => by cases he; exact ht
      rows := hs.rows
      inserting := fun t' rest he hi => by
        cases he
        cases hi
        dsimp only
        rw [hnil]
        rfl
      finished := hs.finished
      threads := hs.threads }
  · exact {
      announced := hs.announced
      task := fun t' he => by cases he; exact ht
      rows := hs.rows
      inserting := fun _ _ _ hi => nomatch hi
      finished := hs.finished
      threads := fun w hw => by
        rcases List.mem_append.mp hw with hw | hw
        · exact hs.threads w hw
        · exact startThreads_finished hs.finished w hw }

theorem Layout.init_ordered (hs : s.Layout info) {lenght : ℤ} (ha : s.session.announced = some lenght)
    (threadCount : ℤ) : (DownloadTask.init { info with lenght } threadCount).Ordered info.url := by
  obtain ⟨hpos,hlt⟩ := hs.announced lenght ha
  refine ⟨rfl,hpos,hlt,?_⟩
  unfold DownloadTask.init defaultThreadCount
  dsimp only
  split_ifs <;> omega

/-- A thread changes the progress of rows and nothing of their layout. -/
theorem Layout.ran (hs : s.Layout info) {t : DownloadTask} {w : DownloadThread} {i : ℕ} {a : ThreadAction}
    {e : Effect} (task : s.session.task = some t) (thread : s.session.threads[i]? = some w)
    (run : w.run t s.session.file s.session.rows a = some e) :
    StoringSession.Layout info
      ⟨{ s.session with
          task := some e.task, threads := update s.session.threads i e.thread,
          queue := s.session.queue ++ e.posted.toList, rows := e.rows, file := e.file },s.inserting⟩ := by
  have ht := hs.task t task
  have hf := run_frame run
  have hw := hs.threads w (List.mem_of_getElem? thread)
  have hrows : (getThread e.rows info.url).map ThreadInfo.segment =
      (getThread s.session.rows info.url).map ThreadInfo.segment := by
    rw [getThread_map_segment, getThread_map_segment, hf.segments]
  have hnew : e.task.newThreads = t.newThreads := by
    unfold DownloadTask.newThreads
    rw [hf.taskInfo, hf.threadCount]
  refine {
    announced := hs.announced
    task := fun t' he => by
      cases he
      exact ⟨hf.taskInfo ▸ ht.url,hf.taskInfo ▸ ht.pos,hf.taskInfo ▸ ht.lt,hf.threadCount ▸ ht.threadCount⟩
    rows := hrows ▸ hs.rows
    inserting := fun t' rest he hi => by
      cases he
      exact (congrArg (· ++ rest) hrows).trans ((hs.inserting t rest task hi).trans hnew.symm)
    finished := fun r hr => ?_
    threads := fun w' hw' => ?_ }
  · rcases run_rows_cases run with he | ⟨_,he⟩
    · exact hs.finished r (he ▸ hr)
    · obtain ⟨hr,hu⟩ := mem_getThread.mp hr
      dsimp only at hr
      rw [he] at hr
      rcases mem_updateThread hr with hr | ⟨q,_,_,_,rfl⟩
      · exact hs.finished r (mem_getThread.mpr ⟨hr,hu⟩)
      · exact hw
  · rcases mem_update hw' with hw' | hw'
    · exact hs.threads w' hw'
    · exact run_finished hw run w' hw'

/-- The next row of the order comes behind those that are stored. -/
theorem Layout.stored (hs : s.Layout info) {t : DownloadTask} {r : ThreadInfo} {rest : List ThreadInfo}
    (task : s.session.task = some t) (inserting : s.inserting = some (r :: rest)) :
    StoringSession.Layout info ⟨{ s.session with rows := insertThread s.session.rows r },some rest⟩ := by
  have hlaid := hs.inserting t _ task inserting
  have ht := hs.task t task
  have hr : r ∈ t.newThreads := hlaid ▸ List.mem_append_right _ List.mem_cons_self
  obtain ⟨hurl,hzero,hseg⟩ := ht.mem_newThreads hr
  have hget : getThread (insertThread s.session.rows r) info.url = getThread s.session.rows info.url ++ [r] :=
    getThread_insertThread hurl
  have hall : (getThread (insertThread s.session.rows r) info.url).map ThreadInfo.segment ++ rest =
      t.newThreads := by
    rw [hget, List.map_append, List.map_singleton, hseg, List.append_assoc, List.singleton_append]
    exact hlaid
  exact { hs with
    rows := ⟨t,ht,rest,hall⟩
    inserting := fun t' rest' he hi => by
      cases task.symm.trans he
      cases hi
      exact hall
    finished := fun q hq => by
      dsimp only at hq
      rw [hget] at hq
      rcases List.mem_append.mp hq with hq | hq
      · exact hs.finished q hq
      · rw [List.mem_singleton.mp hq, hzero]
        exact ⟨by omega,by omega⟩ }

theorem Layout.step (hs : s.Layout info) {a : StoringAction} (h : step info s a = some u) :
    u.Layout info := by
  cases step_acts h with
  | announced _ pos lt =>
    exact { hs with
      announced := fun lenght he => by cases he; exact ⟨pos,lt⟩
      inserting := fun _ _ _ hi => nomatch hi }
  | initialized _ ann =>
    refine Layout.downlaod ?_ (hs.init_ordered ann _)
    exact { hs with
      announced := fun _ he => nomatch he
      inserting := fun _ _ _ hi => nomatch hi
      threads := fun _ hw => nomatch hw }
  | restarted _ task =>
    have ht := hs.task _ task
    refine Layout.downlaod ?_ ⟨ht.url,ht.pos,ht.lt,ht.threadCount⟩
    exact { hs with inserting := fun _ _ _ hi => nomatch hi }
  | paused _ task =>
    have ht := hs.task _ task
    exact { hs with
      task := fun t' he => by cases he; exact ⟨ht.url,ht.pos,ht.lt,ht.threadCount⟩
      inserting := fun _ _ _ hi => nomatch hi }
  | ran task thread run => exact hs.ran task thread run
  | @handled t progress queue _ task =>
    have ht := hs.task _ task
    refine { hs with
      rows := ?_
      inserting := fun _ _ _ hi => nomatch hi
      finished := fun r hr => ?_ }
    · dsimp only
      split_ifs
      · rw [ht.url, getThread_deleteThread]
        exact laid_nil _
      · exact hs.rows
    · dsimp only at hr
      split_ifs at hr
      · rw [ht.url, getThread_deleteThread] at hr
        cases hr
      · exact hs.finished r hr
  | died => exact fresh_layout hs.rows hs.finished
  | stored inserting task => exact hs.stored task inserting
  | @started t inserting task =>
    exact { hs with
      inserting := fun _ _ _ hi => nomatch hi
      threads := fun w hw => by
        rcases List.mem_append.mp hw with hw | hw
        · exact hs.threads w hw
        · refine startThreads_finished (fun r hr => ?_) w hw
          rw [((hs.task t task).mem_newThreads hr).2.1]
          exact ⟨by omega,by omega⟩ }

/-- Whatever the sessions of a url did, their rows are laid out as those of one order. -/
theorem exec_layout {rows : ThreadTable} {file : List UInt8} (hrows : getThread rows info.url = [])
    {as : List StoringAction} (he : exec (step info) (fresh rows file) as = some s) : s.Layout info := by
  have hfresh : (fresh rows file).Layout info := by
    apply fresh_layout
    · rw [hrows]
      exact laid_nil _
    · rw [hrows]
      exact fun r hr => nomatch hr
  exact exec_history (I := fun _ t => t.Layout info) hfresh (fun _ _ _ _ _ hs h => hs.step h) he

end StoringSession
end AdSystem.Download
