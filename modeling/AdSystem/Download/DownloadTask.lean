import AdSystem.Library.SignedWord
import AdSystem.Library.ByteFile
import AdSystem.Download.ThreadDao

/-! # One download task and its threads

A task splits its file into the rows of the progress table and starts one thread
for every row. The threads run concurrently with the main thread, so `run` is cut
at each access to the state they share: the file, the table, the pause flag and
the totals that `notifyProgress` guards.
-/
namespace AdSystem.Download
open SignedWord ByteFile

/-- The order for a download. `download` is the callback object, by reference. -/
structure TaskInfo where
  url : String
  filePath : Option String
  fileName : Option String
  lenght : ℤ
  download : Option ℕ
  deriving DecidableEq, Repr

structure DownloadTask where
  mTaskInfo : TaskInfo
  isPause : Bool
  mThreadCount : ℕ
  mTotalFinished : List ℤ
  deriving DecidableEq, Repr

def defaultThreadCount : ℕ := 3

def DownloadTask.init (taskInfo : TaskInfo) (threadCount : ℤ) : DownloadTask :=
  let mThreadCount := if 0 < threadCount then threadCount.toNat else defaultThreadCount
  ⟨taskInfo,false,mThreadCount,List.replicate mThreadCount 0⟩

def DownloadTask.pause (t : DownloadTask) : DownloadTask := { t with isPause := true }

/-- The quotient is exact; only its conversion to `int` truncates and saturates. -/
def percent (nowFinished lenght : ℤ) : ℤ :=
  max (-2147483648) (min 2147483647 ((nowFinished * 100).tdiv lenght))

/-- The totals after the report, and the progress message sent to the handler. -/
def DownloadTask.notifyProgress (t : DownloadTask) (threadId finished : ℤ) :
    DownloadTask × Option ℤ :=
  if 0 ≤ threadId ∧ threadId < t.mTotalFinished.length then
    let mTotalFinished := t.mTotalFinished.set threadId.toNat finished
    ({ t with mTotalFinished }, some (percent (sum32 mTotalFinished) t.mTaskInfo.lenght))
  else (t,none)

/-- The rows a task makes when the table has none for its url. -/
def DownloadTask.newThreads (t : DownloadTask) : List ThreadInfo :=
  let block := t.mTaskInfo.lenght.tdiv t.mThreadCount
  if 0 < block then
    (List.range t.mThreadCount).map fun (i : ℕ) =>
      let info : ThreadInfo :=
        ⟨i,t.mTaskInfo.url,i32 (i * block),i32 (i32 ((i + 1) * block) - 1),0⟩
      if (i : ℤ) = t.mThreadCount - 1 then info.setEnd t.mTaskInfo.lenght else info
  else [⟨0,t.mTaskInfo.url,0,t.mTaskInfo.lenght,0⟩]

/-- The table after `downlaod`, and the rows for which it starts a thread. -/
def DownloadTask.downlaod (t : DownloadTask) (rows : ThreadTable) : ThreadTable × List ThreadInfo :=
  let threadInfoList := getThread rows t.mTaskInfo.url
  if threadInfoList.length ≤ 0 then (t.newThreads.foldl insertThread rows,t.newThreads)
  else (rows,threadInfoList)

def DownloadTask.restart (t : DownloadTask) : DownloadTask := { t with isPause := false }

/-- What the handler of a task does to the rest of the application. -/
inductive Call where
  | onDownloading (download : ℕ) (url : String) (progress : ℤ)
  | onDownloadFinished (download : ℕ) (filePath fileName : Option String)
  | sendBroadcastDownloadSuc (url : String)
  | deleteThread (url : String)
  deriving DecidableEq, Repr

/-- The handler of a progress message; without a callback object it returns at once. -/
def DownloadTask.dispatchMessage (t : DownloadTask) (progress : ℤ) : List Call :=
  match t.mTaskInfo.download with
  | none => []
  | some download =>
    .onDownloading download t.mTaskInfo.url progress ::
      if 100 ≤ progress then
        [.onDownloadFinished download t.mTaskInfo.filePath t.mTaskInfo.fileName,
          .sendBroadcastDownloadSuc t.mTaskInfo.url, .deleteThread t.mTaskInfo.url]
      else []

/-- Whether the handler of this message goes through the completion branch. -/
def DownloadTask.finishes (t : DownloadTask) (progress : ℤ) : Bool :=
  t.mTaskInfo.download.isSome && decide (100 ≤ progress)

inductive Stage where
  | queued
  | reading
  | written
  | checking
  | pausing
  | persisting
  deriving DecidableEq, Repr

/-- A thread: its own copy of the row, the file pointer and the rest of the response. -/
structure DownloadThread where
  threadInfo : ThreadInfo
  stage : Stage
  filePointer : ℕ
  inputStream : List UInt8
  deriving DecidableEq, Repr

def DownloadThread.init (info : ThreadInfo) : DownloadThread := ⟨info,.queued,0,[]⟩

def DownloadThread.rangeStart (w : DownloadThread) : ℤ :=
  i32 (w.threadInfo.start + w.threadInfo.finished)

inductive ThreadAction where
  /-- Open the file, send the Range request and get the answer. -/
  | connect (responseCode : ℕ) (body : List UInt8)
  /-- `read` delivers this many bytes, which go to the file. -/
  | read (readLen : ℕ)
  /-- The clock says whether more than 2000 ms have passed. -/
  | clock (late : Bool)
  | checkPause
  | notify
  | persist
  | endOfStream
  | ioException
  deriving DecidableEq, Repr

/-- The shared state after an action of a thread. A thread whose `run` returned is gone. -/
structure Effect where
  thread : Option DownloadThread
  task : DownloadTask
  file : List UInt8
  rows : ThreadTable
  posted : Option ℤ

def httpOk : ℕ := 200
def httpPartial : ℕ := 206

def DownloadThread.run (w : DownloadThread) (t : DownloadTask) (file : List UInt8)
    (rows : ThreadTable) : ThreadAction → Option Effect
  | .connect responseCode body =>
    -- a negative offset makes `seek` throw, which is `ioException`
    if w.stage = .queued ∧ 0 ≤ w.rangeStart then
      if responseCode = httpPartial ∨ responseCode = httpOk then
        some ⟨some ⟨w.threadInfo,.reading,w.rangeStart.toNat,body⟩,t,file,rows,none⟩
      else some ⟨none,t,file,rows,none⟩
    else none
  | .read readLen =>
    if w.stage = .reading ∧ 0 < readLen ∧ readLen ≤ w.inputStream.length then
      let finished := i32 (w.threadInfo.finished + readLen)
      some ⟨some ⟨w.threadInfo.setFinished finished,.written,w.filePointer + readLen,
        w.inputStream.drop readLen⟩,t,write file w.filePointer (w.inputStream.take readLen),rows,none⟩
    else none
  | .clock late =>
    if w.stage = .written then
      let n := if late then t.notifyProgress w.threadInfo.id w.threadInfo.finished else (t,none)
      some ⟨some { w with stage := .checking },n.1,file,rows,n.2⟩
    else none
  | .checkPause =>
    if w.stage = .checking then
      some ⟨some { w with stage := if t.isPause then .pausing else .reading },t,file,rows,none⟩
    else none
  | .notify =>
    if w.stage = .pausing then
      let n := t.notifyProgress w.threadInfo.id w.threadInfo.finished
      some ⟨some { w with stage := .persisting },n.1,file,rows,n.2⟩
    else none
  | .persist =>
    if w.stage = .persisting then
      some ⟨none,t,file,
        updateThread rows w.threadInfo.url w.threadInfo.id w.threadInfo.finished,none⟩
    else none
  | .endOfStream =>
    if w.stage = .reading ∧ w.inputStream = [] then
      let n := t.notifyProgress w.threadInfo.id w.threadInfo.finished
      some ⟨none,n.1,file,rows,n.2⟩
    else none
  | .ioException => some ⟨none,t,file,rows,none⟩

section Lemmas
variable {w : DownloadThread} {t : DownloadTask} {file : List UInt8} {rows : ThreadTable}

/-- A report reaches 100 percent exactly when it covers the whole length. -/
theorem hundred_le_percent {nowFinished lenght : ℤ} (hl : 0 < lenght) :
    100 ≤ percent nowFinished lenght ↔ lenght ≤ nowFinished := by
  have hq : 100 ≤ percent nowFinished lenght ↔ 100 ≤ (nowFinished * 100).tdiv lenght := by
    unfold percent
    omega
  rw [hq]
  constructor
  · intro h
    by_contra hn
    have hle : (nowFinished * 100).tdiv lenght ≤ (lenght * 100 - 100).tdiv lenght :=
      Int.tdiv_le_tdiv hl (by omega)
    have he : (lenght * 100 - 100).tdiv lenght = (lenght * 100 - 100) / lenght :=
      Int.tdiv_eq_ediv_of_nonneg (by omega)
    have hlt : (lenght * 100 - 100) / lenght < 100 := Int.ediv_lt_of_lt_mul hl (by omega)
    omega
  · intro h
    exact Int.le_tdiv_of_mul_le hl (by omega)

@[simp] theorem notifyProgress_taskInfo (t : DownloadTask) (threadId finished : ℤ) :
    (t.notifyProgress threadId finished).1.mTaskInfo = t.mTaskInfo := by
  unfold DownloadTask.notifyProgress
  split_ifs <;> rfl

@[simp] theorem notifyProgress_isPause (t : DownloadTask) (threadId finished : ℤ) :
    (t.notifyProgress threadId finished).1.isPause = t.isPause := by
  unfold DownloadTask.notifyProgress
  split_ifs <;> rfl

@[simp] theorem notifyProgress_threadCount (t : DownloadTask) (threadId finished : ℤ) :
    (t.notifyProgress threadId finished).1.mThreadCount = t.mThreadCount := by
  unfold DownloadTask.notifyProgress
  split_ifs <;> rfl

@[simp] theorem notifyProgress_length (t : DownloadTask) (threadId finished : ℤ) :
    (t.notifyProgress threadId finished).1.mTotalFinished.length = t.mTotalFinished.length := by
  unfold DownloadTask.notifyProgress
  split_ifs
  · exact List.length_set
  · rfl

/-- A thread moves the totals of its task and the progress of its row, nothing else. -/
structure Effect.Frame (w : DownloadThread) (t : DownloadTask) (rows : ThreadTable) (e : Effect) :
    Prop where
  taskInfo : e.task.mTaskInfo = t.mTaskInfo
  isPause : e.task.isPause = t.isPause
  threadCount : e.task.mThreadCount = t.mThreadCount
  length : e.task.mTotalFinished.length = t.mTotalFinished.length
  segments : e.rows.map ThreadInfo.segment = rows.map ThreadInfo.segment
  thread : ∀ w', e.thread = some w' → w'.threadInfo.segment = w.threadInfo.segment

/-- What a thread does in each of its actions, with the stage that the action is for. -/
inductive DownloadThread.Acts (w : DownloadThread) (t : DownloadTask) (file : List UInt8) (rows : ThreadTable) :
    ThreadAction → Effect → Prop
  | connected {responseCode : ℕ} {body : List UInt8} (stage : w.stage = .queued)
      (code : responseCode = httpPartial ∨ responseCode = httpOk) :
      w.Acts t file rows (.connect responseCode body)
        ⟨some ⟨w.threadInfo,.reading,w.rangeStart.toNat,body⟩,t,file,rows,none⟩
  | refused {responseCode : ℕ} {body : List UInt8} (stage : w.stage = .queued)
      (code : ¬ (responseCode = httpPartial ∨ responseCode = httpOk)) :
      w.Acts t file rows (.connect responseCode body) ⟨none,t,file,rows,none⟩
  | delivered {readLen : ℕ} (stage : w.stage = .reading) (pos : 0 < readLen)
      (le : readLen ≤ w.inputStream.length) :
      w.Acts t file rows (.read readLen)
        ⟨some ⟨w.threadInfo.setFinished (i32 (w.threadInfo.finished + readLen)),.written,
          w.filePointer + readLen,w.inputStream.drop readLen⟩,t,
          write file w.filePointer (w.inputStream.take readLen),rows,none⟩
  | early (stage : w.stage = .written) :
      w.Acts t file rows (.clock false) ⟨some { w with stage := .checking },t,file,rows,none⟩
  | late (stage : w.stage = .written) :
      w.Acts t file rows (.clock true)
        ⟨some { w with stage := .checking },(t.notifyProgress w.threadInfo.id w.threadInfo.finished).1,file,rows,
          (t.notifyProgress w.threadInfo.id w.threadInfo.finished).2⟩
  | checked (stage : w.stage = .checking) :
      w.Acts t file rows .checkPause
        ⟨some { w with stage := if t.isPause then .pausing else .reading },t,file,rows,none⟩
  | notified (stage : w.stage = .pausing) :
      w.Acts t file rows .notify
        ⟨some { w with stage := .persisting },(t.notifyProgress w.threadInfo.id w.threadInfo.finished).1,file,rows,
          (t.notifyProgress w.threadInfo.id w.threadInfo.finished).2⟩
  | persisted (stage : w.stage = .persisting) :
      w.Acts t file rows .persist
        ⟨none,t,file,updateThread rows w.threadInfo.url w.threadInfo.id w.threadInfo.finished,none⟩
  | ended (stage : w.stage = .reading) (nothing : w.inputStream = []) :
      w.Acts t file rows .endOfStream
        ⟨none,(t.notifyProgress w.threadInfo.id w.threadInfo.finished).1,file,rows,
          (t.notifyProgress w.threadInfo.id w.threadInfo.finished).2⟩
  | failed : w.Acts t file rows .ioException ⟨none,t,file,rows,none⟩

theorem run_acts {a : ThreadAction} {e : Effect} (h : w.run t file rows a = some e) : w.Acts t file rows a e := by
  cases a with
  | connect responseCode body =>
    simp only [DownloadThread.run] at h
    split_ifs at h with hc hcode
    · cases h
      exact .connected hc.1 hcode
    · cases h
      exact .refused hc.1 hcode
  | read readLen =>
    simp only [DownloadThread.run] at h
    split_ifs at h with hc
    cases h
    exact .delivered hc.1 hc.2.1 hc.2.2
  | clock late =>
    simp only [DownloadThread.run] at h
    split_ifs at h with hc hlate
    · cases h
      subst hlate
      exact .late hc
    · cases h
      rw [Bool.not_eq_true] at hlate
      subst hlate
      exact .early hc
  | checkPause =>
    rw [DownloadThread.run, Option.ite_none_right_eq_some] at h
    obtain ⟨hc,h⟩ := h
    cases h
    exact .checked hc
  | notify =>
    simp only [DownloadThread.run] at h
    split_ifs at h with hc
    cases h
    exact .notified hc
  | persist =>
    simp only [DownloadThread.run] at h
    split_ifs at h with hc
    cases h
    exact .persisted hc
  | endOfStream =>
    simp only [DownloadThread.run] at h
    split_ifs at h with hc
    cases h
    exact .ended hc.1 hc.2
  | ioException =>
    cases h
    exact .failed

theorem run_frame {a : ThreadAction} {e : Effect} (h : w.run t file rows a = some e) :
    e.Frame w t rows := by
  cases run_acts h with
  | connected | delivered | early | checked =>
    exact ⟨rfl,rfl,rfl,rfl,rfl,fun w' hw => by cases hw; rfl⟩
  | late | notified =>
    exact ⟨by simp,by simp,by simp,by simp,rfl,fun w' hw => by cases hw; rfl⟩
  | persisted =>
    exact ⟨rfl,rfl,rfl,rfl,updateThread_map _ segment_setFinished _ _ _ _,fun w' hw => nomatch hw⟩
  | ended => exact ⟨by simp,by simp,by simp,by simp,rfl,fun w' hw => nomatch hw⟩
  | refused | failed => exact ⟨rfl,rfl,rfl,rfl,rfl,fun w' hw => nomatch hw⟩

theorem run_finished {a : ThreadAction} {e : Effect} (hw : InRange w.threadInfo.finished)
    (h : w.run t file rows a = some e) :
    ∀ w', e.thread = some w' → InRange w'.threadInfo.finished := by
  intro w' hw'
  cases run_acts h with
  | delivered =>
    cases hw'
    exact i32_inRange _
  | connected | early | late | checked | notified =>
    cases hw'
    exact hw
  | refused | persisted | ended | failed => cases hw'

/-- A thread leaves the table alone, or persists its progress. -/
theorem run_rows_cases {a : ThreadAction} {e : Effect} (h : w.run t file rows a = some e) :
    e.rows = rows ∨ (w.stage = .persisting ∧
      e.rows = updateThread rows w.threadInfo.url w.threadInfo.id w.threadInfo.finished) := by
  cases run_acts h with
  | persisted stage => exact Or.inr ⟨stage,rfl⟩
  | connected | refused | delivered | early | late | checked | notified | ended | failed => exact Or.inl rfl

/-- A thread that can seek begins at its progress: the sum of two ints wraps to a negative one or not at all. -/
theorem rangeStart_of_nonneg (h0 : 0 ≤ w.threadInfo.start) (hlt : w.threadInfo.start < 2147483648)
    (hf : InRange w.threadInfo.finished) (h : 0 ≤ w.rangeStart) :
    w.rangeStart = w.threadInfo.start + w.threadInfo.finished := by
  obtain ⟨hmin,hmax⟩ := hf
  rcases lt_or_ge (w.threadInfo.start + w.threadInfo.finished) 0 with hneg | hpos
  · exact i32_eq ⟨by omega,by omega⟩
  · exact ((i32_eq_iff hpos (by omega) h (i32_inRange _).2).mp rfl).symm

theorem rangeStart_nonneg {responseCode : ℕ} {body : List UInt8} {e : Effect}
    (h : w.run t file rows (.connect responseCode body) = some e) : 0 ≤ w.rangeStart := by
  simp only [DownloadThread.run] at h
  split_ifs at h with hc
  · exact hc.2
  · exact hc.2

end Lemmas
end AdSystem.Download
