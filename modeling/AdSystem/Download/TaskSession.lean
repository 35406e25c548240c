import AdSystem.Library.Pool
import AdSystem.Library.Transition
import AdSystem.Download.Segments

/-! # Sessions of a download task

The life of one url over any number of processes: the table and the file stay,
the task, its threads and its messages die with the process. The server's answers
and the moments of the clock are part of the actions.
-/
namespace AdSystem.Download
open Pool ByteFile

/-- `announced` is the length in a MSG_INIT on its way, `queue` the progress messages. -/
structure Session where
  announced : Option ℤ
  task : Option DownloadTask
  threads : List DownloadThread
  queue : List ℤ
  rows : ThreadTable
  file : List UInt8
  deriving DecidableEq, Repr

def Session.fresh (rows : ThreadTable) (file : List UInt8) : Session :=
  ⟨none,none,[],[],rows,file⟩

inductive SessionAction where
  | initThread (contentLength : ℤ)
  | msgInit (threadCount : ℤ)
  | pause
  | restart
  | thread (i : ℕ) (a : ThreadAction)
  | handle
  | die
  deriving DecidableEq, Repr

/-- What the handler does with the oldest message. -/
def Session.handlerCalls (s : Session) : List Call :=
  match s.task, s.queue with
  | some t, progress :: _ => t.dispatchMessage progress
  | _, _ => []

def startThreads (infos : List ThreadInfo) : List DownloadThread := infos.map DownloadThread.init

/-- The session of a download ordered by `info`. -/
def Session.step (info : TaskInfo) (s : Session) : SessionAction → Option Session
  | .initThread contentLength =>
    if s.task = none ∧ 0 < contentLength then
      some { s with announced := some contentLength, file := setLength s.file contentLength.toNat }
    else none
  | .msgInit threadCount =>
    match s.announced, s.task with
    | some lenght, none =>
      let task := DownloadTask.init { info with lenght } threadCount
      let started := task.downlaod s.rows
      some { s with announced := none, task := some task, rows := started.1,
                    threads := startThreads started.2 }
    | _, _ => none
  | .pause => s.task.map fun t => { s with task := some t.pause }
  | .restart => s.task.map fun t =>
      let started := t.restart.downlaod s.rows
      { s with task := some t.restart, rows := started.1,
               threads := s.threads ++ startThreads started.2 }
  | .thread i a =>
    match s.task, s.threads[i]? with
    | some t, some w => (w.run t s.file s.rows a).map fun e =>
        { s with task := some e.task, threads := update s.threads i e.thread,
                 queue := s.queue ++ e.posted.toList, rows := e.rows, file := e.file }
    | _, _ => none
  | .handle =>
    match s.task, s.queue with
    | some t, progress :: queue =>
      let rows := if t.finishes progress then deleteThread s.rows t.mTaskInfo.url else s.rows
      some { s with queue, rows }
    | _, _ => none
  | .die => some (Session.fresh s.rows s.file)

/-- What a session does in each of its actions. -/
inductive Session.Acts (info : TaskInfo) (s : Session) : SessionAction → Session → Prop
  | announced {contentLength : ℤ} (task : s.task = none) (pos : 0 < contentLength) :
      s.Acts info (.initThread contentLength)
        { s with announced := some contentLength, file := setLength s.file contentLength.toNat }
  | initialized {threadCount lenght : ℤ} (ann : s.announced = some lenght) (task : s.task = none) :
      s.Acts info (.msgInit threadCount)
        { s with
          announced := none, task := some (DownloadTask.init { info with lenght } threadCount)
          rows := ((DownloadTask.init { info with lenght } threadCount).downlaod s.rows).1
          threads := startThreads ((DownloadTask.init { info with lenght } threadCount).downlaod s.rows).2 }
  | paused {t : DownloadTask} (task : s.task = some t) : s.Acts info .pause { s with task := some t.pause }
  | restarted {t : DownloadTask} (task : s.task = some t) :
      s.Acts info .restart
        { s with
          task := some t.restart, rows := (t.restart.downlaod s.rows).1
          threads := s.threads ++ startThreads (t.restart.downlaod s.rows).2 }
  | ran {t : DownloadTask} {w : DownloadThread} {i : ℕ} {a : ThreadAction} {e : Effect}
      (task : s.task = some t) (thread : s.threads[i]? = some w) (run : w.run t s.file s.rows a = some e) :
      s.Acts info (.thread i a)
        { s with
          task := some e.task, threads := update s.threads i e.thread,
          queue := s.queue ++ e.posted.toList, rows := e.rows, file := e.file }
  | handled {t : DownloadTask} {progress : ℤ} {queue : List ℤ} (task : s.task = some t)
      (queued : s.queue = progress :: queue) :
      s.Acts info .handle
        { s with
          queue, rows := if t.finishes progress then deleteThread s.rows t.mTaskInfo.url else s.rows }
  | died : s.Acts info .die (Session.fresh s.rows s.file)

theorem Session.step_acts {info : TaskInfo} {s u : Session} {a : SessionAction} (h : s.step info a = some u) :
    s.Acts info a u := by
  cases a with
  | initThread contentLength =>
    simp only [Session.step] at h
    split_ifs at h with hc
    cases h
    exact .announced hc.1 hc.2
  | msgInit threadCount =>
    simp only [Session.step] at h
    split at h
    · rename_i ha ht
      cases h
      exact .initialized ha ht
    · cases h
  | pause =>
    obtain ⟨t,ht,rfl⟩ := Option.map_eq_some_iff.mp h
    exact .paused ht
  | restart =>
    obtain ⟨t,ht,rfl⟩ := Option.map_eq_some_iff.mp h
    exact .restarted ht
  | thread i a =>
    simp only [Session.step] at h
    split at h
    · rename_i t w ht hw
      obtain ⟨e,he,rfl⟩ := Option.map_eq_some_iff.mp h
      exact .ran ht hw he
    · cases h
  | handle =>
    simp only [Session.step] at h
    split at h
    · rename_i ht hq
      cases h
      exact .handled ht hq
    · cases h
  | die =>
    cases h
    exact .died

/-- The bytes a Range request names, clipped to the resource. -/
def requestedBytes (resource : List UInt8) (w : DownloadThread) : List UInt8 :=
  (resource.take (w.threadInfo.«end» + 1).toNat).drop w.rangeStart.toNat

/-- The request asks for every byte of the resource. -/
def AsksForAll (resource : List UInt8) (w : DownloadThread) : Prop :=
  w.rangeStart = 0 ∧ resource.length ≤ (w.threadInfo.«end» + 1).toNat

/-- The answers the server may give: the requested part, or the whole body. -/
def Answers (resource : List UInt8) (w : DownloadThread) (responseCode : ℕ) (body : List UInt8) :
    Prop :=
  (responseCode = httpPartial ∧ body = requestedBytes resource w) ∨
    (responseCode = httpOk ∧ body = resource)

/-- One resource, one thread count, and answers that meet `ok`. -/
def ServedBy (resource : List UInt8) (T : ℕ)
    (ok : DownloadThread → ℕ → List UInt8 → Prop) (s : Session) : SessionAction → Prop
  | .initThread contentLength => contentLength = resource.length
  | .msgInit threadCount => threadCount = T
  | .thread i (.connect responseCode body) =>
    ∀ w ∈ s.threads[i]?, ok w responseCode body
  | _ => True

section Decidability
variable (resource : List UInt8)

instance (w : DownloadThread) : Decidable (AsksForAll resource w) :=
  inferInstanceAs (Decidable (_ ∧ _))

instance (w : DownloadThread) (responseCode : ℕ) (body : List UInt8) :
    Decidable (Answers resource w responseCode body) :=
  inferInstanceAs (Decidable (_ ∨ _))

instance (T : ℕ) (ok : DownloadThread → ℕ → List UInt8 → Prop) [∀ w c b, Decidable (ok w c b)]
    (s : Session) : ∀ a, Decidable (ServedBy resource T ok s a)
  | .initThread contentLength => inferInstanceAs (Decidable (contentLength = resource.length))
  | .msgInit threadCount => inferInstanceAs (Decidable (threadCount = (T : ℤ)))
  | .thread i (.connect responseCode body) =>
    inferInstanceAs (Decidable (∀ w ∈ s.threads[i]?, ok w responseCode body))
  | .thread _ (.read _) | .thread _ (.clock _) | .thread _ .checkPause | .thread _ .notify
  | .thread _ .persist | .thread _ .endOfStream | .thread _ .ioException
  | .pause | .restart | .handle | .die => isTrue trivial

end Decidability

end AdSystem.Download
