import AdSystem.Download.TaskSession

/-! # Rows stored one by one

`downlaod` stores the rows it makes one after the other, and starts its threads when all of
them are stored. The process may die in between, and threads that are still running go on.
-/
namespace AdSystem.Download
open Pool ByteFile Transition

/-- A session, and the rows that its main thread still has to store, if it is storing any. -/
structure StoringSession where
  session : Session
  inserting : Option (List ThreadInfo)
  deriving DecidableEq, Repr

inductive StoringAction where
  | session (a : SessionAction)
  /-- The next row is stored, or the threads are started when no row is left. -/
  | insertNext
  deriving DecidableEq, Repr

namespace StoringSession

def fresh (rows : ThreadTable) (file : List UInt8) : StoringSession := ⟨Session.fresh rows file,none⟩

/-- `downlaod` up to the rows that it stores. -/
def downlaod (s : Session) (t : DownloadTask) : StoringSession :=
  let threadInfoList := getThread s.rows t.mTaskInfo.url
  if threadInfoList.length ≤ 0 then ⟨{ s with task := some t },some t.newThreads⟩
  else ⟨{ s with task := some t, threads := s.threads ++ startThreads threadInfoList },none⟩

/-- While rows are stored the main thread takes no other step; the process may end at any time. -/
def step (info : TaskInfo) (s : StoringSession) : StoringAction → Option StoringSession
  | .session (.thread i a) => (s.session.step info (.thread i a)).map fun u => ⟨u,s.inserting⟩
  | .session .die => some (fresh s.session.rows s.session.file)
  | .session (.msgInit threadCount) =>
    match s.inserting, s.session.announced, s.session.task with
    | none, some lenght, none =>
      some (downlaod { s.session with announced := none, threads := [] }
        (DownloadTask.init { info with lenght } threadCount))
    | _, _, _ => none
  | .session .restart =>
    match s.inserting, s.session.task with
    | none, some t => some (downlaod s.session t.restart)
    | _, _ => none
  | .session (.initThread contentLength) =>
    -- `getContentLength` returns an `int`
    if s.inserting = none ∧ contentLength < 2147483648 then
      (s.session.step info (.initThread contentLength)).map fun u => ⟨u,none⟩
    else none
  | .session .pause =>
    if s.inserting = none then (s.session.step info .pause).map fun u => ⟨u,none⟩ else none
  | .session .handle =>
    if s.inserting = none then (s.session.step info .handle).map fun u => ⟨u,none⟩ else none
  | .insertNext =>
    match s.inserting, s.session.task with
    | some (r :: rest), some _ =>
      some ⟨{ s.session with rows := insertThread s.session.rows r },some rest⟩
    | some [], some t =>
      some ⟨{ s.session with threads := s.session.threads ++ startThreads t.newThreads },none⟩
    | _, _ => none

/-- What a session does in each of its actions. -/
inductive Acts (info : TaskInfo) (s : StoringSession) : StoringAction → StoringSession → Prop
  | announced {contentLength : ℤ} (idle : s.inserting = none) (pos : 0 < contentLength)
      (lt : contentLength < 2147483648) :
      s.Acts info (.session (.initThread contentLength))
        ⟨{ s.session with
            announced := some contentLength, file := setLength s.session.file contentLength.toNat },none⟩
  | initialized {threadCount lenght : ℤ} (idle : s.inserting = none)
      (ann : s.session.announced = some lenght) (task : s.session.task = none) :
      s.Acts info (.session (.msgInit threadCount))
        (downlaod { s.session with announced := none, threads := [] }
          (DownloadTask.init { info with lenght } threadCount))
  | restarted {t : DownloadTask} (idle : s.inserting = none) (task : s.session.task = some t) :
      s.Acts info (.session .restart) (downlaod s.session t.restart)
  | paused {t : DownloadTask} (idle : s.inserting = none) (task : s.session.task = some t) :
      s.Acts info (.session .pause) ⟨{ s.session with task := some t.pause },none⟩
  | ran {t : DownloadTask} {w : DownloadThread} {i : ℕ} {a : ThreadAction} {e : Effect}
      (task : s.session.task = some t) (thread : s.session.threads[i]? = some w)
      (run : w.run t s.session.file s.session.rows a = some e) :
      s.Acts info (.session (.thread i a))
        ⟨{ s.session with
            task := some e.task, threads := update s.session.threads i e.thread,
            queue := s.session.queue ++ e.posted.toList, rows := e.rows, file := e.file },s.inserting⟩
  | handled {t : DownloadTask} {progress : ℤ} {queue : List ℤ} (idle : s.inserting = none)
      (task : s.session.task = some t) (queued : s.session.queue = progress :: queue) :
      s.Acts info (.session .handle)
        ⟨{ s.session with
            queue
            rows := if t.finishes progress then deleteThread s.session.rows t.mTaskInfo.url
              else s.session.rows },none⟩
  | died : s.Acts info (.session .die) (fresh s.session.rows s.session.file)
  | stored {t : DownloadTask} {r : ThreadInfo} {rest : List ThreadInfo}
      (inserting : s.inserting = some (r :: rest)) (task : s.session.task = some t) :
      s.Acts info .insertNext ⟨{ s.session with rows := insertThread s.session.rows r },some rest⟩
  | started {t : DownloadTask} (inserting : s.inserting = some []) (task : s.session.task = some t) :
      s.Acts info .insertNext
        ⟨{ s.session with threads := s.session.threads ++ startThreads t.newThreads },none⟩

variable {info : TaskInfo} {s u : StoringSession}

theorem step_acts {a : StoringAction} (h : step info s a = some u) : s.Acts info a u := by
  cases a with
  | insertNext =>
    simp only [step] at h
    split at h
    · rename_i hi ht
      cases h
      exact .stored hi ht
    · rename_i hi ht
      cases h
      exact .started hi ht
    · cases h
  | session a =>
    cases a with
    | initThread contentLength =>
      simp only [step] at h
      split_ifs at h with hi
      obtain ⟨v,hv,rfl⟩ := Option.map_eq_some_iff.mp h
      cases Session.step_acts hv with
      | announced _ pos => exact .announced hi.1 pos hi.2
    | msgInit threadCount =>
      simp only [step] at h
      split at h
      · rename_i hi ha ht
        cases h
        exact .initialized hi ha ht
      · cases h
    | pause =>
      simp only [step] at h
      split_ifs at h with hi
      obtain ⟨v,hv,rfl⟩ := Option.map_eq_some_iff.mp h
      cases Session.step_acts hv with
      | paused task => exact .paused hi task
    | restart =>
      simp only [step] at h
      split at h
      · rename_i hi ht
        cases h
        exact .restarted hi ht
      · cases h
    | thread i a =>
      obtain ⟨v,hv,rfl⟩ := Option.map_eq_some_iff.mp h
      cases Session.step_acts hv with
      | ran task thread run => exact .ran task thread run
    | handle =>
      simp only [step] at h
      split_ifs at h with hi
      obtain ⟨v,hv,rfl⟩ := Option.map_eq_some_iff.mp h
      cases Session.step_acts hv with
      | handled task queued => exact .handled hi task queued
    | die =>
      cases h
      exact .died

/-- Storing all the rows that are left leads to where the session gets in one step. -/
theorem exec_insertNext {t : DownloadTask} {s : Session} (ht : s.task = some t) (rest : List ThreadInfo) :
    exec (step info) ⟨s,some rest⟩ (List.replicate (rest.length + 1) .insertNext) =
      some ⟨{ s with
        rows := rest.foldl insertThread s.rows, threads := s.threads ++ startThreads t.newThreads },none⟩ := by
  induction rest generalizing s with
  | nil =>
    rw [List.length_nil, List.replicate_succ, exec_cons_eq_some]
    exact ⟨_,by simp only [step, ht, List.foldl_nil],rfl⟩
  | cons r rest ih =>
    rw [List.length_cons, List.replicate_succ, exec_cons_eq_some]
    refine ⟨⟨{ s with rows := insertThread s.rows r },some rest⟩,by simp only [step, ht],?_⟩
    rw [ih (s := { s with rows := insertThread s.rows r }) ht, List.foldl_cons]

/-- `downlaod` with its rows stored without interruption. -/
theorem exec_downlaod (info : TaskInfo) (s : Session) (t : DownloadTask) : ∃ n,
    exec (step info) (downlaod s t) (List.replicate n .insertNext) =
      some ⟨{ s with
        task := some t, rows := (t.downlaod s.rows).1
        threads := s.threads ++ startThreads (t.downlaod s.rows).2 },none⟩ := by
  unfold downlaod
  rcases downlaod_cases t s.rows with ⟨hne,hd⟩ | ⟨hnil,hd⟩
  · refine ⟨0,?_⟩
    rw [if_neg (by simpa using hne), hd]
    rfl
  · refine ⟨t.newThreads.length + 1,?_⟩
    rw [if_pos (by simp [hnil]), exec_insertNext rfl, hd, foldl_insertThread]

/-- A session in which no row is stored halfway takes the steps of `Session.step`. -/
theorem exec_of_session {s u : Session} {a : SessionAction}
    (hlt : ∀ contentLength, a = .initThread contentLength → contentLength < 2147483648)
    (h : s.step info a = some u) :
    ∃ n, exec (step info) ⟨s,none⟩ (.session a :: List.replicate n .insertNext) = some ⟨u,none⟩ := by
  cases a with
  | msgInit threadCount =>
    simp only [Session.step] at h
    split at h
    · rename_i lenght ha ht
      cases h
      obtain ⟨n,hn⟩ := exec_downlaod info { s with announced := none, threads := [] }
        (DownloadTask.init { info with lenght } threadCount)
      exact ⟨n,(exec_cons_eq_some _).mpr ⟨_,by simp only [step, ha, ht],hn⟩⟩
    · cases h
  | restart =>
    obtain ⟨t,ht,rfl⟩ := Option.map_eq_some_iff.mp h
    obtain ⟨n,hn⟩ := exec_downlaod info s t.restart
    exact ⟨n,(exec_cons_eq_some _).mpr ⟨_,by simp only [step, ht],hn⟩⟩
  | initThread contentLength =>
    exact ⟨0,(exec_cons_eq_some _).mpr ⟨_,by simp only [step, hlt contentLength rfl, h]; rfl,rfl⟩⟩
  | pause => exact ⟨0,(exec_cons_eq_some _).mpr ⟨_,by simp only [step, h]; rfl,rfl⟩⟩
  | handle => exact ⟨0,(exec_cons_eq_some _).mpr ⟨_,by simp only [step, h]; rfl,rfl⟩⟩
  | thread i a => exact ⟨0,(exec_cons_eq_some _).mpr ⟨_,by simp only [step, h]; rfl,rfl⟩⟩
  | die =>
    cases h
    exact ⟨0,rfl⟩

end StoringSession
end AdSystem.Download
