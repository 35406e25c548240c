import Mathlib.Logic.Function.Basic
import AdSystem.Library.Pool
import AdSystem.Library.Transition
import AdSystem.Download.Segments

/-! # The download service

Requests, handlers and broadcasts run on the main thread, the init threads and the
download threads in a pool. All messages go through the one queue of the main
thread. The size of the pool only limits which of these actions can come next.
-/
namespace AdSystem.Download
open Pool ByteFile

/-- What the connection of an init thread and the file system tell it. -/
structure InitAnswer where
  responseCode : ℕ
  contentLength : ℤ
  defaultPath : String
  headerName : String
  deriving DecidableEq, Repr

def isEmpty : Option String → Bool
  | none => true
  | some s => s = ""

/-- The part of the link after its last slash. -/
def lastSegment (url : String) : String :=
  String.ofList (url.toList.reverse.takeWhile (fun c => c ≠ '/')).reverse

/-- The order an init thread sends back in MSG_INIT, if it sends one. -/
def initThreadRun (taskInfo : TaskInfo) (answer : InitAnswer) : Option TaskInfo :=
  if answer.responseCode = httpOk ∧ 0 < answer.contentLength then
    let filePath := if isEmpty taskInfo.filePath then some answer.defaultPath else taskInfo.filePath
    let fileName := if isEmpty taskInfo.fileName then some (lastSegment taskInfo.url) else taskInfo.fileName
    let fileName := if isEmpty fileName then some answer.headerName else fileName
    some { taskInfo with lenght := answer.contentLength, filePath, fileName }
  else none

/-- A message of the main thread; a progress message goes to the handler of its task. -/
inductive Message where
  | init (info : TaskInfo)
  | downloadFinished (url : String)
  | downloading (task : ℕ) (progress : ℤ)
  deriving DecidableEq, Repr

/-- A download thread and the task it was started by. -/
structure Worker where
  task : ℕ
  thread : DownloadThread
  deriving DecidableEq, Repr

abbrev FileKey := Option String × Option String

def TaskInfo.file (info : TaskInfo) : FileKey := (info.filePath,info.fileName)

/-- Tasks are objects: `mListTask`, threads and messages refer to them by number. -/
structure Service where
  task : ℕ → DownloadTask
  made : ℕ
  mListTask : List ℕ
  initThreads : List TaskInfo
  workers : List Worker
  queue : List Message
  broadcasts : List String
  rows : ThreadTable
  files : FileKey → List UInt8

def noTask : DownloadTask := DownloadTask.init ⟨"",none,none,0,none⟩ 1

def Service.onCreate (rows : ThreadTable) (files : FileKey → List UInt8) : Service :=
  ⟨fun _ => noTask,0,[],[],[],[],[],rows,files⟩

inductive ServiceAction where
  | download (info : TaskInfo)
  | pause (url : String)
  | onLowMemory
  /-- An init thread ends, by an exception or with this answer. -/
  | initThread (i : ℕ) (answer : Option InitAnswer)
  | worker (i : ℕ) (a : ThreadAction)
  | dispatch
  /-- The receiver gets one of the broadcasts in flight. -/
  | receive (i : ℕ)
  deriving DecidableEq, Repr

namespace Service
variable (s : Service)

def url (k : ℕ) : String := (s.task k).mTaskInfo.url

def find (url : String) : Option ℕ := s.mListTask.find? (fun k => s.url k = url)

def setTask (k : ℕ) (t : DownloadTask) : Service := { s with task := Function.update s.task k t }

def start (k : ℕ) : Service :=
  let started := (s.task k).downlaod s.rows
  { s with rows := started.1,
           workers := s.workers ++ started.2.map fun info => ⟨k,DownloadThread.init info⟩ }

def download (info : TaskInfo) : Service :=
  match s.find info.url with
  | some k => if (s.task k).isPause then (s.setTask k (s.task k).restart).start k else s
  | none => { s with initThreads := s.initThreads ++ [info] }

def pause (url : String) : Service :=
  match s.find url with
  | some k => s.setTask k (s.task k).pause
  | none => s

def onLowMemory : Service :=
  { s with task := fun k => if k ∈ s.mListTask then (s.task k).pause else s.task k }

def initDone (i : ℕ) (info : TaskInfo) (answer : Option InitAnswer) : Service :=
  let s := { s with initThreads := s.initThreads.eraseIdx i }
  match answer.bind (initThreadRun info) with
  | some info => { s with
      queue := s.queue ++ [.init info],
      files := Function.update s.files info.file (setLength (s.files info.file) info.lenght.toNat) }
  | none => s

/-- The state after a download thread acted on what it shares. -/
def applyEffect (i : ℕ) (k : ℕ) (e : Effect) : Service :=
  { s with
    task := Function.update s.task k e.task,
    workers := update s.workers i (e.thread.map (Worker.mk k)),
    queue := s.queue ++ (e.posted.map (Message.downloading k)).toList,
    rows := e.rows,
    files := Function.update s.files (s.task k).mTaskInfo.file e.file }

def handleMessage : Message → Service
  | .init info =>
    { s with
      task := Function.update s.task s.made (DownloadTask.init info 1),
      made := s.made + 1,
      mListTask := s.mListTask ++ [s.made] : Service }.start s.made
  | .downloadFinished url => { s with mListTask := s.mListTask.eraseP (fun k => s.url k = url) }
  | .downloading k progress =>
    if (s.task k).finishes progress then
      { s with broadcasts := s.broadcasts ++ [s.url k], rows := deleteThread s.rows (s.url k) }
    else s

def step : ServiceAction → Option Service
  | .download info => some (s.download info)
  | .pause url => some (s.pause url)
  | .onLowMemory => some s.onLowMemory
  | .initThread i answer => s.initThreads[i]?.map fun info => s.initDone i info answer
  | .worker i a =>
    s.workers[i]?.bind fun w =>
      (w.thread.run (s.task w.task) (s.files (s.task w.task).mTaskInfo.file) s.rows a).map
        (s.applyEffect i w.task)
  | .dispatch =>
    match s.queue with
    | [] => none
    | message :: queue => some ({ s with queue : Service }.handleMessage message)
  | .receive i =>
    s.broadcasts[i]?.map fun url =>
      { s with broadcasts := s.broadcasts.eraseIdx i, queue := s.queue ++ [.downloadFinished url] }

/-- The calls made by an action: only the handlers of the tasks make any. -/
def calls : ServiceAction → List Call
  | .dispatch =>
    match s.queue with
    | .downloading k progress :: _ => (s.task k).dispatchMessage progress
    | _ => []
  | _ => []

end Service
end AdSystem.Download
