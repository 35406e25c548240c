import AdSystem.Schedule.AdImageCtrl

/-! # The messages to the playlists

`VideoDownloadReceiver` and `ImageDownloadReceiver` take the same messages, each for
the tables of its kind. A message changes the tables and then calls the player.
-/
namespace AdSystem.Schedule
open Query
open Policy (Media utf16 compareUnits)

/-- A message with its parameters. Of the downloads of a message what counts here is their
completion, each with its file. -/
inductive Message where
  /-- The URLs, in the order in which their downloads complete. -/
  | download (urls : List JString)
  | delete (fileNames : List JString)
  | intervalAdd (startInterval endInterval : JString) (fileNames : List JString)
  | intervalDelete (startInterval endInterval : JString)
  | intervalClear (param : Bool)
  deriving DecidableEq, Repr

/-- The directory of either kind, and the absolute path of the file that a URL is
downloaded to; `URLUtil.guessFileName` names it. -/
structure Storage where
  resPath : Media → JString
  downloadFile : Media → JString → JString

/-- What follows the last `/`. -/
def lastComponent (fullPath : JString) : JString :=
  (fullPath.reverse.takeWhile (fun c => c ≠ 47)).reverse

/-- The check of the times of an interval message. -/
def accepted (startInterval endInterval : JString) : Bool :=
  ¬ (startInterval.length ≠ 8 ∨ endInterval.length ≠ 8 ∨ compareUnits endInterval startInterval < 0)

namespace FileListMgr
variable (storage : Storage) (m : Media)

/-- `onDownloadFinished`, as far as the tables go. -/
def downloadFinished (db : FileListMgr) (fullPath : JString) : FileListMgr :=
  { db with disk := insert fullPath db.disk }.insertFile m (lastComponent fullPath) fullPath

/-- The rows of an accepted interval. -/
def insertInterval (db : FileListMgr) (startInterval endInterval : JString) (fileNames : List JString) :
    FileListMgr :=
  fileNames.foldl
    (fun db fileName =>
      db.insertTime m startInterval endInterval fileName (storage.resPath m ++ utf16 "/" ++ fileName)) db

/-- `receiveMessage`, as far as the tables go, with the downloads completed. -/
def receive (db : FileListMgr) : Message → FileListMgr
  | .download urls => urls.foldl (fun db url => db.downloadFinished m (storage.downloadFile m url)) db
  | .delete fileNames => fileNames.foldl (fun db fileName => db.deleteFile m fileName) db
  | .intervalAdd startInterval endInterval fileNames =>
    if accepted startInterval endInterval then db.insertInterval storage m startInterval endInterval fileNames
    else db
  | .intervalDelete startInterval endInterval =>
    if accepted startInterval endInterval then db.deleteTime m startInterval endInterval else db
  | .intervalClear param => if param then db.clearTimeInterval m else db

/-- The tables after these messages to the receivers of either kind. -/
def reached (messages : List (Media × Message)) : FileListMgr :=
  messages.foldl (fun db msg => db.receive storage msg.1 msg.2) created

section Tables
variable (storage : Storage) (m : Media) (db : FileListMgr)

def downloadRow (url : JString) : FileRow :=
  ⟨lastComponent (storage.downloadFile m url),storage.downloadFile m url⟩

def intervalRow (startInterval endInterval fileName : JString) : TimeRow :=
  ⟨startInterval,endInterval,fileName,storage.resPath m ++ utf16 "/" ++ fileName⟩

theorem receive_download (urls : List JString) :
    (db.receive storage m (.download urls)).fileTable =
        Function.update db.fileTable m (db.fileTable m ++ urls.map (downloadRow storage m)) ∧
      (db.receive storage m (.download urls)).timeTable = db.timeTable := by
  simp only [receive]
  induction urls generalizing db with
  | nil => exact ⟨by simp,rfl⟩
  | cons url urls ih =>
    obtain ⟨hfile,htime⟩ := ih (db.downloadFinished m (storage.downloadFile m url))
    refine ⟨?_,htime⟩
    rw [List.foldl_cons, hfile]
    simp [downloadFinished, insertFile, downloadRow]

theorem insertInterval_tables (startInterval endInterval : JString) (fileNames : List JString) :
    (db.insertInterval storage m startInterval endInterval fileNames).fileTable = db.fileTable ∧
      (db.insertInterval storage m startInterval endInterval fileNames).timeTable =
        Function.update db.timeTable m
          (db.timeTable m ++ fileNames.map (intervalRow storage m startInterval endInterval)) := by
  unfold insertInterval
  induction fileNames generalizing db with
  | nil => exact ⟨rfl,by simp⟩
  | cons fileName fileNames ih =>
    obtain ⟨hfile,htime⟩ := ih (db.insertTime m startInterval endInterval fileName
      (storage.resPath m ++ utf16 "/" ++ fileName))
    refine ⟨hfile,?_⟩
    rw [List.foldl_cons, htime]
    simp [insertTime, intervalRow]

theorem receive_delete (fileNames : List JString) :
    (db.receive storage m (.delete fileNames)).fileTable =
        Function.update db.fileTable m ((db.fileTable m).filter fun r => r.filename ∉ fileNames) ∧
      (db.receive storage m (.delete fileNames)).timeTable =
        Function.update db.timeTable m ((db.timeTable m).filter fun r => r.filename ∉ fileNames) := by
  simp only [receive]
  induction fileNames generalizing db with
  | nil => exact ⟨by simp,by simp⟩
  | cons fileName fileNames ih =>
    obtain ⟨hfile,htime⟩ := ih (db.deleteFile m fileName)
    rw [List.foldl_cons, hfile, htime]
    constructor
    · simp [deleteFile, List.filter_filter, Bool.and_comm]
    · simp [deleteFile, List.filter_filter, Bool.and_comm]

theorem mem_intervals_insertInterval_iff {startInterval endInterval : JString} {fileNames : List JString}
    {n : Media} {i : JString × JString} :
    i ∈ (db.insertInterval storage m startInterval endInterval fileNames).intervals n ↔
      i ∈ db.intervals n ∨ n = m ∧ fileNames ≠ [] ∧ i = (startInterval,endInterval) := by
  rw [intervals, (insertInterval_tables storage m db startInterval endInterval fileNames).2]
  by_cases hn : n = m
  · subst hn
    rw [Function.update_self, List.map_append, List.mem_append, List.map_map]
    have hrows : i ∈ fileNames.map (TimeRow.interval ∘ intervalRow storage n startInterval endInterval) ↔
        n = n ∧ fileNames ≠ [] ∧ i = (startInterval,endInterval) := by
      rw [List.mem_map]
      constructor
      · rintro ⟨fileName,hf,rfl⟩
        exact ⟨rfl,List.ne_nil_of_mem hf,rfl⟩
      · rintro ⟨_,hne,rfl⟩
        obtain ⟨fileName,hf⟩ := List.exists_mem_of_ne_nil _ hne
        exact ⟨fileName,hf,rfl⟩
    exact or_congr_right hrows
  · rw [Function.update_of_ne hn]
    simp [hn, intervals]

theorem mem_intervals_insertInterval {startInterval endInterval : JString} {fileNames : List JString} {n : Media}
    {i : JString × JString}
    (h : i ∈ (db.insertInterval storage m startInterval endInterval fileNames).intervals n) :
    i ∈ db.intervals n ∨ i = (startInterval,endInterval) :=
  ((mem_intervals_insertInterval_iff storage m db).mp h).imp_right fun hnew => hnew.2.2

end Tables

end FileListMgr

/-- The call to the player that a message ends with; the downloads count their completions
for it. -/
def Message.call : Message → Option UpdateMedia
  | .download _ => some .updateWhenStrategyChanged
  | .delete _ => some .updateWhenFileDelete
  | .intervalAdd startInterval endInterval _ =>
    if accepted startInterval endInterval then some (.updateWhenIntervalAddOrEdit startInterval endInterval)
    else none
  | .intervalDelete startInterval endInterval =>
    if accepted startInterval endInterval then some (.updateWhenIntervalDelete startInterval endInterval)
    else none
  | .intervalClear param => if param then some .updateWhenStrategyChanged else none

end AdSystem.Schedule
