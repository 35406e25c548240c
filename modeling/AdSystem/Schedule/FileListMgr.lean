import AdSystem.Library.Query
import AdSystem.Policy.MediaStrategyMgr

/-! # The tables of the playlists

`FileListMgr` keeps the files of either kind and, for intervals of the day, the
files to play in them. Nothing in the tables is unique: rows are added without
looking, and only some of the queries ask for distinct rows.
-/
namespace AdSystem.Schedule
open Query
open Policy (Media utf16 compareUnits)

/-- A string of a message or of a table, as its code units. -/
abbrev JString := List ℕ

def isTimeInInterval (time timeStart timeEnd : JString) : Bool :=
  0 ≤ compareUnits time timeStart ∧ compareUnits time timeEnd ≤ 0

/-- The test that the policies use, on strings that are not null. -/
theorem isTimeInInterval_eq (time timeStart timeEnd : String) :
    Policy.isTimeInInterval time (some timeStart) (some timeEnd) =
      .ok (isTimeInInterval (utf16 time) (utf16 timeStart) (utf16 timeEnd)) := by
  unfold Policy.isTimeInInterval isTimeInInterval Policy.compareTo
  by_cases h : 0 ≤ compareUnits (utf16 time) (utf16 timeStart)
  · simp only [Policy.required, bind, Except.bind, pure, Except.pure, h, if_true, true_and]
  · simp [Policy.required, bind, Except.bind, pure, Except.pure, h]

/-- A row of `ImageTable` or `VideoTable`. -/
structure FileRow where
  filename : JString
  fullpath : JString
  deriving DecidableEq, Repr

/-- A row of `TimeForImage` or `TimeForVideo`. -/
structure TimeRow where
  starttime : JString
  endtime : JString
  filename : JString
  fullpath : JString
  deriving DecidableEq, Repr

def TimeRow.interval (r : TimeRow) : JString × JString := (r.starttime,r.endtime)

/-- The tables of both kinds, rows in the order of their ids, and the files on the device. -/
structure FileListMgr where
  fileTable : Media → List FileRow
  timeTable : Media → List TimeRow
  disk : Finset JString

namespace FileListMgr

def created : FileListMgr := ⟨fun _ => [],fun _ => [],∅⟩

section Inserts
variable (db : FileListMgr) (m : Media)

def insertFile (filename fullPath : JString) : FileListMgr :=
  { db with fileTable := Function.update db.fileTable m (db.fileTable m ++ [⟨filename,fullPath⟩]) }

def insertImageFile (filename fullPath : JString) : FileListMgr := db.insertFile .image filename fullPath
def insertVideoFile (filename fullPath : JString) : FileListMgr := db.insertFile .video filename fullPath

def insertTime (startTime endTime fileName filePath : JString) : FileListMgr :=
  { db with
    timeTable := Function.update db.timeTable m (db.timeTable m ++ [⟨startTime,endTime,fileName,filePath⟩]) }

def insertTime4Video (startTime endTime fileName filePath : JString) : FileListMgr :=
  db.insertTime .video startTime endTime fileName filePath
def insertTime4Image (startTime endTime fileName filePath : JString) : FileListMgr :=
  db.insertTime .image startTime endTime fileName filePath

end Inserts

section Deletes
variable (db : FileListMgr) (m : Media)

/-- The files of the matching rows go from the device, then the rows of both tables. -/
def deleteFile (fileName : JString) : FileListMgr where
  fileTable := Function.update db.fileTable m ((db.fileTable m).filter (fun r => r.filename ≠ fileName))
  timeTable := Function.update db.timeTable m ((db.timeTable m).filter (fun r => r.filename ≠ fileName))
  disk := ((db.fileTable m).filter (fun r => r.filename = fileName)).foldl
    (fun disk r => if r.fullpath ∈ disk then disk.erase r.fullpath else disk) db.disk

def deleteImageFile (fileName : JString) : FileListMgr := db.deleteFile .image fileName
def deleteVideoFile (fileName : JString) : FileListMgr := db.deleteFile .video fileName

def deleteTime (startTime endTime : JString) : FileListMgr :=
  { db with
    timeTable := Function.update db.timeTable m
      ((db.timeTable m).filter (fun r => r.interval ≠ (startTime,endTime))) }

def deleteVideoTime (startTime endTime : JString) : FileListMgr := db.deleteTime .video startTime endTime
def deleteImageTime (startTime endTime : JString) : FileListMgr := db.deleteTime .image startTime endTime

def clearTimeInterval : FileListMgr := { db with timeTable := Function.update db.timeTable m [] }

def clearImageTimeInterval : FileListMgr := db.clearTimeInterval .image
def clearVideoTimeInterval : FileListMgr := db.clearTimeInterval .video

end Deletes

section Queries
variable (q : Distinct) (db : FileListMgr) (m : Media)

/-- The paths stored for an interval, a path for every row. -/
def pathsIn (startTime endTime : JString) : List JString :=
  ((db.timeTable m).filter (fun r => r.interval = (startTime,endTime))).map TimeRow.fullpath

def paths : List JString := (db.fileTable m).map FileRow.fullpath

def intervals : List (JString × JString) := (db.timeTable m).map TimeRow.interval

def getImageInInterval (startTime endTime : JString) : Cursor JString :=
  .ofRows (db.pathsIn .image startTime endTime)

/-- Unlike for the images, the query is for distinct rows. -/
def getVideoInInterval (startTime endTime : JString) : Cursor JString :=
  .ofRows (q.list (db.pathsIn .video startTime endTime))

def getAllFile : Cursor JString := (Cursor.ofRows (db.paths m)).moveToFirst.1

def getAllImageFile : Cursor JString := db.getAllFile .image
def getAllVideoFile : Cursor JString := db.getAllFile .video

def getAllTimeInterval : Cursor (JString × JString) := .ofRows (q.list (db.intervals m))

def getAllVideoTimeInterval : Cursor (JString × JString) := db.getAllTimeInterval q .video
def getAllImageTimeInterval : Cursor (JString × JString) := db.getAllTimeInterval q .image

/-- The first interval of the query that the time is in. -/
def isCurrentTimeInIntervel (currentTime : JString) : Option (JString × JString) :=
  (db.getAllTimeInterval q m).rows.find? fun i => isTimeInInterval currentTime i.1 i.2

def isCurrentTimeInVideoIntervel (currentTime : JString) : Option (JString × JString) :=
  db.isCurrentTimeInIntervel q .video currentTime
def isCurrentTimeInImageIntervel (currentTime : JString) : Option (JString × JString) :=
  db.isCurrentTimeInIntervel q .image currentTime

def getInInterval (startTime endTime : JString) : Cursor JString :=
  match m with
  | .image => db.getImageInInterval startTime endTime
  | .video => db.getVideoInInterval q startTime endTime

/-- The files of the interval the time is in, or all files; the controllers ask for it
in these two steps. -/
def getListAt (currentTime : JString) : Cursor JString :=
  match db.isCurrentTimeInIntervel q m currentTime with
  | none => db.getAllFile m
  | some i => db.getInInterval q m i.1 i.2

end Queries

variable {q : Distinct} {db : FileListMgr} {m : Media} {s e time p : JString} {i : JString × JString}

@[simp] theorem getAllFile_rows : (db.getAllFile m).rows = db.paths m := Cursor.moveToFirst_rows _

theorem getAllFile_readable : (db.getAllFile m).Readable := Cursor.moveToFirst_readable _

theorem mem_getInInterval_rows : p ∈ (db.getInInterval q m s e).rows ↔ p ∈ db.pathsIn m s e := by
  cases m with
  | image => exact Iff.rfl
  | video => exact q.mem _ _

theorem getInInterval_eq_ofRows :
    db.getInInterval q m s e = .ofRows (db.getInInterval q m s e).rows := by
  cases m <;> rfl

theorem mem_pathsIn : p ∈ db.pathsIn m s e ↔ ∃ r ∈ db.timeTable m, r.interval = (s,e) ∧ r.fullpath = p := by
  simp only [pathsIn, List.mem_map, List.mem_filter, decide_eq_true_eq, and_assoc]

theorem isCurrentTimeInIntervel_eq_some (h : db.isCurrentTimeInIntervel q m time = some i) :
    i ∈ db.intervals m ∧ isTimeInInterval time i.1 i.2 = true :=
  by
  unfold isCurrentTimeInIntervel at h
  have hin := List.find?_some h
  exact ⟨(q.mem _ _).mp (List.mem_of_find?_eq_some h),hin⟩

theorem rows_ne_nil_of_mem (h : i ∈ db.intervals m) : (db.getInInterval q m i.1 i.2).rows ≠ [] := by
  obtain ⟨r,hr,hi⟩ := List.mem_map.mp h
  exact List.ne_nil_of_mem (mem_getInInterval_rows.mpr (mem_pathsIn.mpr ⟨r,hr,hi,rfl⟩))

theorem getListAt_of_none (h : db.isCurrentTimeInIntervel q m time = none) :
    db.getListAt q m time = db.getAllFile m := by
  rw [getListAt, h]

theorem getListAt_of_some (h : db.isCurrentTimeInIntervel q m time = some i) :
    db.getListAt q m time = db.getInInterval q m i.1 i.2 := by
  rw [getListAt, h]

/-- All files come positioned, those of an interval do not. -/
theorem getListAt_readable :
    (db.getListAt q m time).Readable ↔ db.isCurrentTimeInIntervel q m time = none := by
  cases hi : db.isCurrentTimeInIntervel q m time with
  | none =>
    rw [getListAt_of_none hi]
    exact iff_of_true getAllFile_readable rfl
  | some i =>
    have hrows := rows_ne_nil_of_mem (q := q) (isCurrentTimeInIntervel_eq_some hi).1
    rw [getListAt_of_some hi, getInInterval_eq_ofRows, Cursor.ofRows_readable]
    exact iff_of_false hrows nofun

end FileListMgr
end AdSystem.Schedule
