import AdSystem.Schedule.FileListMgr

/-! # The video player over the tables

`AdVideoCtrl` plays the rows of a cursor over and over. The calls of `UpdateMedia`
replace the cursor, most of them through `cursorChange`, and a `MSG_PLAY_VIDEO`
reads the row that the cursor stands on.
-/
namespace AdSystem.Schedule
open Query
open Policy (Media)

/-- The calls of the interface `UpdateMedia` that change a list. -/
inductive UpdateMedia where
  | updateWhenAlarmUp (isTimeStart : Bool)
  | updateWhenIntervalAddOrEdit (startTime endTime : JString)
  | updateWhenIntervalDelete (startTime endTime : JString)
  | updateWhenStrategyChanged
  | updateWhenFileDelete
  deriving DecidableEq, Repr

/-- The cursor, whether the view is playing, and the `MSG_PLAY_VIDEO` in the queue. -/
structure AdVideoCtrl where
  mVideoListCursor : Option (Cursor JString)
  isPlaying : Bool
  messages : ℕ

namespace AdVideoCtrl
variable (q : Distinct) (db : FileListMgr) (now : JString) (c : AdVideoCtrl)

def getVideoListWhenStartUp : Cursor JString := (db.getListAt q .video now).moveToFirst.1

def new : AdVideoCtrl := ⟨some (getVideoListWhenStartUp q db now),false,1⟩

/-- The path to play, null without rows; nothing is returned when `getString` throws. -/
def getVideoByOrder : Option (Option JString × AdVideoCtrl) :=
  match c.mVideoListCursor with
  | none => some (none,c)
  | some cursor =>
    if cursor.getCount = 0 then some (none,c)
    else cursor.get.map fun videoPath =>
      let next := cursor.moveToNext
      let cursor := if next.2 then next.1 else next.1.moveToFirst.1
      (some videoPath,{ c with mVideoListCursor := some cursor })

def playVideo : Option AdVideoCtrl :=
  c.getVideoByOrder.map fun r =>
    { r.2 with messages := r.2.messages - 1, isPlaying := r.2.isPlaying || r.1.isSome }

def cursorChange (newCursor : Cursor JString) : AdVideoCtrl :=
  { c with
    mVideoListCursor := some newCursor.moveToFirst.1
    messages := if c.isPlaying then c.messages else c.messages + 1 }

/-- The new cursor is kept as the query returned it. -/
def updateWhenAlarmUp (isTimeStart : Bool) : AdVideoCtrl :=
  { c with
    mVideoListCursor := some (if isTimeStart then db.getListAt q .video now else db.getAllVideoFile) }

def updateWhenIntervalAddOrEdit (startTime endTime : JString) : AdVideoCtrl :=
  if isTimeInInterval now startTime endTime then
    c.cursorChange (db.getVideoInInterval q startTime endTime)
  else c

def updateWhenIntervalDelete (startTime endTime : JString) : AdVideoCtrl :=
  if isTimeInInterval now startTime endTime then c.cursorChange db.getAllVideoFile else c

def updateWhenStrategyChanged : AdVideoCtrl :=
  if db.isCurrentTimeInVideoIntervel q now = none then c.cursorChange db.getAllVideoFile else c

def updateWhenFileDelete : AdVideoCtrl := c.cursorChange (db.getListAt q .video now)

def update : UpdateMedia → AdVideoCtrl
  | .updateWhenAlarmUp isTimeStart => c.updateWhenAlarmUp q db now isTimeStart
  | .updateWhenIntervalAddOrEdit startTime endTime => c.updateWhenIntervalAddOrEdit q db now startTime endTime
  | .updateWhenIntervalDelete startTime endTime => c.updateWhenIntervalDelete db now startTime endTime
  | .updateWhenStrategyChanged => c.updateWhenStrategyChanged q db now
  | .updateWhenFileDelete => c.updateWhenFileDelete q db now

def rows : Option (List JString) := c.mVideoListCursor.map Cursor.rows

@[simp] theorem cursorChange_cursor (cursor : Cursor JString) :
    (c.cursorChange cursor).mVideoListCursor = some cursor.moveToFirst.1 := rfl

@[simp] theorem cursorChange_rows (cursor : Cursor JString) :
    (c.cursorChange cursor).rows = some cursor.rows :=
  congrArg some (Cursor.moveToFirst_rows cursor)

end AdVideoCtrl
end AdSystem.Schedule
