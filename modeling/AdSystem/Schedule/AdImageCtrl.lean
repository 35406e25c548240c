import AdSystem.Schedule.AdVideoCtrl

/-! # The image player over the tables

The same calls as those of the video player, but every cursor is positioned when it
is taken over, and the next image is the row after the one the cursor stands on.
-/
namespace AdSystem.Schedule
open Query
open Policy (Media)

structure AdImageCtrl where
  mDisplayImageCursor : Option (Cursor JString)

namespace AdImageCtrl
variable (q : Distinct) (db : FileListMgr) (now : JString) (c : AdImageCtrl)

def getImageListWhenStartUp : Cursor JString := (db.getListAt q .image now).moveToFirst.1

def new : AdImageCtrl := ⟨some (getImageListWhenStartUp q db now)⟩

/-- The path of the image to show, null without rows; nothing when `getString` throws. -/
def getImageByOrder : Option (Option JString × AdImageCtrl) :=
  match c.mDisplayImageCursor with
  | none => some (none,c)
  | some cursor =>
    if cursor.getCount = 0 then some (none,c)
    else
      let next := cursor.moveToNext
      let cursor := if next.2 then next.1 else next.1.moveToFirst.1
      cursor.get.map fun imagePath => (some imagePath,⟨some cursor⟩)

def cursorChange (cursor : Cursor JString) : AdImageCtrl := ⟨some cursor.moveToFirst.1⟩

def updateWhenAlarmUp (isTimeStart : Bool) : AdImageCtrl :=
  cursorChange (if isTimeStart then db.getListAt q .image now else db.getAllImageFile)

def updateWhenIntervalAddOrEdit (startTime endTime : JString) : AdImageCtrl :=
  if isTimeInInterval now startTime endTime then cursorChange (db.getImageInInterval startTime endTime) else c

def updateWhenIntervalDelete (startTime endTime : JString) : AdImageCtrl :=
  if isTimeInInterval now startTime endTime then cursorChange db.getAllImageFile else c

/-- The intervals are searched in a loop of its own. -/
def updateWhenStrategyChanged : AdImageCtrl :=
  if (db.getAllImageTimeInterval q).rows.any fun i => isTimeInInterval now i.1 i.2 then c
  else cursorChange db.getAllImageFile

def updateWhenFileDelete : AdImageCtrl := cursorChange (db.getListAt q .image now)

def update : UpdateMedia → AdImageCtrl
  | .updateWhenAlarmUp isTimeStart => updateWhenAlarmUp q db now isTimeStart
  | .updateWhenIntervalAddOrEdit startTime endTime => c.updateWhenIntervalAddOrEdit db now startTime endTime
  | .updateWhenIntervalDelete startTime endTime => c.updateWhenIntervalDelete db now startTime endTime
  | .updateWhenStrategyChanged => c.updateWhenStrategyChanged q db now
  | .updateWhenFileDelete => updateWhenFileDelete q db now

def rows : Option (List JString) := c.mDisplayImageCursor.map Cursor.rows

variable {q} {db} {now} {c}

@[simp] theorem cursorChange_rows (cursor : Cursor JString) : (cursorChange cursor).rows = some cursor.rows :=
  congrArg some (Cursor.moveToFirst_rows cursor)

/-- The cursor of this player can be read after every call. -/
theorem update_readable (h : ∀ cursor, c.mDisplayImageCursor = some cursor → cursor.Readable) (u : UpdateMedia)
    (cursor : Cursor JString) (hc : (c.update q db now u).mDisplayImageCursor = some cursor) :
    cursor.Readable := by
  have hchange : ∀ new cursor, (cursorChange new).mDisplayImageCursor = some cursor → cursor.Readable := by
    intro new cursor hcur
    cases hcur
    exact new.moveToFirst_readable
  cases u with
  | updateWhenAlarmUp isTimeStart => exact hchange _ cursor hc
  | updateWhenIntervalAddOrEdit startTime endTime =>
    simp only [update, updateWhenIntervalAddOrEdit] at hc
    split_ifs at hc
    · exact hchange _ cursor hc
    · exact h cursor hc
  | updateWhenIntervalDelete startTime endTime =>
    simp only [update, updateWhenIntervalDelete] at hc
    split_ifs at hc
    · exact hchange _ cursor hc
    · exact h cursor hc
  | updateWhenStrategyChanged =>
    simp only [update, updateWhenStrategyChanged] at hc
    split_ifs at hc
    · exact h cursor hc
    · exact hchange _ cursor hc
  | updateWhenFileDelete => exact hchange _ cursor hc

end AdImageCtrl
end AdSystem.Schedule
