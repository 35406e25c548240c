import AdSystem.Schedule.IntervalTimes
import AdSystem.Schedule.ScheduledList

/-! # What a message does to the receivers

A receiver compares the path of a message with its own list, reads what the branch needs
from the message, changes the tables and calls its player. A field that is missing or of
another type ends the branch; a time that cannot be read ends it by an exception.
-/
namespace AdSystem.Schedule
open Query
open Policy (Media utf16)

section Json

/-- The values of a message. -/
inductive Json where
  | null
  | bool (b : Bool)
  | number (text : JString)
  | string (s : JString)
  | array (values : List Json)
  | object (members : List (JString × Json))

abbrev JSONObject := List (JString × Json)

namespace JSONObject
variable (valueOf : Json → JString) (o : JSONObject) (name : JString)

def put (value : Json) : JSONObject := (name,value) :: o

/-- `String.valueOf` of what is no string. -/
def toJString : Json → JString
  | .string s => s
  | value => valueOf value

def getString : Option JString := (o.lookup name).map (toJString valueOf)

def getJSONArray : Option (List Json) :=
  match o.lookup name with
  | some (.array values) => some values
  | _ => none

def getJSONObject : Option JSONObject :=
  match o.lookup name with
  | some (.object members) => some members
  | _ => none

/-- A character in lower case, as far as the letters of `true` and `false` go. -/
def foldCase (c : ℕ) : ℕ := if 65 ≤ c ∧ c ≤ 90 then c + 32 else if c = 0x17F then 115 else c

def getBoolean : Option Bool :=
  match o.lookup name with
  | some (.bool b) => some b
  | some (.string s) =>
    if s.map foldCase = utf16 "true" then some true
    else if s.map foldCase = utf16 "false" then some false
    else none
  | _ => none

variable {valueOf o name} {other : JString} {value : Json}

theorem lookup_put_self : (o.put name value).lookup name = some value := by
  rw [put, List.lookup_cons_self]

theorem lookup_put_of_ne (h : other ≠ name) : (o.put name value).lookup other = o.lookup other := by
  rw [put, List.lookup_cons, beq_eq_false_iff_ne.mpr h]

theorem getString_put_self {s : JString} : (o.put name (.string s)).getString valueOf name = some s := by
  rw [getString, lookup_put_self]
  rfl

end JSONObject

end Json

namespace MessagePath

def KEY_INDEX : JString := utf16 "INDEX"
def KEY_PARAM : JString := utf16 "PARAM"
def KEY_INTERVAL_START : JString := utf16 "START_INTERVAL"
def KEY_INTERVAL_END : JString := utf16 "END_INTERVAL"

/-- `VideoDownload.PREFIX` and `ImageDownload.PREFIX`. -/
def PREFIX : Media → JString
  | .video => utf16 "AdVideo"
  | .image => utf16 "AdImage"

end MessagePath
open MessagePath JSONObject

/-- The branches of either receiver; that of the video volume is empty. -/
inductive Branch where
  | download
  | delete
  | intervalAdd
  | intervalDelete
  | intervalClear
  deriving DecidableEq, Repr

namespace Branch

def suffix : Branch → JString
  | download => utf16 "/Download"
  | delete => utf16 "/Delete"
  | intervalAdd => utf16 "/TimeInterval"
  | intervalDelete => utf16 "/IntervalDelete"
  | intervalClear => utf16 "/IntervalClear"

def path (m : Media) (b : Branch) : JString := PREFIX m ++ b.suffix

/-- The comparisons of `receiveMessage`. -/
def of (m : Media) (indexPath : JString) : Option Branch :=
  if indexPath = download.path m then some download
  else if indexPath = delete.path m then some delete
  else if indexPath = intervalAdd.path m then some intervalAdd
  else if indexPath = intervalDelete.path m then some intervalDelete
  else if indexPath = intervalClear.path m then some intervalClear
  else none

end Branch

/-- The fields of a receiver that are read before they are set, and the URLs of its downloads
that have not completed. `mTotalTaskNum` is called `mDownloadTaskNum` in the video receiver. -/
structure MessageTargetReceiver where
  mTotalTaskNum : ℤ
  mFinishedTaskNum : ℤ
  holdsPlayer : Bool
  outstanding : List JString
  deriving DecidableEq

/-- The receivers, the tables, the alarms, and the players that exist. -/
structure RemoteState where
  receiver : Media → MessageTargetReceiver
  db : FileListMgr
  alarms : AlarmUtil
  video : Option AdVideoCtrl
  image : Option AdImageCtrl

/-- What the receivers call: `String.valueOf`, the database and the storage. -/
structure Platform where
  valueOf : Json → JString
  distinct : Distinct
  storage : Storage

namespace RemoteState
variable (env : Platform) (now : ℕ) (m : Media) (s : RemoteState)

def hasPlayer : Media → Bool
  | .video => s.video.isSome
  | .image => s.image.isSome

/-- What the player of a kind plays, if there is one and it has a list. -/
def rows : Media → Option (List JString)
  | .video => s.video.bind AdVideoCtrl.rows
  | .image => s.image.bind AdImageCtrl.rows

def setReceiver (r : MessageTargetReceiver) : RemoteState :=
  { s with receiver := Function.update s.receiver m r }

/-- The player is looked up for every message, whatever its path. -/
def takePlayer : RemoteState := s.setReceiver m { s.receiver m with holdsPlayer := s.hasPlayer m }

def callPlayer (u : UpdateMedia) : RemoteState :=
  match m with
  | .video => { s with video := s.video.map fun c => c.update env.distinct s.db (getCurrentTime now) u }
  | .image => { s with image := s.image.map fun c => c.update env.distinct s.db (getCurrentTime now) u }

/-- The tables are changed, then the player is called. -/
def apply (msg : Message) : RemoteState :=
  let s := { s with db := s.db.receive env.storage m msg }
  match msg.call with
  | some u => s.callPlayer env now m u
  | none => s

def startDownloads (urls : List JString) : RemoteState :=
  s.setReceiver m { s.receiver m with
    mTotalTaskNum := urls.length
    outstanding := (s.receiver m).outstanding ++ urls }

/-- The rows are inserted before the alarms are set, and the player is called after them. -/
def addInterval (startInterval endInterval : JString) (fileNames : List JString) :
    RemoteState × Option Thrown :=
  let s := { s with db := s.db.insertInterval env.storage m startInterval endInterval fileNames }
  match s.alarms.setChangeTimeBroadcast now startInterval m true with
  | .error e => (s,some e)
  | .ok alarms =>
    let s := { s with alarms }
    match s.alarms.setChangeTimeBroadcast now endInterval m false with
    | .error e => (s,some e)
    | .ok alarms =>
      ({ s with alarms }.callPlayer env now m (.updateWhenIntervalAddOrEdit startInterval endInterval),none)

/-- What a branch does with a message: the state, and what is thrown out of it. A JSONException
is caught in the branch. -/
def receive (message : JSONObject) : Branch → RemoteState × Option Thrown
  | .download =>
    match message.getJSONArray KEY_PARAM with
    | some mJSONArray => (s.startDownloads m (mJSONArray.map (toJString env.valueOf)),none)
    | none => (s,none)
  | .delete =>
    match message.getJSONArray KEY_PARAM with
    | some mJSONArray => (s.apply env now m (.delete (mJSONArray.map (toJString env.valueOf))),none)
    | none => (s,none)
  | .intervalAdd =>
    match message.getString env.valueOf KEY_INTERVAL_START, message.getString env.valueOf KEY_INTERVAL_END,
      message.getJSONArray KEY_PARAM with
    | some startInterval, some endInterval, some mJSONArray =>
      if accepted startInterval endInterval then
        s.addInterval env now m startInterval endInterval (mJSONArray.map (toJString env.valueOf))
      else (s,none)
    | _, _, _ => (s,none)
  | .intervalDelete =>
    match message.getJSONObject KEY_PARAM with
    | some jsonObject =>
      match jsonObject.getString env.valueOf KEY_INTERVAL_START,
        jsonObject.getString env.valueOf KEY_INTERVAL_END with
      | some startInterval, some endInterval =>
        (s.apply env now m (.intervalDelete startInterval endInterval),none)
      | _, _ => (s,none)
    | none => (s,none)
  | .intervalClear =>
    match message.getBoolean KEY_PARAM with
    | some param => (s.apply env now m (.intervalClear param),none)
    | none => (s,none)

/-- `receiveMessage` of either receiver. -/
def receiveMessage (message : JSONObject) (indexPath : JString) : RemoteState × Option Thrown :=
  let s := s.takePlayer m
  match Branch.of m indexPath with
  | some b => s.receive env now m message b
  | none => (s,none)

end RemoteState

def VideoDownloadReceiver.receiveMessage (env : Platform) (now : ℕ) (s : RemoteState) :=
  s.receiveMessage env now .video
def ImageDownloadReceiver.receiveMessage (env : Platform) (now : ℕ) (s : RemoteState) :=
  s.receiveMessage env now .image

end AdSystem.Schedule
