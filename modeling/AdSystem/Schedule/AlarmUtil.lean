import AdSystem.Schedule.CurrentTime
import AdSystem.Schedule.DownloadReceivers

/-! # Alarms for the times of day

A time of day is read from a string number by number, and gives the instant of today
at which an alarm is set. An alarm occupies the slot of its request code and action,
and an alarm set on an occupied slot replaces the one there.
-/
namespace AdSystem.Schedule
open Query
open Policy (Media)

inductive Thrown where
  | arrayIndexOutOfBounds
  | numberFormat
  deriving DecidableEq, Repr

section Strings

def isBlank (c : ℕ) : Bool := c ≤ 32

/-- `String.trim`. -/
def trim (s : JString) : JString := ((s.dropWhile isBlank).reverse.dropWhile isBlank).reverse

/-- `String.split` at one character: no empty strings at the end, if it occurs at all. -/
def split (c : ℕ) (s : JString) : List JString :=
  if c ∈ s then ((s.splitOn c).reverse.dropWhile List.isEmpty).reverse else [s]

/-- The zeros of the decimal digits that are one code unit. -/
def decimalZeros : List ℕ :=
  [0x30,0x660,0x6F0,0x7C0,0x966,0x9E6,0xA66,0xAE6,0xB66,0xBE6,0xC66,0xCE6,0xD66,0xDE6,0xE50,0xED0,0xF20,
    0x1040,0x1090,0x17E0,0x1810,0x1946,0x19D0,0x1A80,0x1A90,0x1B50,0x1BB0,0x1C40,0x1C50,0xA620,0xA8D0,
    0xA900,0xA9D0,0xA9F0,0xAA50,0xABF0,0xFF10]

/-- `Character.digit` to the base ten. -/
def digit (c : ℕ) : Option ℕ := (decimalZeros.find? fun first => first ≤ c ∧ c < first + 10).map (c - ·)

def appendDigits : ℕ → JString → Option ℕ
  | n, [] => some n
  | n, c :: cs => (digit c).bind fun d => appendDigits (10 * n + d) cs

/-- A number with its sign, when it fits an `int`. -/
def signedInt (sign : ℤ) (digits : JString) : Except Thrown ℤ :=
  match digits, appendDigits 0 digits with
  | _ :: _, some n =>
    if -2 ^ 31 ≤ sign * n ∧ sign * n < 2 ^ 31 then .ok (sign * n) else .error .numberFormat
  | _, _ => .error .numberFormat

def parseInt : JString → Except Thrown ℤ
  | 45 :: digits => signedInt (-1) digits
  | 43 :: digits => signedInt 1 digits
  | digits => signedInt 1 digits

end Strings

section ConvertAlarmUpTime

def timeInt (hms : List JString) (i : ℕ) : Except Thrown ℤ :=
  match hms[i]? with
  | some part => parseInt (trim part)
  | none => .error .arrayIndexOutOfBounds

/-- The instant of today at that hour, minute and second; `toMillis` carries what exceeds
its part over to the next one. -/
def toMillis (now : ℕ) (hour minute second : ℤ) : ℤ :=
  midnight now + 1000 * (3600 * hour + 60 * minute + second)

/-- The string is dereferenced before anything else, so that it is not null here. -/
def ConvertAlarmUpTime (now : ℕ) (time : JString) : Except Thrown ℤ := do
  let hms := split 58 (trim time)
  let hour ← timeInt hms 0
  let minute ← timeInt hms 1
  let second ← timeInt hms 2
  return toMillis now hour minute second

end ConvertAlarmUpTime

inductive AlarmAction where
  | videoIntervalStart
  | videoIntervalEnd
  | imageIntervalStart
  | imageIntervalEnd
  | systemVoiceOn
  | systemVoiceOff
  | systemRestart
  deriving DecidableEq, Repr

abbrev Slot := ℕ × AlarmAction

/-- The last request code given out, and the alarms set. -/
structure AlarmUtil where
  VIDEO_INTERVAL_RequestCode : ℕ
  pending : Slot → Option ℤ

namespace AlarmUtil

def start : AlarmUtil := ⟨200,fun _ => none⟩

def getOneVideoRequestCode (code : ℕ) : ℕ :=
  if code + 1 < 200 then 200 else if 299 ≤ code + 1 then 200 else code + 1

variable (now : ℕ) (a : AlarmUtil) (time : JString)

def set (slot : Slot) (instant : ℤ) : AlarmUtil :=
  { a with pending := Function.update a.pending slot (some instant) }

/-- Set an alarm under the next request code, if the instant is later than by the margin. -/
def arm (margin : ℤ) (action : AlarmAction) (instant : ℤ) : AlarmUtil :=
  if instant ≤ now + margin then a
  else
    let requestCode := getOneVideoRequestCode a.VIDEO_INTERVAL_RequestCode
    { a with VIDEO_INTERVAL_RequestCode := requestCode }.set (requestCode,action) instant

def setVideoChangeTimeBroadcast (isStart : Bool) : Except Thrown AlarmUtil :=
  (ConvertAlarmUpTime now time).map
    (a.arm now 20 (if isStart then .videoIntervalStart else .videoIntervalEnd))

/-- The request codes are those of the videos here as well. -/
def setImageChangeTimeBroadcast (isStart : Bool) : Except Thrown AlarmUtil :=
  (ConvertAlarmUpTime now time).map
    (a.arm now 0 (if isStart then .imageIntervalStart else .imageIntervalEnd))

def setVoiceSwitchBroadcast (isOn : Bool) : Except Thrown AlarmUtil :=
  (ConvertAlarmUpTime now time).map fun (instant : ℤ) =>
    if instant ≤ now then a
    else a.set (if isOn then (101,.systemVoiceOn) else (102,.systemVoiceOff)) instant

/-- An instant that has passed is put off to the next day. -/
def setRestartTimeBroadcast : Except Thrown AlarmUtil :=
  (ConvertAlarmUpTime now time).map fun (instant : ℤ) =>
    a.set (100,.systemRestart) (if instant ≤ now then instant + dayMillis else instant)

def setChangeTimeBroadcast (m : Media) (isStart : Bool) : Except Thrown AlarmUtil :=
  match m with
  | .video => a.setVideoChangeTimeBroadcast now time isStart
  | .image => a.setImageChangeTimeBroadcast now time isStart

def armInterval (m : Media) (i : JString × JString) : Except Thrown AlarmUtil := do
  let a ← a.setChangeTimeBroadcast now i.1 m true
  a.setChangeTimeBroadcast now i.2 m false

end AlarmUtil

structure Settings where
  restartTime : JString
  onTime : JString
  offTime : JString

def initAlarmWhenStartUp (q : Distinct) (settings : Settings) (db : FileListMgr) (now : ℕ) (a : AlarmUtil) :
    Except Thrown AlarmUtil := do
  let a ← a.setRestartTimeBroadcast now settings.restartTime
  let a ← a.setVoiceSwitchBroadcast now settings.onTime true
  let a ← a.setVoiceSwitchBroadcast now settings.offTime false
  let a ← (db.getAllVideoTimeInterval q).rows.foldlM (fun a i => a.armInterval now .video i) a
  (db.getAllImageTimeInterval q).rows.foldlM (fun a i => a.armInterval now .image i) a

/-- The branch `INTERVAL_ADD` of `receiveMessage`: the rows are there before the alarms are set. -/
def receiveIntervalAdd (storage : Storage) (m : Media) (now : ℕ) (db : FileListMgr) (a : AlarmUtil)
    (startInterval endInterval : JString) (fileNames : List JString) :
    FileListMgr × Except Thrown AlarmUtil :=
  if accepted startInterval endInterval then
    (db.insertInterval storage m startInterval endInterval fileNames,
      a.armInterval now m (startInterval,endInterval))
  else (db,.ok a)

theorem receiveIntervalAdd_fst {storage : Storage} {m : Media} {now : ℕ} {db : FileListMgr} {a : AlarmUtil}
    {startInterval endInterval : JString} {fileNames : List JString} :
    (receiveIntervalAdd storage m now db a startInterval endInterval fileNames).1 =
      db.receive storage m (.intervalAdd startInterval endInterval fileNames) := by
  rw [receiveIntervalAdd, FileListMgr.receive]
  split_ifs <;> rfl

end AdSystem.Schedule
