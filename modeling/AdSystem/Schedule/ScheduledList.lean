import AdSystem.Schedule.DownloadReceivers

/-! # The lists that follow the schedule

At every time the schedule names a list: the files of the first interval around the
time, or else all files. Some calls of the players ask for that interval; the others
take what their occasion suggests, the new interval or all files.
-/
namespace AdSystem.Schedule
open Query
open Policy (Media utf16)

/-- The paths scheduled for the time. -/
def sched (q : Distinct) (db : FileListMgr) (m : Media) (now : JString) : List JString :=
  (db.getListAt q m now).rows

structure Players where
  video : AdVideoCtrl
  image : AdImageCtrl

namespace Players
variable (q : Distinct) (db : FileListMgr) (now : JString)

def update (p : Players) (u : UpdateMedia) : Media → Players
  | .video => { p with video := p.video.update q db now u }
  | .image => { p with image := p.image.update q db now u }

def rows (p : Players) : Media → Option (List JString)
  | .video => p.video.rows
  | .image => p.image.rows

end Players

/-- When a player is called: an alarm, or a message and the change that it makes before. -/
inductive Occasion where
  | alarm (isTimeStart : Bool)
  | message (msg : Message)
  deriving DecidableEq, Repr

namespace Occasion

def call : Occasion → Option UpdateMedia
  | alarm isTimeStart => some (.updateWhenAlarmUp isTimeStart)
  | message msg => msg.call

def change (storage : Storage) (m : Media) (db : FileListMgr) : Occasion → FileListMgr
  | alarm _ => db
  | message msg => db.receive storage m msg

end Occasion

namespace UpdateMedia
variable (q : Distinct) (db : FileListMgr) (m : Media) (now : JString)

/-- The call is to set the list now: an interval added or deleted is around the time. -/
def SetsList : UpdateMedia → Prop
  | updateWhenAlarmUp _ | updateWhenFileDelete => True
  | updateWhenIntervalAddOrEdit startTime endTime | updateWhenIntervalDelete startTime endTime =>
    isTimeInInterval now startTime endTime = true
  | updateWhenStrategyChanged => False

/-- After the call the player holds what is scheduled, whatever it held before. -/
def Follows (u : UpdateMedia) : Prop :=
  ∀ p : Players, ∃ held, (p.update q db now u m).rows m = some held ∧ held.Perm (sched q db m now)

/-- The list that the occasion suggests is the scheduled one. -/
def SuggestsScheduled : UpdateMedia → Prop
  | updateWhenAlarmUp true | updateWhenFileDelete => True
  | updateWhenAlarmUp false | updateWhenIntervalDelete _ _ =>
    ∀ i, db.isCurrentTimeInIntervel q m now = some i → (db.paths m).Perm (db.getInInterval q m i.1 i.2).rows
  | updateWhenIntervalAddOrEdit startTime endTime =>
    db.isCurrentTimeInIntervel q m now = some (startTime,endTime) ∨
      (db.getInInterval q m startTime endTime).rows.Perm (sched q db m now)
  | updateWhenStrategyChanged => False

variable {q} {db} {m} {now} {p : Players} {u : UpdateMedia}

/-- The list that a call sets. -/
def taken (q : Distinct) (db : FileListMgr) (m : Media) (now : JString) : UpdateMedia → List JString
  | updateWhenAlarmUp true | updateWhenFileDelete => sched q db m now
  | updateWhenIntervalAddOrEdit startTime endTime => (db.getInInterval q m startTime endTime).rows
  | _ => db.paths m

theorem update_rows (h : u.SetsList now) : (p.update q db now u m).rows m = some (u.taken q db m now) := by
  cases u with
  | updateWhenAlarmUp isTimeStart =>
    cases m with
    | video =>
      cases isTimeStart with
      | false => exact congrArg some FileListMgr.getAllFile_rows
      | true => rfl
    | image =>
      apply (AdImageCtrl.cursorChange_rows _).trans
      cases isTimeStart with
      | false => exact congrArg some FileListMgr.getAllFile_rows
      | true => rfl
  | updateWhenIntervalAddOrEdit startTime endTime =>
    cases m with
    | video =>
      simp only [Players.update, Players.rows, AdVideoCtrl.update, AdVideoCtrl.updateWhenIntervalAddOrEdit,
        show isTimeInInterval now startTime endTime = true from h, if_true, AdVideoCtrl.cursorChange_rows]
      rfl
    | image =>
      simp only [Players.update, Players.rows, AdImageCtrl.update, AdImageCtrl.updateWhenIntervalAddOrEdit,
        show isTimeInInterval now startTime endTime = true from h, if_true, AdImageCtrl.cursorChange_rows]
      rfl
  | updateWhenIntervalDelete startTime endTime =>
    cases m with
    | video =>
      simp only [Players.update, Players.rows, AdVideoCtrl.update, AdVideoCtrl.updateWhenIntervalDelete,
        show isTimeInInterval now startTime endTime = true from h, if_true, AdVideoCtrl.cursorChange_rows]
      exact congrArg some FileListMgr.getAllFile_rows
    | image =>
      simp only [Players.update, Players.rows, AdImageCtrl.update, AdImageCtrl.updateWhenIntervalDelete,
        show isTimeInInterval now startTime endTime = true from h, if_true, AdImageCtrl.cursorChange_rows]
      exact congrArg some FileListMgr.getAllFile_rows
  | updateWhenStrategyChanged => exact h.elim
  | updateWhenFileDelete =>
    cases m with
    | video => exact AdVideoCtrl.cursorChange_rows _ _
    | image => exact AdImageCtrl.cursorChange_rows _

theorem sched_of_some {i : JString × JString} (h : db.isCurrentTimeInIntervel q m now = some i) :
    sched q db m now = (db.getInInterval q m i.1 i.2).rows := by
  rw [sched, FileListMgr.getListAt_of_some h]

theorem sched_of_none (h : db.isCurrentTimeInIntervel q m now = none) : sched q db m now = db.paths m := by
  rw [sched, FileListMgr.getListAt_of_none h, FileListMgr.getAllFile_rows]

/-- All files are scheduled outside of the intervals, and within one that lists them all. -/
theorem paths_perm_sched : (db.paths m).Perm (sched q db m now) ↔
    ∀ i, db.isCurrentTimeInIntervel q m now = some i →
      (db.paths m).Perm (db.getInInterval q m i.1 i.2).rows := by
  cases hi : db.isCurrentTimeInIntervel q m now with
  | none =>
    rw [sched_of_none hi]
    exact iff_of_true (List.Perm.refl _) nofun
  | some i =>
    rw [sched_of_some hi]
    constructor
    · rintro h _ ⟨⟩
      exact h
    · intro h
      exact h i rfl

theorem taken_perm_sched (h : u.SetsList now) :
    (u.taken q db m now).Perm (sched q db m now) ↔ u.SuggestsScheduled q db m now := by
  cases u with
  | updateWhenAlarmUp isTimeStart =>
    cases isTimeStart with
    | false => exact paths_perm_sched
    | true => exact iff_of_true (List.Perm.refl _) trivial
  | updateWhenIntervalAddOrEdit startTime endTime =>
    constructor
    · exact Or.inr
    · rintro (hi | hp)
      · exact List.Perm.of_eq (sched_of_some hi).symm
      · exact hp
  | updateWhenIntervalDelete startTime endTime => exact paths_perm_sched
  | updateWhenStrategyChanged => exact h.elim
  | updateWhenFileDelete => exact iff_of_true (List.Perm.refl _) trivial

/-- After a call that sets the list, it is the scheduled one if and only if it was suggested. -/
theorem follows_iff_suggestsScheduled (h : u.SetsList now) :
    u.Follows q db m now ↔ u.SuggestsScheduled q db m now := by
  rw [← taken_perm_sched h]
  constructor
  · intro hf
    obtain ⟨held,hheld,hperm⟩ := hf ⟨⟨none,false,0⟩,⟨none⟩⟩
    rw [update_rows h] at hheld
    cases hheld
    exact hperm
  · intro hperm p
    exact ⟨_,update_rows h,hperm⟩

end UpdateMedia

namespace Occasion
variable (q : Distinct) (storage : Storage) (m : Media) (now : JString) (db : FileListMgr)

/-- The call of the occasion, if it sets the list, leaves what is scheduled after the change. -/
def Follows (o : Occasion) : Prop :=
  ∀ u, o.call = some u → u.SetsList now → u.Follows q (o.change storage m db) m now

/-- The call of the occasion, if it sets the list, suggests what is scheduled after the change. -/
def SuggestsScheduled (o : Occasion) : Prop :=
  ∀ u, o.call = some u → u.SetsList now → u.SuggestsScheduled q (o.change storage m db) m now

/-- In all tables that messages lead to and at every time, a player follows the schedule on
an occasion if and only if the occasion suggests the scheduled list. -/
theorem follows_iff (messages : List (Media × Message)) (o : Occasion) :
    o.Follows q storage m now (.reached storage messages) ↔
      o.SuggestsScheduled q storage m now (.reached storage messages) :=
  forall₃_congr fun _ _ h => UpdateMedia.follows_iff_suggestsScheduled h

/-- Two intervals that meet, and a video in neither. -/
def adjacent : List (Media × Message) :=
  [(.video,.download [utf16 "http://server/c.mp4"]),
    (.video,.intervalAdd (utf16 "08:00:00") (utf16 "09:00:00") [utf16 "a.mp4"]),
    (.video,.intervalAdd (utf16 "09:00:00") (utf16 "10:00:00") [utf16 "b.mp4"])]

def sdcard : Storage where
  resPath
    | .video => utf16 "/sdcard/Camera/"
    | .image => utf16 "/sdcard/Ad_Image/"
  downloadFile
    | .video, url => utf16 "/sdcard/Camera/" ++ lastComponent url
    | .image, url => utf16 "/sdcard/Ad_Image/" ++ lastComponent url

/-- The end alarm of the first interval plays all files while the second one has begun. -/
theorem not_follows_end_alarm :
    ¬ ∀ (q : Distinct) (storage : Storage) (m : Media) (now : JString) (messages : List (Media × Message))
      (o : Occasion), o.Follows q storage m now (.reached storage messages) := by
  intro h
  have hf := h .firsts sdcard .video (utf16 "09:00:00") adjacent (.alarm false) _ rfl trivial
    ⟨⟨none,false,0⟩,⟨none⟩⟩
  obtain ⟨held,hheld,hperm⟩ := hf
  have hsched : utf16 "/sdcard/Camera/c.mp4" ∉
      sched .firsts (.reached sdcard adjacent) .video (utf16 "09:00:00") := by decide
  have hrows : held = [utf16 "/sdcard/Camera/c.mp4"] :=
    Option.some.inj (hheld.symm.trans (by decide))
  exact hsched (hperm.subset (hrows ▸ List.mem_singleton_self _))

end Occasion
end AdSystem.Schedule
