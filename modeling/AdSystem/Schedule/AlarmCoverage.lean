import Mathlib.Data.List.Indexes
import AdSystem.Library.Transition
import AdSystem.Library.Writes
import AdSystem.Schedule.IntervalTimes

/-! # Alarms for the bounds of the intervals

Every bound of a stored interval is to have an alarm on every day. Alarms are set for the
day on which the interval is stored or the process starts, under request codes that come
round, and nothing sets them again.
-/
namespace AdSystem.Schedule
open Fallible Query Transition Writes
open Policy (Media utf16)

structure Bound where
  media : Media
  isStart : Bool
  second : ℕ
  deriving DecidableEq, Repr

namespace Bound

def action (b : Bound) : AlarmAction :=
  match b.media, b.isStart with
  | .video, true => .videoIntervalStart
  | .video, false => .videoIntervalEnd
  | .image, true => .imageIntervalStart
  | .image, false => .imageIntervalEnd

/-- An alarm for a video is only set when it is this much later than now. -/
def margin (b : Bound) : ℕ :=
  match b.media with
  | .video => 20
  | .image => 0

/-- The instant of the bound on the day of the time. -/
def instant (now : ℕ) (b : Bound) : ℕ := midnight now + 1000 * b.second

end Bound

/-- The second of the day that a string names. -/
def secondOf (time : JString) : ℕ :=
  match ConvertAlarmUpTime 0 time with
  | .ok instant => armedSecond instant
  | .error _ => 0

def boundsAt (m : Media) (startTime endTime : ℕ) : List Bound := [⟨m,true,startTime⟩,⟨m,false,endTime⟩]

def boundsOf (m : Media) (i : JString × JString) : List Bound := boundsAt m (secondOf i.1) (secondOf i.2)

namespace FileListMgr

def bounds (db : FileListMgr) : List Bound :=
  [Media.video,Media.image].flatMap fun m => (db.intervals m).flatMap (boundsOf m)

/-- The same in the order in which a start sets their alarms. -/
def startBounds (q : Distinct) (db : FileListMgr) : List Bound :=
  [Media.video,Media.image].flatMap fun m => (db.getAllTimeInterval q m).rows.flatMap (boundsOf m)

def WellFormed (db : FileListMgr) : Prop :=
  ∀ m, ∀ i ∈ db.intervals m, ∃ s e, s < 86400 ∧ e < 86400 ∧ i = (formatTime s,formatTime e)

end FileListMgr

/-- The request code given out after so many others. -/
def requestCodeAfter (code n : ℕ) : ℕ := 200 + (code - 200 + n) % 99

/-- The alarms that are set for bounds in this order: those late enough, under the next codes. -/
def alarmsFor (now code : ℕ) (bs : List Bound) : List (Slot × ℤ) :=
  (bs.filter fun b => now + b.margin < b.instant now).mapIdx fun j b =>
    ((requestCodeAfter code (j + 1),b.action),(b.instant now : ℤ))

/-- The clock, the tables and the alarms. -/
structure AlarmClock where
  now : ℕ
  db : FileListMgr
  alarms : AlarmUtil

inductive ClockAction where
  | intervalAdd (m : Media) (startTime endTime : Fin 86400) (fileNames : List JString)
  | advance (millis : ℕ)
  | deliver (slot : Slot)

namespace AlarmClock
variable (storage : Storage)

/-- The receiver of an alarm sets none, and changes no table. -/
def step (s : AlarmClock) : ClockAction → Option AlarmClock
  | .intervalAdd m startTime endTime fileNames =>
    match receiveIntervalAdd storage m s.now s.db s.alarms (formatTime startTime) (formatTime endTime)
      fileNames with
    | (db,.ok alarms) => some ⟨s.now,db,alarms⟩
    | (_,.error _) => none
  | .advance millis => some { s with now := s.now + millis }
  | .deliver slot =>
    match s.alarms.pending slot with
    | some instant =>
      if instant ≤ s.now then
        some { s with alarms := { s.alarms with pending := Function.update s.alarms.pending slot none } }
      else none
    | none => none

/-- An alarm for the bound is pending for the instant. -/
def Pending (s : AlarmClock) (b : Bound) (instant : ℕ) : Prop :=
  ∃ code, s.alarms.pending (code,b.action) = some (instant : ℤ)

/-- Every bound still ahead today has an alarm. -/
def Covered (s : AlarmClock) : Prop := ∀ b ∈ s.db.bounds, s.now < b.instant s.now → s.Pending b (b.instant s.now)

/-- A step leads to a state in which every bound ahead has an alarm, and the clock reaches no
bound, of any day, for which none is pending. -/
structure Noticed (s : AlarmClock) (a : ClockAction) : Prop where
  covered : ∀ t, s.step storage a = some t → t.Covered
  reached : ∀ millis, a = .advance millis → ∀ b ∈ s.db.bounds, ∀ day,
    s.now < day * dayMillis + 1000 * b.second → day * dayMillis + 1000 * b.second ≤ s.now + millis →
      s.Pending b (day * dayMillis + 1000 * b.second)

/-- The alarm of a bound survives when alarms are set for these bounds. -/
def Spared (now code : ℕ) (pending : Slot → Option ℤ) (bs : List Bound) (b : Bound) : Prop :=
  ∃ requestCode, Survives pending (alarmsFor now code bs) (requestCode,b.action) (b.instant now : ℤ)

/-- The alarms that a start sets, after those left by earlier processes, let that of each bound
ahead survive. -/
def StartSpares (q : Distinct) (db : FileListMgr) (now : ℕ) (a : AlarmUtil) : Prop :=
  ∀ b ∈ db.bounds, now < b.instant now →
    Spared now a.VIDEO_INTERVAL_RequestCode a.pending (db.startBounds q) b

/-- While an interval is stored no midnight is crossed; and the two alarms that a message sets
let survive that of each bound ahead, those stored by the message included. -/
def Spares (s : AlarmClock) : ClockAction → Prop
  | .intervalAdd m startTime endTime fileNames =>
    startTime ≤ endTime → ∀ b, b ∈ s.db.bounds ∨ fileNames ≠ [] ∧ b ∈ boundsAt m startTime endTime →
      s.now < b.instant s.now →
        Spared s.now s.alarms.VIDEO_INTERVAL_RequestCode s.alarms.pending (boundsAt m startTime endTime) b
  | .advance millis => s.db.bounds = [] ∨ midnight (s.now + millis) = midnight s.now
  | .deliver _ => True

end AlarmClock

section Arming
variable {now t startTime endTime : ℕ} {a : AlarmUtil} {m : Media} {b : Bound} {bs cs : List Bound}

theorem secondOf_formatTime (ht : t < 86400) : secondOf (formatTime t) = t := by
  have hmidnight : midnight 0 = 0 := Nat.zero_mul _
  rw [secondOf, convertAlarmUpTime_formatTime ht]
  simp only [armedSecond, hmidnight]
  omega

theorem secondOf_lt (time : JString) : secondOf time < 86400 := by
  unfold secondOf
  split
  · exact armedSecond_lt _
  · decide

def armAll (now : ℕ) (a : AlarmUtil) (bs : List Bound) : AlarmUtil :=
  bs.foldl (fun a b => a.arm now b.margin b.action (b.instant now : ℤ)) a

theorem armAll_append : armAll now a (bs ++ cs) = armAll now (armAll now a bs) cs := List.foldl_append

theorem setChangeTimeBroadcast_formatTime (ht : t < 86400) (isStart : Bool) :
    a.setChangeTimeBroadcast now (formatTime t) m isStart = .ok (armAll now a [⟨m,isStart,t⟩]) := by
  have hinstant : (midnight now + 1000 * t : ℤ) = Bound.instant now ⟨m,isStart,t⟩ := by
    simp only [Bound.instant]
    omega
  have hconvert : ConvertAlarmUpTime now (formatTime t) = .ok (Bound.instant now ⟨m,isStart,t⟩ : ℤ) := by
    rw [convertAlarmUpTime_formatTime ht, hinstant]
  rw [armAll, List.foldl_cons, List.foldl_nil]
  generalize (Bound.instant now ⟨m,isStart,t⟩ : ℤ) = instant at hconvert ⊢
  cases m with
  | video =>
    rw [AlarmUtil.setChangeTimeBroadcast, AlarmUtil.setVideoChangeTimeBroadcast, hconvert]
    cases isStart <;> rfl
  | image =>
    rw [AlarmUtil.setChangeTimeBroadcast, AlarmUtil.setImageChangeTimeBroadcast, hconvert]
    cases isStart <;> rfl

theorem armInterval_formatTime (hs : startTime < 86400) (he : endTime < 86400) :
    a.armInterval now m (formatTime startTime,formatTime endTime) =
      .ok (armAll now a (boundsAt m startTime endTime)) := by
  have hboth : armAll now a ([⟨m,true,startTime⟩] ++ [⟨m,false,endTime⟩]) =
      armAll now (armAll now a [⟨m,true,startTime⟩]) [⟨m,false,endTime⟩] := armAll_append
  rw [List.singleton_append] at hboth
  rw [AlarmUtil.armInterval, setChangeTimeBroadcast_formatTime hs, boundsAt, hboth, ok_bind,
    setChangeTimeBroadcast_formatTime he]

theorem foldlM_armInterval {rows : List (JString × JString)}
    (h : ∀ i ∈ rows, ∃ s e, s < 86400 ∧ e < 86400 ∧ i = (formatTime s,formatTime e)) :
    rows.foldlM (fun a i => a.armInterval now m i) a = .ok (armAll now a (rows.flatMap (boundsOf m))) := by
  induction rows generalizing a with
  | nil => rfl
  | cons i rows ih =>
    obtain ⟨⟨s,e,hs,he,rfl⟩,hrows⟩ := List.forall_mem_cons.mp h
    rw [List.foldlM_cons, armInterval_formatTime hs he, List.flatMap_cons, armAll_append, boundsOf,
      secondOf_formatTime hs, secondOf_formatTime he]
    exact ih hrows

end Arming

section Codes
variable {now code n : ℕ} {a : AlarmUtil} {b : Bound} {bs : List Bound}

theorem getOneVideoRequestCode_eq (h : 200 ≤ code) (h' : code < 299) :
    AlarmUtil.getOneVideoRequestCode code = requestCodeAfter code 1 := by
  unfold AlarmUtil.getOneVideoRequestCode requestCodeAfter
  split_ifs
  · omega
  · omega
  · omega

theorem requestCodeAfter_range (code n : ℕ) : 200 ≤ requestCodeAfter code n ∧ requestCodeAfter code n < 299 := by
  unfold requestCodeAfter
  omega

theorem requestCodeAfter_add (code n : ℕ) :
    requestCodeAfter (requestCodeAfter code 1) n = requestCodeAfter code (n + 1) := by
  unfold requestCodeAfter
  omega

theorem alarmsFor_cons_early (h : ¬ now + b.margin < b.instant now) :
    alarmsFor now code (b :: bs) = alarmsFor now code bs := by
  rw [alarmsFor, List.filter_cons_of_neg (by simpa using h), alarmsFor]

theorem alarmsFor_cons_late (h : now + b.margin < b.instant now) :
    alarmsFor now code (b :: bs) = ((requestCodeAfter code 1,b.action),(b.instant now : ℤ)) ::
      alarmsFor now (requestCodeAfter code 1) bs := by
  rw [alarmsFor, List.filter_cons_of_pos (by simpa using h), List.mapIdx_cons, alarmsFor]
  simp only [requestCodeAfter_add]

end Codes

namespace AlarmUtil

/-- The last code is one of a video, and no alarm of an interval is set for a later day. -/
structure UpToDate (now : ℕ) (a : AlarmUtil) : Prop where
  code_ge : 200 ≤ a.VIDEO_INTERVAL_RequestCode
  code_lt : a.VIDEO_INTERVAL_RequestCode < 299
  today : ∀ code (b : Bound) instant, a.pending (code,b.action) = some instant →
    instant < midnight now + dayMillis

/-- The two differ in no alarm of an interval. -/
structure SameIntervals (a a' : AlarmUtil) : Prop where
  code : a'.VIDEO_INTERVAL_RequestCode = a.VIDEO_INTERVAL_RequestCode
  pending : ∀ code (b : Bound), a'.pending (code,b.action) = a.pending (code,b.action)

end AlarmUtil

section ArmAll
variable {now : ℕ} {a : AlarmUtil} {b : Bound} {bs : List Bound}

theorem armAll_cons_early (h : ¬ now + b.margin < b.instant now) : armAll now a (b :: bs) = armAll now a bs := by
  rw [armAll, List.foldl_cons, AlarmUtil.arm, if_pos (by omega), armAll]

theorem armAll_cons_late (h : now + b.margin < b.instant now) (hge : 200 ≤ a.VIDEO_INTERVAL_RequestCode)
    (hlt : a.VIDEO_INTERVAL_RequestCode < 299) :
    armAll now a (b :: bs) =
      armAll now ⟨requestCodeAfter a.VIDEO_INTERVAL_RequestCode 1,
        Function.update a.pending (requestCodeAfter a.VIDEO_INTERVAL_RequestCode 1,b.action)
          (some (b.instant now : ℤ))⟩ bs := by
  rw [armAll, List.foldl_cons, AlarmUtil.arm, if_neg (by omega), getOneVideoRequestCode_eq hge hlt, armAll]
  rfl

/-- The alarms pending after a pass are those that the pass writes over the earlier ones. -/
theorem armAll_pending (hge : 200 ≤ a.VIDEO_INTERVAL_RequestCode) (hlt : a.VIDEO_INTERVAL_RequestCode < 299) :
    (armAll now a bs).pending = writeAll a.pending (alarmsFor now a.VIDEO_INTERVAL_RequestCode bs) := by
  induction bs generalizing a with
  | nil => rfl
  | cons b bs ih =>
    by_cases hlate : now + b.margin < b.instant now
    · obtain ⟨hge',hlt'⟩ := requestCodeAfter_range a.VIDEO_INTERVAL_RequestCode 1
      rw [armAll_cons_late hlate hge hlt, alarmsFor_cons_late hlate, writeAll_cons]
      generalize requestCodeAfter a.VIDEO_INTERVAL_RequestCode 1 = code at *
      exact ih (a := ⟨code,_⟩) hge' hlt'
    · rw [armAll_cons_early hlate, alarmsFor_cons_early hlate]
      exact ih hge hlt

theorem exists_pending_armAll (h : a.UpToDate now) :
    (∃ code, (armAll now a bs).pending (code,b.action) = some (b.instant now : ℤ)) ↔
      AlarmClock.Spared now a.VIDEO_INTERVAL_RequestCode a.pending bs b := by
  rw [armAll_pending h.code_ge h.code_lt]
  exact exists_congr fun code => writeAll_eq_some

theorem instant_lt (h : b.second < 86400) : b.instant now < midnight now + dayMillis := by
  unfold Bound.instant dayMillis
  omega

theorem upToDate_armAll (h : a.UpToDate now) (hbs : ∀ b ∈ bs, b.second < 86400) :
    (armAll now a bs).UpToDate now := by
  induction bs generalizing a with
  | nil => exact h
  | cons b bs ih =>
    obtain ⟨hb,hbs⟩ := List.forall_mem_cons.mp hbs
    by_cases hlate : now + b.margin < b.instant now
    · obtain ⟨hge,hlt⟩ := requestCodeAfter_range a.VIDEO_INTERVAL_RequestCode 1
      rw [armAll_cons_late hlate h.code_ge h.code_lt]
      refine ih ⟨hge,hlt,fun code c instant hc => ?_⟩ hbs
      dsimp only at hc
      rw [Function.update_apply] at hc
      split_ifs at hc with hslot
      · have hinstant : b.instant now < midnight now + dayMillis := instant_lt hb
        cases hc
        omega
      · exact h.today code c instant hc
    · rw [armAll_cons_early hlate]
      exact ih h hbs

end ArmAll

section Bounds
variable {storage : Storage} {q : Distinct} {db : FileListMgr} {m : Media} {b : Bound} {startTime endTime now : ℕ}
  {fileNames : List JString}

theorem mem_bounds : b ∈ db.bounds ↔ ∃ m, ∃ i ∈ db.intervals m, b ∈ boundsOf m i := by
  simp only [FileListMgr.bounds, List.mem_flatMap]
  constructor
  · rintro ⟨m,_,h⟩
    exact ⟨m,h⟩
  · rintro ⟨m,h⟩
    exact ⟨m,by cases m <;> simp,h⟩

theorem second_lt (h : b ∈ db.bounds) : b.second < 86400 := by
  obtain ⟨m,i,_,hb⟩ := mem_bounds.mp h
  simp only [boundsOf, boundsAt, List.mem_cons, List.not_mem_nil, or_false] at hb
  rcases hb with rfl | rfl
  · exact secondOf_lt _
  · exact secondOf_lt _

theorem mem_bounds_insertInterval (hs : startTime < 86400) (he : endTime < 86400) :
    b ∈ (db.insertInterval storage m (formatTime startTime) (formatTime endTime) fileNames).bounds ↔
      b ∈ db.bounds ∨ fileNames ≠ [] ∧ b ∈ boundsAt m startTime endTime := by
  have hnew : boundsOf m (formatTime startTime,formatTime endTime) = boundsAt m startTime endTime := by
    rw [boundsOf, secondOf_formatTime hs, secondOf_formatTime he]
  have hmem : ∀ n i,
      i ∈ (db.insertInterval storage m (formatTime startTime) (formatTime endTime) fileNames).intervals n ↔
        i ∈ db.intervals n ∨ n = m ∧ fileNames ≠ [] ∧ i = (formatTime startTime,formatTime endTime) :=
    fun n i => FileListMgr.mem_intervals_insertInterval_iff storage m db
  simp only [mem_bounds, hmem]
  constructor
  · rintro ⟨n,i,hold | ⟨rfl,hne,rfl⟩,hb⟩
    · exact Or.inl ⟨n,i,hold,hb⟩
    · exact Or.inr ⟨hne,hnew ▸ hb⟩
  · rintro (⟨n,i,hold,hb⟩ | ⟨hne,hb⟩)
    · exact ⟨n,i,Or.inl hold,hb⟩
    · exact ⟨m,_,Or.inr ⟨rfl,hne,rfl⟩,hnew ▸ hb⟩

theorem accepted_formatTime (hs : startTime < 86400) (he : endTime < 86400) :
    accepted (formatTime startTime) (formatTime endTime) = true ↔ startTime ≤ endTime := by
  have hlt := Policy.compareUnits_neg (formatTime endTime) (formatTime startTime)
  rw [accepted, decide_eq_true_eq]
  constructor
  · intro h
    by_contra hgt
    exact h (Or.inr (Or.inr (hlt.mpr (formatTime_ascending endTime startTime (by omega) hs))))
  · rintro hle (h | h | h)
    · exact h rfl
    · exact h rfl
    · rcases Nat.lt_or_eq_of_le hle with hle | rfl
      · exact lt_asymm (hlt.mp h) (formatTime_ascending startTime endTime hle he)
      · exact lt_irrefl _ (hlt.mp h)

end Bounds

section Start
variable {q : Distinct} {settings : Settings} {db : FileListMgr} {now : ℕ} {a a' : AlarmUtil} {time : JString}
  {slot : Slot} {instant : ℤ}

theorem action_ne (b : Bound) :
    b.action ≠ .systemVoiceOn ∧ b.action ≠ .systemVoiceOff ∧ b.action ≠ .systemRestart := by
  obtain ⟨m,isStart,_⟩ := b
  cases m <;> cases isStart <;> exact ⟨nofun,nofun,nofun⟩

theorem sameIntervals_set (h : ∀ b : Bound, b.action ≠ slot.2) : a.SameIntervals (a.set slot instant) := by
  refine ⟨rfl,fun code b => Function.update_of_ne ?_ _ _⟩
  rintro rfl
  exact h b rfl

theorem AlarmUtil.SameIntervals.trans {a a' a'' : AlarmUtil} (h : a.SameIntervals a') (h' : a'.SameIntervals a'') :
    a.SameIntervals a'' :=
  ⟨h'.code.trans h.code,fun code b => (h'.pending code b).trans (h.pending code b)⟩

theorem setRestartTimeBroadcast_same (h : a.setRestartTimeBroadcast now time = .ok a') : a.SameIntervals a' := by
  obtain ⟨instant,_,rfl⟩ := map_eq_ok.mp h
  exact sameIntervals_set fun b => (action_ne b).2.2

theorem setVoiceSwitchBroadcast_same {isOn : Bool} (h : a.setVoiceSwitchBroadcast now time isOn = .ok a') :
    a.SameIntervals a' := by
  obtain ⟨instant,_,rfl⟩ := map_eq_ok.mp h
  split_ifs
  · exact ⟨rfl,fun _ _ => rfl⟩
  · exact sameIntervals_set fun b => (action_ne b).1
  · exact sameIntervals_set fun b => (action_ne b).2.1

/-- A start sets the alarms of the settings, and then those of the bounds. -/
theorem initAlarmWhenStartUp_eq (hdb : db.WellFormed) (h : initAlarmWhenStartUp q settings db now a = .ok a') :
    ∃ a₀, a.SameIntervals a₀ ∧ a' = armAll now a₀ (db.startBounds q) := by
  have hrows : ∀ m, ∀ i ∈ (db.getAllTimeInterval q m).rows, ∃ s e, s < 86400 ∧ e < 86400 ∧
      i = (formatTime s,formatTime e) :=
    fun m i hi => hdb m i ((q.mem _ _).mp hi)
  obtain ⟨a₁,h₁,h⟩ := bind_eq_ok.mp h
  obtain ⟨a₂,h₂,h⟩ := bind_eq_ok.mp h
  obtain ⟨a₃,h₃,h⟩ := bind_eq_ok.mp h
  obtain ⟨a₄,h₄,h⟩ := bind_eq_ok.mp h
  have hsame : a.SameIntervals a₃ :=
    ((setRestartTimeBroadcast_same h₁).trans (setVoiceSwitchBroadcast_same h₂)).trans (setVoiceSwitchBroadcast_same h₃)
  have hvideo := (foldlM_armInterval (hrows .video)).symm.trans h₄
  cases hvideo
  have himage := (foldlM_armInterval (hrows .image)).symm.trans h
  cases himage
  refine ⟨a₃,hsame,?_⟩
  rw [FileListMgr.startBounds, List.flatMap_cons, List.flatMap_cons, List.flatMap_nil, List.append_nil, armAll_append]

theorem upToDate_sameIntervals (h : a.UpToDate now) (hsame : a.SameIntervals a') : a'.UpToDate now := by
  refine ⟨by rw [hsame.code]; exact h.code_ge,by rw [hsame.code]; exact h.code_lt,fun code b instant hb => ?_⟩
  rw [hsame.pending] at hb
  exact h.today code b instant hb

end Start

section Midnight
variable {now later day second : ℕ}

theorem lt_midnight_add (now : ℕ) : now < midnight now + dayMillis :=
  Nat.lt_div_mul_add (by decide : 0 < dayMillis)

theorem midnight_mono (h : now ≤ later) : midnight now ≤ midnight later :=
  Nat.mul_le_mul_right _ (Nat.div_le_div_right h)

theorem midnight_add_le (h : midnight now < midnight later) : midnight now + dayMillis ≤ midnight later := by
  have hday := Nat.lt_of_mul_lt_mul_right h
  calc midnight now + dayMillis = (now / dayMillis + 1) * dayMillis := (Nat.succ_mul _ _).symm
    _ ≤ midnight later := Nat.mul_le_mul_right _ hday

theorem midnight_time (h : second < 86400) : midnight (day * dayMillis + 1000 * second) = day * dayMillis := by
  have hrest : 1000 * second < dayMillis := by
    unfold dayMillis
    omega
  rw [midnight, Nat.mul_comm day, Nat.mul_add_div (by decide), Nat.div_eq_of_lt hrest, Nat.add_zero, Nat.mul_comm]

end Midnight

namespace AlarmClock
variable {storage : Storage} {q : Distinct} {settings : Settings} {db : FileListMgr} {now : ℕ}
  {a₀ alarms : AlarmUtil} {s t : AlarmClock} {a : ClockAction} {as : List ClockAction} {b : Bound}

/-- After a pass every bound ahead has an alarm if and only if its alarm survives the pass. -/
theorem covered_armAll {bs : List Bound} (h : a₀.UpToDate now) :
    Covered ⟨now,db,armAll now a₀ bs⟩ ↔ ∀ b ∈ db.bounds, now < b.instant now →
      Spared now a₀.VIDEO_INTERVAL_RequestCode a₀.pending bs b :=
  forall₃_congr fun _ _ _ => exists_pending_armAll h

theorem covered_start (hdb : db.WellFormed) (hup : a₀.UpToDate now)
    (h : initAlarmWhenStartUp q settings db now a₀ = .ok alarms) :
    Covered ⟨now,db,alarms⟩ ↔ StartSpares q db now a₀ := by
  obtain ⟨a₁,hsame,rfl⟩ := initAlarmWhenStartUp_eq hdb h
  rw [covered_armAll (upToDate_sameIntervals hup hsame), hsame.code]
  exact forall₃_congr fun b _ _ => exists_congr fun code => survives_congr (hsame.pending code b)

theorem upToDate_start (hdb : db.WellFormed) (hup : a₀.UpToDate now)
    (h : initAlarmWhenStartUp q settings db now a₀ = .ok alarms) : alarms.UpToDate now := by
  obtain ⟨a₁,hsame,rfl⟩ := initAlarmWhenStartUp_eq hdb h
  apply upToDate_armAll (upToDate_sameIntervals hup hsame)
  intro b hb
  simp only [FileListMgr.startBounds, List.mem_flatMap, boundsOf, boundsAt, List.mem_cons, List.not_mem_nil,
    or_false] at hb
  obtain ⟨m,_,i,_,rfl | rfl⟩ := hb
  · exact secondOf_lt _
  · exact secondOf_lt _

theorem step_cases (h : s.step storage a = some t) :
    (∃ m startTime endTime fileNames, a = .intervalAdd m startTime endTime fileNames ∧
      (startTime ≤ endTime ∧
        t = ⟨s.now,s.db.insertInterval storage m (formatTime startTime) (formatTime endTime) fileNames,
          armAll s.now s.alarms (boundsAt m startTime endTime)⟩ ∨
        ¬ startTime ≤ endTime ∧ t = s)) ∨
    (∃ millis, a = .advance millis ∧ t = { s with now := s.now + millis }) ∨
    ∃ slot instant, a = .deliver slot ∧ s.alarms.pending slot = some instant ∧ instant ≤ s.now ∧
      t = { s with alarms := { s.alarms with pending := Function.update s.alarms.pending slot none } } := by
  cases a with
  | intervalAdd m startTime endTime fileNames =>
    refine Or.inl ⟨m,startTime,endTime,fileNames,rfl,?_⟩
    have hacc := accepted_formatTime startTime.isLt endTime.isLt
    delta step receiveIntervalAdd at h
    dsimp only at h
    by_cases hle : startTime ≤ endTime
    · rw [if_pos (hacc.mpr hle), armInterval_formatTime startTime.isLt endTime.isLt] at h
      cases h
      exact Or.inl ⟨hle,rfl⟩
    · rw [if_neg (mt hacc.mp hle)] at h
      cases h
      exact Or.inr ⟨hle,rfl⟩
  | advance millis =>
    cases h
    exact Or.inr (Or.inl ⟨millis,rfl,rfl⟩)
  | deliver slot =>
    delta step at h
    dsimp only at h
    split at h
    · rename_i instant hslot
      split_ifs at h with hle
      cases h
      exact Or.inr (Or.inr ⟨slot,instant,rfl,hslot,hle,rfl⟩)
    · cases h

theorem step_upToDate (hs : s.alarms.UpToDate s.now) (h : s.step storage a = some t) :
    t.alarms.UpToDate t.now := by
  obtain ⟨m,startTime,endTime,fileNames,_,⟨_,rfl⟩ | ⟨_,rfl⟩⟩ | ⟨millis,_,rfl⟩ | ⟨slot,instant,_,_,_,rfl⟩ :=
    step_cases h
  · apply upToDate_armAll hs
    intro b hb
    simp only [boundsAt, List.mem_cons, List.not_mem_nil, or_false] at hb
    rcases hb with rfl | rfl
    · exact startTime.isLt
    · exact endTime.isLt
  · exact hs
  · refine ⟨hs.code_ge,hs.code_lt,fun code b instant hb => ?_⟩
    have htoday := hs.today code b instant hb
    have hmidnight := midnight_mono (Nat.le_add_right s.now millis)
    dsimp only
    omega
  · refine ⟨hs.code_ge,hs.code_lt,fun code b instant hb => ?_⟩
    dsimp only at hb
    rw [Function.update_apply] at hb
    split_ifs at hb
    exact hs.today code b instant hb

/-- A message keeps every bound ahead covered if and only if it spares their alarms. -/
theorem noticed_intervalAdd {m : Media} {startTime endTime : Fin 86400} {fileNames : List JString}
    (hs : s.alarms.UpToDate s.now) (hc : s.Covered)
    (h : s.step storage (.intervalAdd m startTime endTime fileNames) = some t) :
    t.Covered ↔ s.Spares (.intervalAdd m startTime endTime fileNames) := by
  obtain ⟨m,startTime,endTime,fileNames,heq,hcases⟩ | ⟨_,heq,_⟩ | ⟨_,_,heq,_⟩ := step_cases h
  · cases heq
    obtain ⟨hle,rfl⟩ | ⟨hlt,rfl⟩ := hcases
    · rw [covered_armAll hs]
      simp only [Spares, hle, forall_const, mem_bounds_insertInterval startTime.isLt endTime.isLt]
    · exact iff_of_true hc fun hle => absurd hle hlt
  · cases heq
  · cases heq

/-- On the day after, the alarm of a stored bound would be one for a later day. -/
theorem not_noticed_past_midnight {millis : ℕ} (hs : s.alarms.UpToDate s.now) (hb : b ∈ s.db.bounds)
    (hpast : midnight s.now < midnight (s.now + millis)) : ¬ s.Noticed storage (.advance millis) := by
  intro hn
  have hnext := midnight_add_le hpast
  have hmidnight : midnight (s.now + millis) ≤ b.instant (s.now + millis) := Nat.le_add_right _ _
  have hnone : ¬ s.Pending b (b.instant (s.now + millis)) := by
    rintro ⟨code,hpending⟩
    have htoday := hs.today code b _ hpending
    omega
  apply hnone
  by_cases hahead : s.now + millis < b.instant (s.now + millis)
  · exact hn.covered _ rfl b hb hahead
  · exact hn.reached millis rfl b hb ((s.now + millis) / dayMillis)
      (lt_of_lt_of_le (lt_midnight_add s.now) (hnext.trans hmidnight)) (not_lt.mp hahead)

/-- A bound that is reached on the same day was ahead. -/
theorem noticed_same_day {millis : ℕ} (hc : s.Covered) (hsame : midnight (s.now + millis) = midnight s.now) :
    s.Noticed storage (.advance millis) := by
  refine ⟨fun t h b hb hahead => ?_,fun millis' heq b hb day hafter hby => ?_⟩
  · cases h
    have htoday : b.instant (s.now + millis) = b.instant s.now := by
      rw [Bound.instant, hsame, ← Bound.instant]
    dsimp only at hahead ⊢
    rw [htoday] at hahead ⊢
    exact hc b hb (lt_of_le_of_lt (Nat.le_add_right _ _) hahead)
  · cases heq
    have htoday : day * dayMillis = midnight s.now := by
      rw [← midnight_time (second_lt hb)]
      exact le_antisymm ((midnight_mono hby).trans hsame.le) (midnight_mono hafter.le)
    rw [htoday] at hafter ⊢
    exact hc b hb hafter

/-- While an interval is stored, its bounds are noticed until midnight and no longer. -/
theorem noticed_advance {millis : ℕ} (hs : s.alarms.UpToDate s.now) (hc : s.Covered) :
    s.Noticed storage (.advance millis) ↔ s.Spares (.advance millis) := by
  constructor
  · intro hn
    by_cases hnil : s.db.bounds = []
    · exact Or.inl hnil
    · obtain ⟨b,hb⟩ := List.exists_mem_of_ne_nil _ hnil
      have hmono := midnight_mono (Nat.le_add_right s.now millis)
      exact Or.inr (le_antisymm (not_lt.mp fun hpast => not_noticed_past_midnight hs hb hpast hn) hmono)
  · rintro (hnil | hsame)
    · refine ⟨fun t h b hb => ?_,fun _ _ b hb => ?_⟩
      · cases h
        exact absurd (hnil ▸ hb) List.not_mem_nil
      · exact absurd (hnil ▸ hb) List.not_mem_nil
    · exact noticed_same_day hc hsame

/-- An alarm that is delivered is for no bound ahead. -/
theorem noticed_deliver {slot : Slot} (hc : s.Covered) : s.Noticed storage (.deliver slot) := by
  refine ⟨fun t h b hb hahead => ?_,nofun⟩
  obtain ⟨_,_,_,_,heq,_⟩ | ⟨_,heq,_⟩ | ⟨slot,instant,heq,hslot,hdue,rfl⟩ := step_cases h
  · cases heq
  · cases heq
  · cases heq
    replace hahead : s.now < b.instant s.now := hahead
    obtain ⟨code,hpending⟩ := hc b hb hahead
    refine ⟨code,?_⟩
    dsimp only
    rw [Function.update_of_ne, hpending]
    rintro rfl
    have hinstant := hslot.symm.trans hpending
    cases hinstant
    omega

/-- A step from a state in which all is covered notices the bounds if and only if it spares
their alarms. -/
theorem noticed_iff_spares (hs : s.alarms.UpToDate s.now) (hc : s.Covered) (h : s.step storage a = some t) :
    s.Noticed storage a ↔ s.Spares a := by
  cases a with
  | intervalAdd m startTime endTime fileNames =>
    rw [← noticed_intervalAdd hs hc h]
    constructor
    · intro hn
      exact hn.covered t h
    · intro ht
      refine ⟨fun t' h' => ?_,nofun⟩
      cases h.symm.trans h'
      exact ht
  | advance millis => exact noticed_advance hs hc
  | deliver slot => exact iff_of_true (noticed_deliver hc) trivial

/-- In a run that begins with a start, and in which the intervals have times of day, every bound
is noticed if and only if the alarms of the bounds ahead are spared by the start and by every
step. -/
theorem bounds_noticed_iff (hdb : db.WellFormed) (hup : a₀.UpToDate now)
    (hstart : initAlarmWhenStartUp q settings db now a₀ = .ok alarms)
    (he : exec (step storage) ⟨now,db,alarms⟩ as = some t) :
    Covered ⟨now,db,alarms⟩ ∧ Along (step storage) (Noticed storage) ⟨now,db,alarms⟩ as ↔
      StartSpares q db now a₀ ∧ Along (step storage) Spares ⟨now,db,alarms⟩ as := by
  rw [← covered_start hdb hup hstart]
  apply and_congr_right
  intro hc
  refine along_iff_along (I := fun s => s.alarms.UpToDate s.now ∧ s.Covered) (fun s a u hs hn h => ?_)
    (fun s a u hs h => noticed_iff_spares hs.1 hs.2 h) ⟨upToDate_start hdb hup hstart,hc⟩ he
  exact ⟨step_upToDate hs.1 h,hn.covered u h⟩

section Morning

def morningStorage : Storage := ⟨fun _ => utf16 "/ad",fun _ url => url⟩

/-- Eight in the morning, when only the alarm of the restart is set. -/
def eight : AlarmClock := ⟨28800000,.created,AlarmUtil.start.set (100,.systemRestart) 86400000⟩

/-- The message with a video from nine to ten. -/
def nineToTen : ClockAction := .intervalAdd .video 32400 36000 [utf16 "a.mp4"]

theorem start_eight :
    initAlarmWhenStartUp Distinct.firsts ⟨formatTime 0,formatTime 0,formatTime 0⟩ .created 28800000 .start =
      .ok eight.alarms := by
  rfl

theorem upToDate_start_alarms (now : ℕ) : AlarmUtil.start.UpToDate now := ⟨by decide,by decide,nofun⟩

theorem wellFormed_created : FileListMgr.created.WellFormed := nofun

/-- The clock reaches the start at nine and its alarm is delivered. -/
theorem bounds_noticed_morning :
    eight.Covered ∧ Along (step morningStorage) (Noticed morningStorage) eight
      [nineToTen,.advance 3600000,.deliver (201,.videoIntervalStart)] := by
  obtain ⟨t,ht⟩ := Option.isSome_iff_exists.mp (by decide +kernel :
    (exec (step morningStorage) eight [nineToTen,.advance 3600000,.deliver (201,.videoIntervalStart)]).isSome = true)
  refine (bounds_noticed_iff wellFormed_created (upToDate_start_alarms _) start_eight ht).mpr ⟨nofun,?_⟩
  refine ⟨fun _ b hb _ => ?_,fun u hu => ⟨Or.inr ?_,fun v _ => ⟨trivial,fun _ _ => trivial⟩⟩⟩
  · rcases hb with hb | ⟨_,hb⟩
    · cases hb
    · rcases List.mem_pair.mp hb with rfl | rfl
      · exact ⟨201,writeAll_eq_some.mp (by decide +kernel)⟩
      · exact ⟨202,writeAll_eq_some.mp (by decide +kernel)⟩
  · cases hu
    rfl

/-- At eight on the next day no alarm is set for nine. -/
theorem not_noticed_next_day :
    ¬ ∀ (storage : Storage) (q : Distinct) (settings : Settings) (db : FileListMgr) (now : ℕ) (alarms : AlarmUtil)
      (as : List ClockAction) (t : AlarmClock), db.WellFormed →
        initAlarmWhenStartUp q settings db now .start = .ok alarms →
        exec (step storage) ⟨now,db,alarms⟩ as = some t →
          Covered ⟨now,db,alarms⟩ ∧ Along (step storage) (Noticed storage) ⟨now,db,alarms⟩ as := by
  intro h
  obtain ⟨t,ht⟩ := Option.isSome_iff_exists.mp (by decide +kernel :
    (exec (step morningStorage) eight [nineToTen,.advance 86400000]).isSome = true)
  obtain ⟨_,hadd,hnight⟩ := h morningStorage .firsts _ .created _ _ _ t wellFormed_created start_eight ht
  obtain ⟨s,hs,_⟩ := (exec_cons_eq_some _).mp ht
  have hup := step_upToDate (upToDate_start wellFormed_created (upToDate_start_alarms _) start_eight) hs
  rcases (noticed_advance hup (hadd.covered s hs)).mp (hnight s hs).1 with hnil | hday
  · cases hs
    cases hnil
  · cases hs
    exact absurd hday (by decide +kernel)

end Morning

end AlarmClock
end AdSystem.Schedule
