import AdSystem.Library.Ledger
import AdSystem.Schedule.AlarmCoverage

/-! # Alarms in each other's slots

The alarms of videos and images take their request codes from one counter that comes round
after 99 of them, whichever alarms have fired by then. What is pending is the registrations
that have not fired, each in the slot of its serial number and its action.
-/
namespace AdSystem.Schedule
open Fallible Ledger Transition
open Policy (Media)

/-- An alarm that was set, by the number of alarms set up to it. -/
structure Registration where
  serial : ℕ
  action : AlarmAction
  instant : ℤ
  deriving DecidableEq, Repr

/-- The slot of a registration, counted from the start of the process. -/
def Registration.slot (e : Registration) : Slot := (requestCodeAfter 200 e.serial,e.action)

/-- The clock, the alarms, how many were set, and the registrations that are pending. -/
structure AlarmSlots where
  now : ℕ
  alarms : AlarmUtil
  count : ℕ
  outstanding : List Registration

inductive SlotAction where
  | setChangeTimeBroadcast (m : Media) (time : JString) (isStart : Bool)
  | advance (millis : ℕ)
  | fire (slot : Slot)

namespace AlarmSlots

def start (now : ℕ) : AlarmSlots := ⟨now,.start,0,[]⟩

def intervalAction (m : Media) (isStart : Bool) : AlarmAction := Bound.action ⟨m,isStart,0⟩

/-- The registration that setting an alarm makes, if its time is late enough. -/
def registration (s : AlarmSlots) (m : Media) (isStart : Bool) (instant : ℤ) : Option Registration :=
  if instant ≤ s.now + Bound.margin ⟨m,isStart,0⟩ then none
  else some ⟨s.count + 1,intervalAction m isStart,instant⟩

def register (s : AlarmSlots) (e : Registration) : AlarmSlots :=
  { s with count := s.count + 1, outstanding := record Registration.slot e s.outstanding }

def step (s : AlarmSlots) : SlotAction → Option AlarmSlots
  | .setChangeTimeBroadcast m time isStart =>
    match s.alarms.setChangeTimeBroadcast s.now time m isStart, ConvertAlarmUpTime s.now time with
    | .ok alarms, .ok instant =>
      some { (s.registration m isStart instant).elim s s.register with alarms }
    | _, _ => none
  | .advance millis => some { s with now := s.now + millis }
  | .fire slot =>
    match s.alarms.pending slot with
    | some instant =>
      if instant ≤ s.now then
        some { s with
          alarms := { s.alarms with pending := Function.update s.alarms.pending slot none }
          outstanding := free Registration.slot slot s.outstanding }
      else none
    | none => none

/-- Setting an alarm leaves every pending alarm as it is. -/
def Spares (s : AlarmSlots) : SlotAction → Prop
  | .setChangeTimeBroadcast m time isStart =>
    ∀ t, s.step (.setChangeTimeBroadcast m time isStart) = some t →
      ∀ slot instant, s.alarms.pending slot = some instant → t.alarms.pending slot = some instant
  | _ => True

/-- Of the pending alarms with the action of the one that is set, none that was set a multiple
of 99 alarms before it is for another time. -/
def Spaced (s : AlarmSlots) : SlotAction → Prop
  | .setChangeTimeBroadcast m time isStart =>
    ∀ instant e, ConvertAlarmUpTime s.now time = .ok instant → s.registration m isStart instant = some e →
      ∀ o ∈ s.outstanding, o.action = e.action → o.serial % 99 = e.serial % 99 → o.instant = e.instant
  | _ => True

instance (s : AlarmSlots) : DecidablePred s.Spaced
  | .setChangeTimeBroadcast m time isStart =>
    match h : ConvertAlarmUpTime s.now time with
    | .error _ => isTrue fun _ _ hinstant => nomatch h.symm.trans hinstant
    | .ok instant =>
      match h' : s.registration m isStart instant with
      | none => isTrue fun _ _ hinstant he => by cases h.symm.trans hinstant; cases h'.symm.trans he
      | some e =>
        decidable_of_iff
          (∀ o ∈ s.outstanding, o.action = e.action → o.serial % 99 = e.serial % 99 → o.instant = e.instant)
          ⟨fun hall _ _ hinstant he => by cases h.symm.trans hinstant; cases h'.symm.trans he; exact hall,
            fun hall => hall instant e h h'⟩
  | .advance _ | .fire _ => isTrue trivial

def FewPending (s : AlarmSlots) : Prop :=
  ∃ slots : Finset Slot, slots.card < 99 ∧ ∀ slot, s.alarms.pending slot ≠ none → slot ∈ slots

/-- The pending alarms are those of the registrations, and the last code is that of the last one. -/
structure Wf (s : AlarmSlots) : Prop where
  code : s.alarms.VIDEO_INTERVAL_RequestCode = requestCodeAfter 200 s.count
  pending : Represents Registration.slot Registration.instant s.alarms.pending s.outstanding

section
variable {s t : AlarmSlots} {m : Media} {isStart : Bool} {time : JString} {instant : ℤ} {e o : Registration}

theorem requestCodeAfter_eq_iff {i j : ℕ} :
    requestCodeAfter 200 i = requestCodeAfter 200 j ↔ i % 99 = j % 99 := by
  unfold requestCodeAfter
  omega

theorem slot_eq_iff : o.slot = e.slot ↔ o.action = e.action ∧ o.serial % 99 = e.serial % 99 := by
  rw [Registration.slot, Registration.slot, Prod.mk.injEq, requestCodeAfter_eq_iff, and_comm]

theorem setChangeTimeBroadcast_eq (a : AlarmUtil) (now : ℕ) :
    a.setChangeTimeBroadcast now time m isStart =
      (ConvertAlarmUpTime now time).map
        (a.arm now (Bound.margin ⟨m,isStart,0⟩) (intervalAction m isStart)) := by
  cases m <;> cases isStart <;> rfl

/-- An alarm is set in the slot of its registration. -/
theorem arm_of_registration (hs : s.Wf) (h : s.registration m isStart instant = some e) :
    s.alarms.arm s.now (Bound.margin ⟨m,isStart,0⟩) (intervalAction m isStart) instant =
      ⟨requestCodeAfter 200 (s.count + 1),Function.update s.alarms.pending e.slot (some e.instant)⟩ := by
  unfold registration at h
  split_ifs at h with hearly
  cases h
  obtain ⟨hge,hlt⟩ := requestCodeAfter_range 200 s.count
  have hnext : AlarmUtil.getOneVideoRequestCode s.alarms.VIDEO_INTERVAL_RequestCode =
      requestCodeAfter 200 (s.count + 1) := by
    rw [hs.code, getOneVideoRequestCode_eq hge hlt]
    unfold requestCodeAfter
    omega
  rw [AlarmUtil.arm, if_neg hearly, hnext]
  rfl

theorem arm_of_none (h : s.registration m isStart instant = none) :
    s.alarms.arm s.now (Bound.margin ⟨m,isStart,0⟩) (intervalAction m isStart) instant = s.alarms := by
  unfold registration at h
  split_ifs at h with hearly
  rw [AlarmUtil.arm, if_pos hearly]

/-- What setting an alarm does: nothing when it is too late for it, else it registers one. -/
theorem step_set_cases (hs : s.Wf) (h : s.step (.setChangeTimeBroadcast m time isStart) = some t) :
    ∃ instant, ConvertAlarmUpTime s.now time = .ok instant ∧
      (s.registration m isStart instant = none ∧ t = s ∨
        ∃ e, s.registration m isStart instant = some e ∧
          t = { s.register e with
            alarms := ⟨requestCodeAfter 200 (s.count + 1),
              Function.update s.alarms.pending e.slot (some e.instant)⟩ }) := by
  simp only [step, setChangeTimeBroadcast_eq] at h
  cases hc : ConvertAlarmUpTime s.now time with
  | error thrown =>
    rw [hc] at h
    cases h
  | ok instant =>
    rw [hc] at h
    cases h
    refine ⟨instant,rfl,?_⟩
    cases hr : s.registration m isStart instant with
    | none =>
      rw [arm_of_none hr]
      exact Or.inl ⟨rfl,rfl⟩
    | some e =>
      rw [arm_of_registration hs hr]
      exact Or.inr ⟨e,rfl,rfl⟩

theorem step_wf {a : SlotAction} (hs : s.Wf) (h : s.step a = some t) : t.Wf := by
  cases a with
  | setChangeTimeBroadcast m time isStart =>
    obtain ⟨instant,_,⟨_,rfl⟩ | ⟨e,_,rfl⟩⟩ := step_set_cases hs h
    · exact hs
    · exact ⟨rfl,hs.pending.record e⟩
  | advance millis =>
    cases h
    exact ⟨hs.code,hs.pending⟩
  | fire slot =>
    simp only [step] at h
    split at h
    · split_ifs at h
      cases h
      exact ⟨hs.code,hs.pending.free slot⟩
    · cases h

theorem start_wf (now : ℕ) : (start now).Wf := ⟨rfl,represents_nil⟩

/-- Whether pending alarms are left as they are is told by their serial numbers. -/
theorem spares_iff_spaced {a : SlotAction} (hs : s.Wf) (h : s.step a = some t) : s.Spares a ↔ s.Spaced a := by
  cases a with
  | setChangeTimeBroadcast m time isStart =>
    simp only [Spares, h, Option.some.injEq, forall_eq', Spaced]
    obtain ⟨instant,hc,⟨hr,rfl⟩ | ⟨e,hr,rfl⟩⟩ := step_set_cases hs h
    · refine iff_of_true (fun _ _ hp => hp) fun instant' e hc' hr' => ?_
      cases hc.symm.trans hc'
      cases hr.symm.trans hr'
    · simp only [hc, Except.ok.injEq]
      have hkeep := hs.pending.keeps_iff e
      refine hkeep.trans ⟨fun hsame instant' e' he hr' o ho ha hser => ?_,fun hspaced o ho hslot => ?_⟩
      · subst he
        cases hr.symm.trans hr'
        exact hsame o ho (slot_eq_iff.mpr ⟨ha,hser⟩)
      · obtain ⟨ha,hser⟩ := slot_eq_iff.mp hslot
        exact hspaced instant e rfl hr o ho ha hser
  | advance millis => exact Iff.rfl
  | fire slot => exact Iff.rfl

/-- No alarm of a run replaces one for another time, exactly when no pending alarm of the same
action was set a multiple of 99 alarms before it for another time. -/
theorem alarms_spared_iff {now : ℕ} {as : List SlotAction} (he : exec step (start now) as = some s) :
    Along step Spares (start now) as ↔ Along step Spaced (start now) as :=
  along_congr (I := Wf) (fun _ _ _ hs h => step_wf hs h) (fun _ _ _ hs h => spares_iff_spaced hs h)
    (start_wf now) he

theorem fewPending_of_outstanding (hs : s.Wf) (h : s.outstanding.length < 99) : s.FewPending := by
  obtain ⟨slots,hcard,hslots⟩ := hs.pending.occupied
  exact ⟨slots,by omega,hslots⟩

/-- A video alarm for 23 o'clock, then 97 alarms for images with one more after the first of them has
fired: the counter has come round. -/
def fillsSlots : List SlotAction :=
  [.setChangeTimeBroadcast .video (formatTime 82800) true,.setChangeTimeBroadcast .image (formatTime 1) true] ++
    List.replicate 96 (.setChangeTimeBroadcast .image (formatTime 79200) true) ++
    [.advance 1000,.fire (202,.imageIntervalStart),.setChangeTimeBroadcast .image (formatTime 79200) true]

theorem alarms_spared_fillsSlots : Along step Spares (start 0) fillsSlots := by
  have hrun : (exec step (start 0) fillsSlots).isSome := by decide +kernel
  obtain ⟨s,he⟩ := Option.isSome_iff_exists.mp hrun
  exact (alarms_spared_iff he).mpr (by decide +kernel)

/-- The next video alarm, for 20 o'clock, takes the slot of the first one. -/
theorem not_spared_fillsSlots :
    ¬ ∀ as s, exec step (start 0) as = some s → Always step FewPending (start 0) as →
      Along step Spares (start 0) as := by
  intro h
  let last : SlotAction := .setChangeTimeBroadcast .video (formatTime 72000) true
  have hbefore : (exec step (start 0) fillsSlots).map (fun s => s.alarms.pending (201,.videoIntervalStart)) =
      some (some 82800000) := by decide +kernel
  have hafter : (exec step (start 0) (fillsSlots ++ [last])).map
      (fun s => s.alarms.pending (201,.videoIntervalStart)) = some (some 72000000) := by decide +kernel
  have hfew : Always step (fun s => s.outstanding.length < 99) (start 0) (fillsSlots ++ [last]) := by
    decide +kernel
  obtain ⟨s,hs,hold⟩ := Option.map_eq_some_iff.mp hbefore
  obtain ⟨t,ht,hnew⟩ := Option.map_eq_some_iff.mp hafter
  have hspared := h _ t ht fun bs u hb hu => by
    refine fewPending_of_outstanding ?_ (hfew bs u hb hu)
    exact exec_history (I := fun _ s => Wf s) (start_wf 0) (fun _ _ _ _ _ hs h => step_wf hs h) hu
  obtain ⟨u,hu,hlast⟩ := (exec_append_eq_some step).mp ht
  cases hs.symm.trans hu
  obtain ⟨v,hv,he⟩ := (exec_cons_eq_some step).mp hlast
  cases he
  have hkept := ((along_append_singleton hs).mp hspared).2 t hv _ _ hold
  cases hkept.symm.trans hnew

end
end AlarmSlots
end AdSystem.Schedule
