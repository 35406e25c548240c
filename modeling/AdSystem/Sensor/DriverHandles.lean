import Mathlib.Data.Int.Order.Basic
import Mathlib.Data.List.Basic
import Mathlib.Logic.Function.Basic
import AdSystem.Library.Transition

/-! # The descriptors of the drivers

Each driver keeps its descriptor in `fd` and takes a positive one for open. Closing gives
the descriptor back and leaves `fd` as it is, so that from then on the driver is neither
opened again nor kept from closing what another driver has been given meanwhile.
-/
namespace AdSystem.Sensor
open Transition

inductive Driver where
  | adc
  | led
  | rfid
  | sensor
  deriving DecidableEq, Repr

/-- The variables of the drivers, and the device that each open descriptor is open on. `closed`
lists the descriptors that a driver has closed. -/
structure Drivers where
  fd : Driver → ℤ
  /-- The second descriptor of the sensor, which nothing opens. -/
  fd2 : ℤ
  table : ℤ → Option Driver
  closed : Driver → List ℤ

inductive DriverCall where
  /-- `Open`, with the descriptor that the system hands out if it is asked for one. -/
  | «open» (d : Driver) (result : Option ℤ)
  | close (d : Driver)
  deriving DecidableEq, Repr

def DriverCall.driver : DriverCall → Driver
  | .open d _ => d
  | .close d => d

namespace Drivers

def initial : Drivers := ⟨fun _ => 0,0,fun _ => none,fun _ => []⟩

/-- The system hands out positive descriptors that are not open, or fails. -/
def openDevice (s : Drivers) (d : Driver) : Option ℤ → Option Drivers
  | none => some { s with fd := Function.update s.fd d (-1) }
  | some n =>
    if 0 < n ∧ s.table n = none then
      some { s with fd := Function.update s.fd d n, table := Function.update s.table n (some d) }
    else none

def «open» (s : Drivers) (d : Driver) (result : Option ℤ) : Option Drivers :=
  if s.fd d ≤ 0 then s.openDevice d result else some s

/-- The system call, on whatever the descriptor is open on by now. -/
def closeFd (s : Drivers) (d : Driver) (n : ℤ) : Drivers :=
  { s with
    table := Function.update s.table n none
    closed := Function.update s.closed d (s.closed d ++ [n]) }

def close (s : Drivers) (d : Driver) : Drivers :=
  let s := if 0 < s.fd d then s.closeFd d (s.fd d) else s
  if d = .sensor ∧ 0 < s.fd2 then s.closeFd d s.fd2 else s

def step (s : Drivers) : DriverCall → Option Drivers
  | .open d result => s.open d result
  | .close d => some (s.close d)

/-- An `Open` that succeeds has a descriptor of its device, and a `Close` closes none that its
driver has closed already. -/
def Valid (s : Drivers) (a : DriverCall) : Prop :=
  match a with
  | .open d _ => ∀ t, s.step a = some t → 0 < t.fd d → t.table (t.fd d) = some d
  | .close d => 0 < s.fd d → s.fd d ∉ s.closed d

/-- The driver of the call has closed no descriptor yet. -/
def Fresh (s : Drivers) (a : DriverCall) : Prop := s.closed a.driver = []

/-- A driver has closed no descriptor but its last; that one is open on its device until then, and
not any more afterwards. -/
structure Held (s : Drivers) (d : Driver) : Prop where
  closed : ∀ n ∈ s.closed d, n = s.fd d ∧ 0 < s.fd d
  own : 0 < s.fd d → s.closed d = [] → s.table (s.fd d) = some d
  stale : s.closed d ≠ [] → s.table (s.fd d) ≠ some d

structure Wf (s : Drivers) : Prop where
  fd2 : s.fd2 = 0
  held : ∀ d, s.Held d

section
variable {s t : Drivers} {a : DriverCall} {d e : Driver} {n : ℤ} {result : Option ℤ}

theorem initial_wf : initial.Wf :=
  ⟨rfl,fun _ => ⟨nofun,fun h => absurd h (lt_irrefl 0),fun h => absurd rfl h⟩⟩

theorem close_eq (h2 : s.fd2 = 0) : s.close d = if 0 < s.fd d then s.closeFd d (s.fd d) else s := by
  have hsecond (u : Drivers) (hu : u.fd2 = 0) : ¬ (d = .sensor ∧ 0 < u.fd2) := fun h => by
    rw [hu] at h
    exact lt_irrefl 0 h.2
  unfold close
  dsimp only
  split_ifs with hfd hfd2 hfd2
  · exact absurd hfd2 (hsecond _ h2)
  · rfl
  · exact absurd hfd2 (hsecond _ h2)
  · rfl

theorem Held.closed_eq_nil (hs : s.Held d) (h : s.fd d ≤ 0) : s.closed d = [] := by
  apply List.eq_nil_iff_forall_not_mem.mpr
  intro n hn
  exact absurd (hs.closed n hn).2 (not_lt.mpr h)

theorem Held.fd_pos (hs : s.Held d) (h : s.closed d ≠ []) : 0 < s.fd d ∧ s.fd d ∈ s.closed d := by
  obtain ⟨n,hn⟩ := List.exists_mem_of_ne_nil _ h
  obtain ⟨rfl,hpos⟩ := hs.closed n hn
  exact ⟨hpos,hn⟩

/-- A driver without a descriptor has closed none. -/
theorem held_of_nonpos (hfd : s.fd d ≤ 0) (hclosed : s.closed d = []) : s.Held d := by
  refine ⟨fun n hn => ?_,fun hpos _ => absurd hpos (not_lt.mpr hfd),fun h => absurd hclosed h⟩
  rw [hclosed] at hn
  cases hn

/-- Another driver's call, which may open or close a number. -/
theorem Held.of_other (hs : s.Held e) (hfd : t.fd e = s.fd e) (hclosed : t.closed e = s.closed e)
    (hown : s.table (s.fd e) = some e → t.table (s.fd e) = some e)
    (hstale : s.table (s.fd e) ≠ some e → t.table (s.fd e) ≠ some e) : t.Held e := by
  refine ⟨fun n hn => ?_,fun hpos hnil => ?_,fun hne => ?_⟩
  · rw [hclosed] at hn
    rw [hfd]
    exact hs.closed n hn
  · rw [hfd] at hpos ⊢
    exact hown (hs.own hpos (hclosed.symm.trans hnil))
  · rw [hfd]
    exact hstale (hs.stale fun hnil => hne (hclosed.trans hnil))

/-- An `Open` leaves everything, or fails, or opens a descriptor for a driver without one. -/
theorem open_cases (h : s.open d result = some t) :
    0 < s.fd d ∧ t = s ∨
      s.fd d ≤ 0 ∧ result = none ∧ t = { s with fd := Function.update s.fd d (-1) } ∨
      s.fd d ≤ 0 ∧ ∃ n, result = some n ∧ 0 < n ∧ s.table n = none ∧
        t = { s with fd := Function.update s.fd d n, table := Function.update s.table n (some d) } := by
  unfold «open» at h
  split_ifs at h with hfd
  · cases result with
    | none =>
      cases h
      exact .inr (.inl ⟨hfd,rfl,rfl⟩)
    | some n =>
      simp only [openDevice] at h
      split_ifs at h with hn
      cases h
      exact .inr (.inr ⟨hfd,n,rfl,hn.1,hn.2,rfl⟩)
  · cases h
    exact .inl ⟨not_le.mp hfd,rfl⟩

theorem Wf.open (hs : s.Wf) (h : s.open d result = some t) : t.Wf := by
  obtain ⟨-,rfl⟩ | ⟨hfd,-,rfl⟩ | ⟨hfd,n,-,hpos,hfree,rfl⟩ := open_cases h
  · exact hs
  · refine ⟨hs.fd2,fun e => ?_⟩
    by_cases he : e = d
    · subst he
      refine held_of_nonpos ?_ ((hs.held e).closed_eq_nil hfd)
      simp
    · exact (hs.held e).of_other (Function.update_of_ne he ..) rfl id id
  · refine ⟨hs.fd2,fun e => ?_⟩
    by_cases he : e = d
    · subst he
      have hnil := (hs.held e).closed_eq_nil hfd
      refine ⟨fun m hm => ?_,fun _ _ => ?_,fun h => absurd hnil h⟩
      · dsimp only at hm
        rw [hnil] at hm
        cases hm
      · simp
    · refine (hs.held e).of_other (Function.update_of_ne he ..) rfl (fun hown => ?_) fun hstale => ?_
      · have hne : s.fd e ≠ n := fun heq => by
          rw [heq, hfree] at hown
          cases hown
        exact (Function.update_of_ne hne ..).trans hown
      · dsimp only
        by_cases hn : s.fd e = n
        · rw [hn, Function.update_self]
          exact fun heq => he (Option.some.inj heq).symm
        · rw [Function.update_of_ne hn]
          exact hstale

theorem Wf.close (hs : s.Wf) (hfresh : s.closed d = []) : (s.close d).Wf := by
  rw [close_eq hs.fd2]
  split_ifs with hfd
  · have hown := (hs.held d).own hfd hfresh
    refine ⟨hs.fd2,fun e => ?_⟩
    by_cases he : e = d
    · subst he
      refine ⟨fun n hn => ?_,fun _ hnil => ?_,fun _ => ?_⟩
      · simp only [closeFd, hfresh, Function.update_self, List.nil_append, List.mem_singleton] at hn
        exact ⟨hn,hfd⟩
      · simp [closeFd] at hnil
      · simp [closeFd]
    · refine (hs.held e).of_other rfl (Function.update_of_ne he ..) (fun hown' => ?_) fun hstale => ?_
      · have hne : s.fd e ≠ s.fd d := fun heq => by
          rw [heq, hown] at hown'
          exact he (Option.some.inj hown').symm
        exact (Function.update_of_ne hne ..).trans hown'
      · dsimp only [closeFd]
        by_cases heq : s.fd e = s.fd d
        · rw [heq, Function.update_self]
          exact nofun
        · rw [Function.update_of_ne heq]
          exact hstale
  · exact hs

theorem Wf.step (hs : s.Wf) (hfresh : s.Fresh a) (h : s.step a = some t) : t.Wf := by
  cases a with
  | «open» d result => exact hs.open h
  | close d =>
    cases h
    exact hs.close hfresh

/-- A call is valid just when its driver has closed nothing. -/
theorem fresh_iff_valid (hs : s.Wf) (h : s.step a = some t) : s.Fresh a ↔ s.Valid a := by
  cases a with
  | «open» d result =>
    have hvalid : s.Valid (.open d result) ↔ (0 < t.fd d → t.table (t.fd d) = some d) := by
      constructor
      · intro hv
        exact hv t h
      · rintro hv u hu
        cases h.symm.trans hu
        exact hv
    rw [hvalid]
    obtain ⟨hfd,rfl⟩ | ⟨hfd,-,rfl⟩ | ⟨hfd,n,-,hpos,hfree,rfl⟩ := open_cases h
    · constructor
      · intro hfresh hpos
        exact (hs.held d).own hpos hfresh
      · intro hown
        by_contra hclosed
        exact (hs.held d).stale hclosed (hown hfd)
    · apply iff_of_true ((hs.held d).closed_eq_nil hfd)
      intro hpos
      simp at hpos
    · apply iff_of_true ((hs.held d).closed_eq_nil hfd)
      intro _
      simp
  | close d =>
    constructor
    · intro hfresh _ hmem
      rw [show s.closed d = [] from hfresh] at hmem
      cases hmem
    · intro hvalid
      by_contra hclosed
      obtain ⟨hpos,hmem⟩ := (hs.held d).fd_pos hclosed
      exact hvalid hpos hmem

end

/-- The driver was handed a descriptor, and closed after that. -/
def Released (as : List DriverCall) (d : Driver) : Prop :=
  ∃ n, List.Sublist [.open d (some n),.close d] as

/-- What the calls so far say of a driver: whether it has a descriptor, and whether it closed one. -/
structure Recorded (as : List DriverCall) (s : Drivers) : Prop where
  fd2 : s.fd2 = 0
  opened : ∀ d, 0 < s.fd d ↔ ∃ n, .open d (some n) ∈ as
  released : ∀ d, s.closed d ≠ [] ↔ Released as d

section
variable {as : List DriverCall} {s t : Drivers} {a : DriverCall} {d : Driver}

theorem released_append (as : List DriverCall) (a : DriverCall) (d : Driver) :
    Released (as ++ [a]) d ↔ Released as d ∨ a = .close d ∧ ∃ n, .open d (some n) ∈ as := by
  constructor
  · rintro ⟨n,h⟩
    obtain ⟨l,r,hlr,hl,hr⟩ := List.sublist_append_iff.mp h
    rcases List.sublist_singleton.mp hr with rfl | rfl
    · rw [List.append_nil] at hlr
      exact Or.inl ⟨n,hlr ▸ hl⟩
    · have hsplit : [DriverCall.open d (some n)] ++ [.close d] = l ++ [a] := hlr
      obtain ⟨rfl,hclose⟩ := List.append_inj' hsplit rfl
      cases hclose
      exact Or.inr ⟨rfl,n,List.singleton_sublist.mp hl⟩
  · rintro (⟨n,h⟩ | ⟨rfl,n,hn⟩)
    · exact ⟨n,h.trans (List.sublist_append_left as [a])⟩
    · exact ⟨n,(List.singleton_sublist.mpr hn).append (List.Sublist.refl [DriverCall.close d])⟩

theorem Recorded.open {result : Option ℤ} (h : s.Recorded as) (hstep : s.open d result = some t) :
    t.Recorded (as ++ [.open d result]) := by
  have hreleased (e : Driver) : Released (as ++ [.open d result]) e ↔ Released as e := by
    rw [released_append]
    exact or_iff_left nofun
  have hmem (e : Driver) (n : ℤ) :
      .open e (some n) ∈ as ++ [.open d result] ↔
        .open e (some n) ∈ as ∨ e = d ∧ result = some n := by
    rw [List.mem_append, List.mem_singleton, DriverCall.open.injEq, eq_comm (b := result)]
  obtain ⟨hfd,rfl⟩ | ⟨hfd,rfl,rfl⟩ | ⟨hfd,n,rfl,hpos,-,rfl⟩ := open_cases hstep
  · refine ⟨h.fd2,fun e => ?_,fun e => (h.released e).trans (hreleased e).symm⟩
    simp only [hmem]
    constructor
    · intro hpos
      obtain ⟨n,hn⟩ := (h.opened e).mp hpos
      exact ⟨n,Or.inl hn⟩
    · rintro ⟨n,hn | ⟨rfl,-⟩⟩
      · exact (h.opened e).mpr ⟨n,hn⟩
      · exact hfd
  · refine ⟨h.fd2,fun e => ?_,fun e => (h.released e).trans (hreleased e).symm⟩
    simp only [hmem, reduceCtorEq, and_false, or_false]
    rw [← h.opened e]
    by_cases he : e = d
    · subst he
      rw [Function.update_self]
      exact iff_of_false (by decide) (not_lt.mpr hfd)
    · rw [Function.update_of_ne he]
  · refine ⟨h.fd2,fun e => ?_,fun e => (h.released e).trans (hreleased e).symm⟩
    simp only [hmem, Option.some.injEq]
    by_cases he : e = d
    · subst he
      rw [Function.update_self]
      exact iff_of_true hpos ⟨n,Or.inr ⟨rfl,rfl⟩⟩
    · rw [Function.update_of_ne he, h.opened e]
      simp [he]

theorem Recorded.close (h : s.Recorded as) : (s.close d).Recorded (as ++ [.close d]) := by
  have hmem (e : Driver) (n : ℤ) : .open e (some n) ∈ as ++ [.close d] ↔ .open e (some n) ∈ as := by
    simp
  rw [close_eq h.fd2]
  split_ifs with hfd
  · refine ⟨h.fd2,fun e => ?_,fun e => ?_⟩
    · simp only [hmem]
      exact h.opened e
    · rw [released_append, ← h.released e]
      by_cases he : e = d
      · subst he
        refine iff_of_true ?_ (Or.inr ⟨rfl,(h.opened e).mp hfd⟩)
        simp [closeFd]
      · simp [closeFd, Function.update_of_ne he, Ne.symm he]
  · refine ⟨h.fd2,fun e => ?_,fun e => ?_⟩
    · simp only [hmem]
      exact h.opened e
    · rw [released_append, ← h.released e, ← h.opened e]
      refine (or_iff_left ?_).symm
      rintro ⟨hclose,hpos⟩
      cases hclose
      exact hfd hpos

theorem exec_recorded (he : exec step initial as = some s) : s.Recorded as := by
  have hinit : initial.Recorded [] := by
    refine ⟨rfl,fun d => ?_,fun d => ?_⟩
    · exact iff_of_false (lt_irrefl 0) (by rintro ⟨n,hn⟩; cases hn)
    · refine iff_of_false (fun hne => hne rfl) ?_
      rintro ⟨n,hn⟩
      cases hn
  refine exec_history (I := fun as s => s.Recorded as) hinit ?_ he
  intro as t a u _ h hstep
  cases a with
  | «open» d result => exact h.open hstep
  | close d =>
    cases hstep
    exact h.close

end

/-- Over a run of the four drivers every call is valid if and only if none comes after a `Close`
by which its driver gave a descriptor back. -/
theorem handles_valid_iff {as : List DriverCall} {s : Drivers} (he : exec step initial as = some s) :
    Along step Valid initial as ↔
      ∀ before a after, as = before ++ a :: after → ¬ Released before a.driver := by
  rw [← along_iff_along (I := Wf) (fun _ _ _ hs hfresh h => hs.step hfresh h)
    (fun _ _ _ hs h => fresh_iff_valid hs h) initial_wf he, along_iff_splits]
  refine forall_congr' fun before => forall_congr' fun a => forall_congr' fun after => ?_
  constructor
  · intro h has hreleased
    rw [has] at he
    obtain ⟨t,ht,-⟩ := (exec_append_eq_some step).mp he
    exact ((exec_recorded ht).released a.driver).mpr hreleased (h t has ht)
  · intro h t has ht
    by_contra hclosed
    exact h has (((exec_recorded ht).released a.driver).mp hclosed)

/-- A driver opened and closed once. -/
theorem handles_valid_once : Along step Valid initial [.open .adc (some 3),.close .adc] := by
  obtain ⟨s,he⟩ : ∃ s, exec step initial [.open .adc (some 3),.close .adc] = some s := ⟨_,rfl⟩
  apply (handles_valid_iff he).mpr
  rintro before a after has ⟨n,hn⟩
  have hlen := congrArg List.length has
  have htwo := hn.length_le
  simp only [List.length_cons, List.length_nil, List.length_append] at hlen htwo
  omega

/-- Opened again after a close, a driver keeps the descriptor it gave back. -/
theorem handles_invalid_reopened :
    ¬ ∀ (as : List DriverCall) (s : Drivers), exec step initial as = some s →
      Along step Valid initial as := by
  intro h
  have hopen := (((h [.open .adc (some 3),.close .adc,.open .adc (some 3)] _ rfl).2 _ rfl).2 _ rfl).1
  exact absurd (hopen _ rfl (by decide)) (by decide)

end Drivers
end AdSystem.Sensor
