import Mathlib.Logic.Function.Basic
import AdSystem.Download.ThreadDao
import AdSystem.Library.Transition

/-! # The progress database and its users

A call on `thread_info` obtains the database of the one helper, executes its statement and
closes the database. What makes calls wait for each other is the monitor of the object
they are made on, and each task has an object of its own, so that a call may close the
database that another one has in hand.
-/
namespace AdSystem.Download
open Transition

inductive DaoThread where
  | main
  | worker (task id : ℕ)
  deriving DecidableEq, Repr

inductive DaoCall where
  | insertThread (info : ThreadInfo)
  | deleteThread (url : String) (threadId : ℤ)
  | deleteThreads (url : String)
  | updateThread (url : String) (threadId finished : ℤ)
  | getThread (url : String)
  | isExists (url : String) (threadId : ℤ)
  deriving DecidableEq, Repr

namespace DaoCall

def isSynchronized : DaoCall → Bool
  | .getThread _ => false
  | .isExists _ _ => false
  | _ => true

/-- What the statement leaves of the table. -/
def statement (rows : ThreadTable) : DaoCall → ThreadTable
  | .insertThread info => Download.insertThread rows info
  | .deleteThread url threadId => rows.filter (fun r => ¬ (r.url = url ∧ r.id = threadId))
  | .deleteThreads url => Download.deleteThread rows url
  | .updateThread url threadId finished => Download.updateThread rows url threadId finished
  | .getThread _ => rows
  | .isExists _ _ => rows

end DaoCall

/-- How far a call has come, with the database it has in hand. -/
inductive CallPhase where
  | entered
  | obtained (db : ℕ)
  | executed (db : ℕ)
  deriving DecidableEq, Repr

def CallPhase.db : CallPhase → Option ℕ
  | .entered => none
  | .obtained db => some db
  | .executed db => some db

/-- A call that has not returned, on the object of a task. -/
structure PendingCall where
  task : ℕ
  call : DaoCall
  phase : CallPhase
  deriving DecidableEq, Repr

inductive DaoStep where
  | enter (t : DaoThread) (task : ℕ) (call : DaoCall)
  | getDatabase (t : DaoThread)
  | execute (t : DaoThread)
  | close (t : DaoThread)
  deriving DecidableEq, Repr

/-- The steps by which calls that have a database come to their end. -/
def DaoStep.Finishing : DaoStep → Prop
  | .execute _ => True
  | .close _ => True
  | _ => False

/-- The helper with its database, the monitors and the calls. Databases are numbered as they are
opened, and `failed` lists the threads whose statement met a closed one. -/
structure ProgressDb where
  cached : Option ℕ
  isOpen : ℕ → Bool
  opened : ℕ
  rows : ThreadTable
  monitor : ℕ → Option DaoThread
  calls : DaoThread → Option PendingCall
  failed : List DaoThread

namespace ProgressDb

def initial (rows : ThreadTable) : ProgressDb :=
  ⟨none,fun _ => false,0,rows,fun _ => none,fun _ => none,[]⟩

def openDatabase (s : ProgressDb) : ℕ × ProgressDb :=
  (s.opened,{ s with
    cached := some s.opened
    isOpen := Function.update s.isOpen s.opened true
    opened := s.opened + 1 })

/-- `getWritableDatabase` and `getReadableDatabase`: the cached database, unless it was closed. -/
def getDatabase (s : ProgressDb) : ℕ × ProgressDb :=
  match s.cached with
  | some db => if s.isOpen db then (db,s) else s.openDatabase
  | none => s.openDatabase

def setPhase (s : ProgressDb) (t : DaoThread) (c : PendingCall) (p : CallPhase) : ProgressDb :=
  { s with calls := Function.update s.calls t (some { c with phase := p }) }

/-- The call returns, or ends with what it throws. -/
def leave (s : ProgressDb) (t : DaoThread) (c : PendingCall) : ProgressDb :=
  { s with
    calls := Function.update s.calls t none
    monitor := if c.call.isSynchronized then Function.update s.monitor c.task none else s.monitor }

def enter (s : ProgressDb) (t : DaoThread) (task : ℕ) (call : DaoCall) : ProgressDb :=
  { s with
    calls := Function.update s.calls t (some ⟨task,call,.entered⟩)
    monitor := if call.isSynchronized then Function.update s.monitor task (some t) else s.monitor }

/-- A statement on a closed database throws. -/
def execute (s : ProgressDb) (t : DaoThread) (c : PendingCall) (db : ℕ) : ProgressDb :=
  if s.isOpen db then { s.setPhase t c (.executed db) with rows := c.call.statement s.rows }
  else { s.leave t c with failed := s.failed ++ [t] }

def close (s : ProgressDb) (t : DaoThread) (c : PendingCall) (db : ℕ) : ProgressDb :=
  { s.leave t c with isOpen := Function.update s.isOpen db false }

def step (s : ProgressDb) : DaoStep → Option ProgressDb
  | .enter t task call =>
    if s.calls t = none ∧ (call.isSynchronized → s.monitor task = none) then some (s.enter t task call)
    else none
  | .getDatabase t =>
    match s.calls t with
    | some ⟨task,call,.entered⟩ =>
      some (s.getDatabase.2.setPhase t ⟨task,call,.entered⟩ (.obtained s.getDatabase.1))
    | _ => none
  | .execute t =>
    match s.calls t with
    | some ⟨task,call,.obtained db⟩ => some (s.execute t ⟨task,call,.obtained db⟩ db)
    | _ => none
  | .close t =>
    match s.calls t with
    | some ⟨task,call,.executed db⟩ => some (s.close t ⟨task,call,.executed db⟩ db)
    | _ => none

/-- The database that the call of a thread has in hand. -/
def holds (s : ProgressDb) (t : DaoThread) : Option ℕ := (s.calls t).bind fun c => c.phase.db

/-- A call obtains its database while no other has one in hand. -/
def Alone (s : ProgressDb) : DaoStep → Prop
  | .getDatabase t => ∀ u ≠ t, s.holds u = none
  | _ => True

/-- At most one call has a database in hand, and that is the one the helper keeps open. -/
structure Sole (s : ProgressDb) : Prop where
  current : ∀ t db, s.holds t = some db → s.cached = some db ∧ s.isOpen db = true
  only : ∀ t u, s.holds t ≠ none → s.holds u ≠ none → t = u
  failed : s.failed = []

section
variable {rows : ThreadTable} {s t : ProgressDb} {a : DaoStep} {u v : DaoThread} {c : PendingCall}
  {p : CallPhase} {db task : ℕ} {call : DaoCall}

theorem initial_sole : (initial rows).Sole := ⟨nofun,fun _ _ h => absurd rfl h,rfl⟩

@[simp] theorem setPhase_calls :
    (s.setPhase u c p).calls = Function.update s.calls u (some { c with phase := p }) := rfl
@[simp] theorem leave_calls : (s.leave u c).calls = Function.update s.calls u none := rfl
@[simp] theorem enter_calls :
    (s.enter u task call).calls = Function.update s.calls u (some ⟨task,call,.entered⟩) := rfl

theorem setPhase_holds : (s.setPhase u c p).holds = Function.update s.holds u p.db := by
  funext v
  by_cases hv : v = u
  · subst hv
    simp [holds]
  · simp [holds, Function.update_of_ne hv]

theorem leave_holds : (s.leave u c).holds = Function.update s.holds u none := by
  funext v
  by_cases hv : v = u
  · subst hv
    simp [holds]
  · simp [holds, Function.update_of_ne hv]

theorem enter_holds (h : s.calls u = none) : (s.enter u task call).holds = s.holds := by
  funext v
  by_cases hv : v = u
  · subst hv
    simp [holds, h, CallPhase.db]
  · simp [holds, Function.update_of_ne hv]

theorem getDatabase_of_open (hc : s.cached = some db) (ho : s.isOpen db = true) :
    s.getDatabase = (db,s) := by
  simp [getDatabase, hc, ho]

/-- The helper hands out the database that it keeps from then on, and has opened it. -/
theorem getDatabase_spec (s : ProgressDb) :
    s.getDatabase.2.cached = some s.getDatabase.1 ∧ s.getDatabase.2.isOpen s.getDatabase.1 = true ∧
      s.getDatabase.2.calls = s.calls ∧ s.getDatabase.2.monitor = s.monitor ∧
      s.getDatabase.2.failed = s.failed := by
  unfold getDatabase
  cases hc : s.cached with
  | none => simp [openDatabase]
  | some db =>
    by_cases ho : s.isOpen db = true
    · simp [ho, hc]
    · simp [ho, openDatabase]

theorem getDatabase_holds : s.getDatabase.2.holds = s.holds := by
  unfold holds
  rw [(getDatabase_spec s).2.2.1]

inductive Steps (s : ProgressDb) : DaoStep → ProgressDb → Prop where
  | enter (u : DaoThread) (task : ℕ) (call : DaoCall) (idle : s.calls u = none)
      (free : call.isSynchronized → s.monitor task = none) : Steps s (.enter u task call) (s.enter u task call)
  | getDatabase (u : DaoThread) (c : PendingCall) (hcall : s.calls u = some c) (hphase : c.phase = .entered) :
      Steps s (.getDatabase u) (s.getDatabase.2.setPhase u c (.obtained s.getDatabase.1))
  | execute (u : DaoThread) (c : PendingCall) (db : ℕ) (hcall : s.calls u = some c)
      (hphase : c.phase = .obtained db) : Steps s (.execute u) (s.execute u c db)
  | close (u : DaoThread) (c : PendingCall) (db : ℕ) (hcall : s.calls u = some c)
      (hphase : c.phase = .executed db) : Steps s (.close u) (s.close u c db)

theorem step_iff : s.step a = some t ↔ s.Steps a t := by
  constructor
  · intro h
    cases a with
    | enter u task call =>
      simp only [step] at h
      split_ifs at h with hc
      cases h
      exact .enter u task call hc.1 hc.2
    | getDatabase u =>
      simp only [step] at h
      split at h
      · rename_i task call hcall
        cases h
        exact .getDatabase u _ hcall rfl
      · cases h
    | execute u =>
      simp only [step] at h
      split at h
      · rename_i task call db hcall
        cases h
        exact .execute u _ db hcall rfl
      · cases h
    | close u =>
      simp only [step] at h
      split at h
      · rename_i task call db hcall
        cases h
        exact .close u _ db hcall rfl
      · cases h
  · rintro (⟨u,task,call,idle,free⟩ | ⟨u,⟨task,call,p⟩,hcall,rfl⟩ | ⟨u,⟨task,call,p⟩,db,hcall,rfl⟩ |
      ⟨u,⟨task,call,p⟩,db,hcall,rfl⟩)
    · exact if_pos ⟨idle,free⟩
    · simp only [step, hcall]
    · simp only [step, hcall]
    · simp only [step, hcall]

theorem execute_of_open (h : s.isOpen db = true) :
    s.execute u c db = { s.setPhase u c (.executed db) with rows := c.call.statement s.rows } := if_pos h

theorem holds_of_phase (hcall : s.calls u = some c) : s.holds u = c.phase.db := by
  rw [holds, hcall, Option.bind_some]

theorem Sole.step (hs : s.Sole) (ha : s.Alone a) (h : s.step a = some t) : t.Sole := by
  cases step_iff.mp h with
  | enter u task call idle free =>
    have hholds : (s.enter u task call).holds = s.holds := enter_holds idle
    refine ⟨fun v db hv => hs.current v db ?_,fun v w hv hw => hs.only v w ?_ ?_,hs.failed⟩
    · rwa [← hholds]
    · rwa [← hholds]
    · rwa [← hholds]
  | getDatabase u c hcall hphase =>
    obtain ⟨hcached,hopen,-,-,hfailed⟩ := getDatabase_spec s
    have hother (v : DaoThread) (hv : v ≠ u) :
        (s.getDatabase.2.setPhase u c (.obtained s.getDatabase.1)).holds v = none := by
      rw [setPhase_holds, Function.update_of_ne hv, getDatabase_holds]
      exact ha v hv
    refine ⟨fun v db hv => ?_,fun v w hv hw => ?_,hfailed.trans hs.failed⟩
    · by_cases hvu : v = u
      · subst hvu
        rw [setPhase_holds, Function.update_self] at hv
        cases hv
        exact ⟨hcached,hopen⟩
      · rw [hother v hvu] at hv
        cases hv
    · have hv' : v = u := by_contra fun hne => hv (hother v hne)
      have hw' : w = u := by_contra fun hne => hw (hother w hne)
      exact hv'.trans hw'.symm
  | execute u c db hcall hphase =>
    have hu : s.holds u = some db := by rw [holds_of_phase hcall, hphase, CallPhase.db]
    obtain ⟨hcached,hopen⟩ := hs.current u db hu
    rw [execute_of_open hopen]
    have hholds : (s.setPhase u c (.executed db)).holds = s.holds := by
      rw [setPhase_holds]
      exact (congrArg _ hu.symm).trans (Function.update_eq_self u s.holds)
    refine ⟨fun v d hv => hs.current v d ?_,fun v w hv hw => hs.only v w ?_ ?_,hs.failed⟩
    · rw [← hholds]
      exact hv
    · rw [← hholds]
      exact hv
    · rw [← hholds]
      exact hw
  | close u c db hcall hphase =>
    have hu : s.holds u = some db := by rw [holds_of_phase hcall, hphase, CallPhase.db]
    have hnone (v : DaoThread) : (s.close u c db).holds v = none := by
      change (s.leave u c).holds v = none
      rw [leave_holds]
      by_cases hv : v = u
      · subst hv
        exact Function.update_self ..
      · rw [Function.update_of_ne hv]
        by_contra hne
        exact hv (hs.only v u hne (by rw [hu]; exact Option.some_ne_none db))
    refine ⟨fun v d hv => ?_,fun v w hv _ => absurd (hnone v) hv,hs.failed⟩
    rw [hnone v] at hv
    cases hv

/-- The call that has executed closes the database before the other one executes. -/
theorem close_breaks {d : PendingCall} (hne : v ≠ u) (hu : s.calls u = some c) (hv : s.calls v = some d)
    (hc : c.phase = .obtained db) (hd : d.phase = .executed db) :
    ∃ t, exec step s [.close v,.execute u] = some t ∧ t.failed ≠ [] := by
  have hclose : s.step (.close v) = some (s.close v d db) := step_iff.mpr (.close v d db hv hd)
  have hu' : (s.close v d db).calls u = some c := (Function.update_of_ne hne.symm ..).trans hu
  have hclosed : ¬ (s.close v d db).isOpen db = true := by simp [close]
  have hexecute := step_iff.mpr (.execute u c db hu' hc)
  refine ⟨_,(exec_cons_eq_some step).mpr ⟨_,hclose,(exec_cons_eq_some step).mpr ⟨_,hexecute,rfl⟩⟩,?_⟩
  rw [execute, if_neg hclosed]
  exact List.append_ne_nil_of_right_ne_nil _ (List.cons_ne_nil u [])

/-- Of two calls with the same database in hand one finishes first, and closes it for the other. -/
theorem shared_breaks {d : PendingCall} (hne : v ≠ u) (hopen : s.isOpen db = true) (hu : s.calls u = some c)
    (hv : s.calls v = some d) (hc : c.phase = .obtained db) (hd : d.phase.db = some db) :
    ∃ cs t, (∀ a ∈ cs, a.Finishing) ∧ exec step s cs = some t ∧ t.failed ≠ [] := by
  have htail : ∀ a ∈ [DaoStep.close v,.execute u], a.Finishing := by
    rw [List.forall_mem_cons, List.forall_mem_singleton]
    exact ⟨trivial,trivial⟩
  cases hphase : d.phase with
  | entered =>
    rw [hphase] at hd
    cases hd
  | executed db' =>
    rw [hphase] at hd
    cases hd
    obtain ⟨t,ht,hfailed⟩ := close_breaks hne hu hv hc hphase
    exact ⟨_,t,htail,ht,hfailed⟩
  | obtained db' =>
    rw [hphase] at hd
    cases hd
    have hexecute := step_iff.mpr (.execute v d db hv hphase)
    rw [execute_of_open hopen] at hexecute
    obtain ⟨t,ht,hfailed⟩ := close_breaks (s := { s.setPhase v d (.executed db) with
      rows := d.call.statement s.rows }) hne ((Function.update_of_ne hne.symm ..).trans hu)
      (Function.update_self ..) hc rfl
    refine ⟨.execute v :: [.close v,.execute u],t,?_,(exec_cons_eq_some step).mpr ⟨_,hexecute,ht⟩,hfailed⟩
    rw [List.forall_mem_cons]
    exact ⟨trivial,htail⟩

theorem obtain_breaks (hs : s.Sole) (ha : ¬ s.Alone a) (h : s.step a = some t) :
    ∃ cs t', (∀ a ∈ cs, a.Finishing) ∧ exec ProgressDb.step t cs = some t' ∧ t'.failed ≠ [] := by
  cases step_iff.mp h with
  | enter => exact absurd trivial ha
  | execute => exact absurd trivial ha
  | close => exact absurd trivial ha
  | getDatabase u c hcall hphase =>
    simp only [Alone, not_forall] at ha
    obtain ⟨v,hne,hv⟩ := ha
    obtain ⟨db,hdb⟩ := Option.ne_none_iff_exists'.mp hv
    obtain ⟨d,hd,hphase'⟩ := Option.bind_eq_some_iff.mp hdb
    obtain ⟨hcached,hopen⟩ := hs.current v db hdb
    rw [getDatabase_of_open hcached hopen]
    exact shared_breaks hne hopen (Function.update_self ..)
      ((Function.update_of_ne hne ..).trans hd) rfl hphase'

end

/-- Calls are made on the object of one task only, and are not the queries. -/
def OnObject (task : ℕ) : DaoStep → Prop
  | .enter _ k call => k = task ∧ call.isSynchronized = true
  | _ => True

/-- Each call on the object of the task has its monitor. -/
def Monitored (task : ℕ) (s : ProgressDb) : Prop :=
  ∀ u c, s.calls u = some c → c.task = task ∧ c.call.isSynchronized = true ∧ s.monitor task = some u

section
variable {rows : ThreadTable} {s t : ProgressDb} {a : DaoStep} {task : ℕ} {u v : DaoThread}
  {c d : PendingCall}

theorem initial_monitored : (initial rows).Monitored task := by
  intro u c h
  cases h

theorem Monitored.unique (hs : s.Monitored task) (hu : s.calls u = some c) (hv : s.calls v = some d) :
    u = v := Option.some.inj ((hs u c hu).2.2.symm.trans (hs v d hv).2.2)

theorem Monitored.setPhase {p : CallPhase} (hs : s.Monitored task) (hu : s.calls u = some c) :
    (s.setPhase u c p).Monitored task := by
  intro v d hv
  by_cases hvu : v = u
  · subst hvu
    rw [setPhase_calls, Function.update_self] at hv
    cases hv
    exact hs v c hu
  · rw [setPhase_calls, Function.update_of_ne hvu] at hv
    exact hs v d hv

theorem Monitored.leave (hs : s.Monitored task) (hu : s.calls u = some c) :
    (s.leave u c).Monitored task := by
  intro v d hv
  by_cases hvu : v = u
  · subst hvu
    rw [leave_calls, Function.update_self] at hv
    cases hv
  · rw [leave_calls, Function.update_of_ne hvu] at hv
    exact absurd (hs.unique hv hu) hvu

theorem Monitored.step (hs : s.Monitored task) (ha : OnObject task a) (h : s.step a = some t) :
    t.Monitored task := by
  cases step_iff.mp h with
  | enter u k call idle free =>
    obtain ⟨rfl,hsync⟩ := ha
    have hnone (v : DaoThread) : s.calls v = none := by
      cases hv : s.calls v with
      | none => rfl
      | some c =>
        have hmonitor := (hs v c hv).2.2
        rw [free hsync] at hmonitor
        cases hmonitor
    intro v c hv
    by_cases hvu : v = u
    · subst hvu
      rw [enter_calls, Function.update_self] at hv
      cases hv
      exact ⟨rfl,hsync,by simp [ProgressDb.enter, hsync]⟩
    · rw [enter_calls, Function.update_of_ne hvu, hnone v] at hv
      cases hv
  | getDatabase u c hcall hphase =>
    obtain ⟨-,-,hcalls,hmonitor,-⟩ := getDatabase_spec s
    have hs' : s.getDatabase.2.Monitored task := by
      unfold Monitored
      rw [hcalls, hmonitor]
      exact hs
    exact hs'.setPhase ((congrFun hcalls u).trans hcall)
  | execute u c db hcall hphase =>
    unfold execute
    split_ifs
    · exact hs.setPhase (p := .executed db) hcall
    · exact hs.leave hcall
  | close u c db hcall hphase => exact hs.leave hcall

/-- The monitor of one object keeps its calls apart, as long as they are not the queries. -/
theorem alone_of_onObject (task : ℕ) {as : List DaoStep} (h : ∀ a ∈ as, OnObject task a)
    (he : exec step (initial rows) as = some s) : Along step Alone (initial rows) as := by
  rw [along_iff_splits]
  rintro bs a cs t rfl hbs
  obtain ⟨t',ht',hrest⟩ := (exec_append_eq_some step).mp he
  cases hbs.symm.trans ht'
  obtain ⟨u,hu,-⟩ := (exec_cons_eq_some step).mp hrest
  have hmonitored : t.Monitored task := by
    refine exec_invariant (fun _ _ _ hs ha h => hs.step ha h) initial_monitored ?_ hbs
    exact along_of_forall step (fun a ha => h a (List.mem_append_left _ ha)) _
  cases step_iff.mp hu with
  | getDatabase u c hcall hphase =>
    intro v hv
    cases hd : t.calls v with
    | none => rw [holds, hd, Option.bind_none]
    | some d => exact absurd (hmonitored.unique hd hcall) hv
  | enter => trivial
  | execute => trivial
  | close => trivial

end

/-- Over a run of the calls, and of those that have a database in hand to their end, no statement is
executed on a closed database if and only if each call obtains its database while no other has one. -/
theorem statements_safe_iff {rows : ThreadTable} {as : List DaoStep} {s : ProgressDb}
    (he : exec step (initial rows) as = some s) :
    Settles step DaoStep.Finishing (fun s => s.failed = []) (initial rows) as ↔
      Along step Alone (initial rows) as := by
  refine settles_iff_along (I := Sole) (fun _ hs => hs.failed) (fun _ _ _ hs ha h => hs.step ha h)
    (fun _ a _ ha => ?_) (fun _ _ _ hs ha h => obtain_breaks hs ha h) initial_sole he
  cases a with
  | enter => cases ha
  | getDatabase => cases ha
  | execute => trivial
  | close => trivial

/-- Two workers of one task save their progress, one after the other. -/
theorem statements_safe_in_turn :
    Settles step DaoStep.Finishing (fun s => s.failed = []) (initial [])
      [.enter (.worker 0 0) 0 (.updateThread "u" 0 5),.getDatabase (.worker 0 0),.execute (.worker 0 0),
        .close (.worker 0 0),.enter (.worker 0 1) 0 (.updateThread "u" 1 7),.getDatabase (.worker 0 1)] := by
  refine (statements_safe_iff rfl).mpr (alone_of_onObject 0 ?_ rfl)
  simp [OnObject, DaoCall.isSynchronized]

/-- Workers of two tasks save their progress at the same time. -/
theorem statements_fail_interleaved :
    ¬ ∀ (rows : ThreadTable) (as : List DaoStep) (s : ProgressDb),
      exec step (initial rows) as = some s → s.failed = [] := by
  intro h
  have hfailed := h []
    [.enter (.worker 0 0) 0 (.updateThread "u" 0 5),.enter (.worker 1 0) 1 (.updateThread "v" 0 7),
      .getDatabase (.worker 0 0),.getDatabase (.worker 1 0),.execute (.worker 0 0),.close (.worker 0 0),
      .execute (.worker 1 0)] _ rfl
  exact List.cons_ne_nil _ _ hfailed

end ProgressDb
end AdSystem.Download
