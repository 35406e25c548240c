import Mathlib.Order.Basic
import AdSystem.Library.Observer

/-! # Watching a run beside a clock

Some actions of a system read a clock, which never goes back and which the system is not asked to live
longer than. What an observer then takes is what is put out by the runs whose readings, one after the other,
are in order.
-/
namespace AdSystem.Clock
open Transition Observer
variable {σ α β θ τ : Type*} [LE τ] [DecidableLE τ]

/-- A reading of a clock that stands at `now`. -/
def reading (alive : τ → Prop) [DecidablePred alive] (now time : τ) : Option τ :=
  if now ≤ time ∧ alive time then some time else none

variable {alive : τ → Prop} [DecidablePred alive] {now later time : τ}

theorem reading_eq_some : reading alive now time = some later ↔ now ≤ time ∧ alive time ∧ later = time := by
  rw [reading, Option.ite_none_right_eq_some, Option.some_inj, and_assoc, eq_comm]

theorem exists_exec_reading_iff {times : List τ} : (∃ later, exec (reading alive) now times = some later) ↔
    (now :: times).IsChain (· ≤ ·) ∧ ∀ time ∈ times, alive time := by
  induction times generalizing now with
  | nil => exact iff_of_true ⟨now,rfl⟩ ⟨.singleton _,List.forall_mem_nil _⟩
  | cons time times ih =>
    rw [List.isChain_cons_cons, List.forall_mem_cons, and_assoc, and_left_comm (b := alive time), ← ih]
    constructor
    · rintro ⟨later,h⟩
      obtain ⟨u,hu,hrest⟩ := (exec_cons_eq_some _).mp h
      obtain ⟨hle,halive,rfl⟩ := reading_eq_some.mp hu
      exact ⟨hle,halive,later,hrest⟩
    · rintro ⟨hle,halive,later,h⟩
      exact ⟨later,(exec_cons_eq_some _).mpr ⟨time,reading_eq_some.mpr ⟨hle,halive,rfl⟩,h⟩⟩

theorem exec_reading_le {ι : Type*} [Preorder ι] [DecidableLE ι] {alive : ι → Prop} [DecidablePred alive]
    {now later : ι} {times : List ι} (h : exec (reading alive) now times = some later) : now ≤ later := by
  induction times generalizing now with
  | nil =>
    cases h
    exact le_rfl
  | cons time times ih =>
    obtain ⟨u,hu,hrest⟩ := (exec_cons_eq_some _).mp h
    obtain ⟨hle,-,rfl⟩ := reading_eq_some.mp hu
    exact hle.trans (ih hrest)

section
variable (step : σ → α → Option σ) (times : α → List τ) (alive)

/-- A system with the clock it reads. -/
def clocked (s : σ × τ) (a : α) : Option (σ × τ) :=
  (exec (reading alive) s.2 (times a)).bind fun later => (step s.1 a).map (·,later)

end

variable {step : σ → α → Option σ} {times : α → List τ} {s t : σ} {a : α} {as : List α}

theorem clocked_eq_some : clocked alive step times (s,now) a = some (t,later) ↔
    step s a = some t ∧ exec (reading alive) now (times a) = some later := by
  simp only [clocked, Option.bind_eq_some_iff, Option.map_eq_some_iff, Prod.mk.injEq]
  constructor
  · rintro ⟨u,hu,v,hv,rfl,rfl⟩
    exact ⟨hv,hu⟩
  · rintro ⟨ht,hlater⟩
    exact ⟨later,hlater,t,ht,rfl,rfl⟩

theorem exec_clocked : exec (clocked alive step times) (s,now) as = some (t,later) ↔
    exec step s as = some t ∧ exec (reading alive) now (as.flatMap times) = some later := by
  induction as generalizing s now with
  | nil =>
    rw [exec_nil, List.flatMap_nil, exec_nil, exec_nil, Option.some_inj, Option.some_inj, Option.some_inj,
      Prod.mk.injEq]
  | cons a as ih =>
    rw [List.flatMap_cons]
    constructor
    · intro h
      obtain ⟨⟨u,noon⟩,hu,h⟩ := (exec_cons_eq_some _).mp h
      obtain ⟨hstep,hnoon⟩ := clocked_eq_some.mp hu
      obtain ⟨he,hlater⟩ := ih.mp h
      exact ⟨(exec_cons_eq_some _).mpr ⟨u,hstep,he⟩,(exec_append_eq_some _).mpr ⟨noon,hnoon,hlater⟩⟩
    · rintro ⟨he,hlater⟩
      obtain ⟨u,hstep,he⟩ := (exec_cons_eq_some _).mp he
      obtain ⟨noon,hnoon,hlater⟩ := (exec_append_eq_some _).mp hlater
      exact (exec_cons_eq_some _).mpr ⟨(u,noon),clocked_eq_some.mpr ⟨hstep,hnoon⟩,ih.mpr ⟨he,hlater⟩⟩

variable {out : σ → α → List β} {next : θ → β → Option θ} {q : θ} {word : List β}

theorem trace_clocked {u : σ × τ} (h : exec (clocked alive step times) (s,now) as = some u) :
    trace (clocked alive step times) (fun s => out s.1) (s,now) as = trace step out s as := by
  induction as generalizing s now with
  | nil => rfl
  | cons a as ih =>
    obtain ⟨⟨v,noon⟩,hv,h⟩ := (exec_cons_eq_some _).mp h
    obtain ⟨hstep,-⟩ := clocked_eq_some.mp hv
    rw [trace, trace, hv, hstep, Option.elim_some, Option.elim_some, ih h]

/-- The words that runs in time put out are those an observer takes. -/
theorem put_out_in_time_iff_taken {R Ready : θ → σ → τ → Prop}
    (hstep : ∀ q s now a t later, R q s now → exec (reading alive) now (times a) = some later →
      step s a = some t → ∃ r, exec next q (out s a) = some r ∧ R r t later)
    (hnext : ∀ q s now b r, Ready q s now → next q b = some r →
      ∃ as t later, exec step s as = some t ∧ exec (reading alive) now (as.flatMap times) = some later ∧
        trace step out s as = [b] ∧ Ready r t later)
    (hs : R q s now) (hready : Ready q s now) :
    (∃ as t, exec step s as = some t ∧
      ((now :: as.flatMap times).IsChain (· ≤ ·) ∧ ∀ time ∈ as.flatMap times, alive time) ∧
      trace step out s as = word) ↔ ∃ r, exec next q word = some r := by
  have hclocked : ∀ q (u : σ × τ) a (v : σ × τ), R q u.1 u.2 → clocked alive step times u a = some v →
      ∃ r, exec next q (out u.1 a) = some r ∧ R r v.1 v.2 := by
    rintro q ⟨s,now⟩ a ⟨t,later⟩ hR hc
    obtain ⟨hs,hlater⟩ := clocked_eq_some.mp hc
    exact hstep q s now a t later hR hlater hs
  have hreached : ∀ q (u : σ × τ) b r, Ready q u.1 u.2 → next q b = some r →
      ∃ as v, exec (clocked alive step times) u as = some v ∧
        trace (clocked alive step times) (fun u => out u.1) u as = [b] ∧ Ready r v.1 v.2 := by
    rintro q ⟨s,now⟩ b r hready hb
    obtain ⟨as,t,later,he,hlater,htrace,ht⟩ := hnext q s now b r hready hb
    have hc := exec_clocked.mpr ⟨he,hlater⟩
    exact ⟨as,(t,later),hc,(trace_clocked hc).trans htrace,ht⟩
  have hword : (∃ as u, exec (clocked alive step times) (s,now) as = some u ∧
      trace (clocked alive step times) (fun u => out u.1) (s,now) as = word) ↔ ∃ r, exec next q word = some r :=
    put_out_iff_taken hclocked hreached hs hready
  rw [← hword]
  constructor
  · rintro ⟨as,t,he,htimes,htrace⟩
    obtain ⟨later,hlater⟩ := exists_exec_reading_iff.mpr htimes
    have hc := exec_clocked.mpr ⟨he,hlater⟩
    exact ⟨as,(t,later),hc,(trace_clocked hc).trans htrace⟩
  · rintro ⟨as,⟨t,later⟩,hc,htrace⟩
    obtain ⟨he,hlater⟩ := exec_clocked.mp hc
    exact ⟨as,t,he,exists_exec_reading_iff.mp ⟨later,hlater⟩,(trace_clocked hc).symm.trans htrace⟩

end AdSystem.Clock
