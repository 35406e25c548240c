import Mathlib.Data.List.Induction

/-! # Runs of a partial step function

A system is a step function that refuses the actions not enabled in a state. A
run is the list of its actions; conditions on runs are read in the state each
action is taken from, so that they never speak about what the action does.
-/
namespace AdSystem.Transition
variable {σ α : Type*} (step : σ → α → Option σ)

/-- The state a list of actions leads to. -/
def exec : σ → List α → Option σ
  | s, [] => some s
  | s, a :: as => (step s a).bind (fun t => exec t as)

/-- Every action of the run meets `P` in the state it is taken from. -/
def Along (P : σ → α → Prop) : σ → List α → Prop
  | _, [] => True
  | s, a :: as => P s a ∧ ∀ t, step s a = some t → Along P t as

/-- What a run puts out, when action `a` in state `s` puts out `out s a`. -/
def trace {β : Type*} (out : σ → α → List β) : σ → List α → List β
  | _, [] => []
  | s, a :: as => out s a ++ (step s a).elim [] (fun t => trace out t as)

@[simp] theorem exec_nil (s : σ) : exec step s [] = some s := rfl
theorem exec_cons (s : σ) (a : α) (as : List α) :
    exec step s (a :: as) = (step s a).bind (fun t => exec step t as) := rfl

theorem exec_cons_eq_some {s u : σ} {a : α} {as : List α} :
    exec step s (a :: as) = some u ↔ ∃ t, step s a = some t ∧ exec step t as = some u := by
  rw [exec_cons, Option.bind_eq_some_iff]

theorem exec_append (s : σ) (as bs : List α) :
    exec step s (as ++ bs) = (exec step s as).bind (fun t => exec step t bs) := by
  induction as generalizing s with
  | nil => rfl
  | cons a as ih =>
    rw [List.cons_append, exec_cons, exec_cons, Option.bind_assoc]
    exact congrArg _ (funext ih)

theorem exec_append_eq_some {s u : σ} {as bs : List α} :
    exec step s (as ++ bs) = some u ↔ ∃ t, exec step s as = some t ∧ exec step t bs = some u := by
  rw [exec_append, Option.bind_eq_some_iff]

/-- A machine that takes every action takes every list of them. -/
theorem exec_total (h : ∀ s a, ∃ t, step s a = some t) (s : σ) (as : List α) :
    ∃ t, exec step s as = some t := by
  induction as generalizing s with
  | nil => exact ⟨s,rfl⟩
  | cons a as ih =>
    obtain ⟨u,hu⟩ := h s a
    obtain ⟨t,ht⟩ := ih u
    exact ⟨t,(exec_cons_eq_some step).mpr ⟨u,hu,ht⟩⟩

@[simp] theorem along_nil (P : σ → α → Prop) (s : σ) : Along step P s [] := trivial

/-- A condition on the actions alone. -/
theorem along_of_forall {P : α → Prop} {as : List α} (h : ∀ a ∈ as, P a) (s : σ) :
    Along step (fun _ a => P a) s as := by
  induction as generalizing s with
  | nil => trivial
  | cons a as ih =>
    rw [List.forall_mem_cons] at h
    exact ⟨h.1,fun t _ => ih h.2 t⟩

variable {step}

theorem along_cons {P : σ → α → Prop} {s t : σ} {a : α} {as : List α} (h : step s a = some t) :
    Along step P s (a :: as) ↔ P s a ∧ Along step P t as := by
  constructor
  · intro ha
    exact ⟨ha.1,ha.2 t h⟩
  · rintro ⟨hp,ha⟩
    refine ⟨hp,fun u hu => ?_⟩
    cases h.symm.trans hu
    exact ha

instance decidableAlong (P : σ → α → Prop) [∀ s a, Decidable (P s a)] :
    ∀ s as, Decidable (Along step P s as)
  | _, [] => isTrue trivial
  | s, a :: as =>
    match h : step s a with
    | none => decidable_of_iff (P s a) ⟨fun hp => ⟨hp,fun _ ht => nomatch h.symm.trans ht⟩,And.left⟩
    | some t =>
      haveI := decidableAlong P t as
      decidable_of_iff (P s a ∧ Along step P t as) (along_cons h).symm

theorem trace_append_singleton {β : Type*} (out : σ → α → List β) {s t : σ} {as : List α} {a : α}
    (h : exec step s as = some t) : trace step out s (as ++ [a]) = trace step out s as ++ out t a := by
  induction as generalizing s with
  | nil =>
    cases h
    cases hs : step t a <;> simp [trace, hs]
  | cons b as ih =>
    obtain ⟨u,hu,he⟩ := (exec_cons_eq_some step).mp h
    simp only [List.cons_append, trace, hu, Option.elim_some, ih he, List.append_assoc]

theorem along_append {P : σ → α → Prop} {s t : σ} {as bs : List α} (h : exec step s as = some t) :
    Along step P s (as ++ bs) ↔ Along step P s as ∧ Along step P t bs := by
  induction as generalizing s with
  | nil =>
    cases h
    exact ⟨fun hp => ⟨trivial,hp⟩,And.right⟩
  | cons a as ih =>
    obtain ⟨u,hu,he⟩ := (exec_cons_eq_some step).mp h
    rw [List.cons_append, along_cons hu, along_cons hu, ih he, and_assoc]

theorem along_append_singleton {P : σ → α → Prop} {s t : σ} {as : List α} {a : α}
    (h : exec step s as = some t) : Along step P s (as ++ [a]) ↔ Along step P s as ∧ P t a := by
  rw [along_append h]
  exact and_congr_right fun _ => ⟨And.left,fun hp => ⟨hp,fun _ _ => trivial⟩⟩

/-- A condition along a run, at each of its actions after those before it. -/
theorem along_iff_splits {P : σ → α → Prop} {s : σ} {as : List α} :
    Along step P s as ↔ ∀ bs a cs t, as = bs ++ a :: cs → exec step s bs = some t → P t a := by
  induction as generalizing s with
  | nil => exact iff_of_true trivial fun bs a cs t h => absurd h.symm (by simp)
  | cons a as ih =>
    constructor
    · rintro ⟨hp,hrest⟩ bs b cs t has he
      cases bs with
      | nil =>
        cases he
        cases has
        exact hp
      | cons c bs =>
        cases has
        obtain ⟨u,hu,he⟩ := (exec_cons_eq_some step).mp he
        exact ih.mp (hrest u hu) bs b cs t rfl he
    · intro h
      refine ⟨h [] a as s rfl rfl,fun u hu => ih.mpr fun bs b cs t has he => ?_⟩
      exact h (a :: bs) b cs t (by rw [has, List.cons_append]) ((exec_cons_eq_some step).mpr ⟨u,hu,he⟩)

/-- A weaker condition holds along the same runs, where it need only be weaker in an invariant. -/
theorem Along.mono_of_invariant {P Q : σ → α → Prop} {I : σ → Prop}
    (hstep : ∀ s a t, I s → P s a → step s a = some t → I t) (hpq : ∀ s a, I s → P s a → Q s a)
    {s : σ} {as : List α} (hs : I s) (h : Along step P s as) : Along step Q s as := by
  induction as generalizing s with
  | nil => trivial
  | cons a as ih => exact ⟨hpq s a hs h.1, fun t ht => ih (hstep s a t hs h.1 ht) (h.2 t ht)⟩

/-- What every step keeps, a whole run keeps. -/
theorem exec_invariant {P : σ → α → Prop} {I : σ → Prop}
    (hstep : ∀ s a t, I s → P s a → step s a = some t → I t) {s t : σ} {as : List α}
    (hs : I s) (hp : Along step P s as) (he : exec step s as = some t) : I t := by
  induction as generalizing s with
  | nil => cases he; exact hs
  | cons a as ih =>
    obtain ⟨u, hu, he⟩ := (exec_cons_eq_some step).mp he
    exact ih (hstep s a u hs hp.1 hu) (hp.2 u hu) he

/-- The same for invariants that also look at the actions already taken. -/
theorem exec_history {I : List α → σ → Prop} {s : σ} (h0 : I [] s)
    (hstep : ∀ as t a u, exec step s as = some t → I as t → step t a = some u → I (as ++ [a]) u)
    {as : List α} {t : σ} (he : exec step s as = some t) : I as t := by
  induction as using List.reverseRecOn generalizing t with
  | nil => cases he; exact h0
  | append_singleton as a ih =>
    obtain ⟨u,hu,he⟩ := (exec_append_eq_some step).mp he
    obtain ⟨v,hv,he⟩ := (exec_cons_eq_some step).mp he
    cases he
    exact hstep as u a t hu (ih hu) hv

/-- `P` holds in every state a run goes through. -/
def Always (step : σ → α → Option σ) (P : σ → Prop) (s : σ) (as : List α) : Prop :=
  ∀ bs t, bs <+: as → exec step s bs = some t → P t

theorem always_cons {P : σ → Prop} {s t : σ} {a : α} {as : List α} (h : step s a = some t) :
    Always step P s (a :: as) ↔ P s ∧ Always step P t as := by
  constructor
  · intro ha
    refine ⟨ha [] s List.nil_prefix rfl,fun bs u hb he => ?_⟩
    exact ha (a :: bs) u (List.cons_prefix_cons.mpr ⟨rfl,hb⟩) ((exec_cons_eq_some step).mpr ⟨t,h,he⟩)
  · rintro ⟨hs,ha⟩ bs u hb he
    cases bs with
    | nil => cases he; exact hs
    | cons b bs =>
      obtain ⟨rfl,hb'⟩ := List.cons_prefix_cons.mp hb
      obtain ⟨v,hv,he⟩ := (exec_cons_eq_some step).mp he
      cases h.symm.trans hv
      exact ha bs u hb' he

theorem always_nil {P : σ → Prop} {s : σ} : Always step P s [] ↔ P s := by
  constructor
  · intro ha
    exact ha [] s List.nil_prefix rfl
  · rintro hs bs t hb he
    cases List.prefix_nil.mp hb
    cases he
    exact hs

theorem always_cons_of_none {P : σ → Prop} {s : σ} {a : α} {as : List α} (h : step s a = none) :
    Always step P s (a :: as) ↔ P s := by
  constructor
  · intro ha
    exact ha [] s List.nil_prefix rfl
  · rintro hs bs t hb he
    cases bs with
    | nil => cases he; exact hs
    | cons b bs =>
      obtain ⟨rfl,_⟩ := List.cons_prefix_cons.mp hb
      obtain ⟨u,hu,_⟩ := (exec_cons_eq_some step).mp he
      cases h.symm.trans hu

instance decidableAlways (P : σ → Prop) [DecidablePred P] : ∀ s as, Decidable (Always step P s as)
  | s, [] => decidable_of_iff (P s) always_nil.symm
  | s, a :: as =>
    match h : step s a with
    | none => decidable_of_iff (P s) (always_cons_of_none h).symm
    | some t =>
      haveI := decidableAlways P t as
      decidable_of_iff (P s ∧ Always step P t as) (always_cons h).symm

/-- When a condition decides whether each step keeps `P`, it decides it for runs. -/
theorem always_iff_along {I P : σ → Prop} {G : σ → α → Prop}
    (hI : ∀ s a t, I s → step s a = some t → I t)
    (hstep : ∀ s a t, I s → P s → step s a = some t → (P t ↔ G s a)) {s u : σ} {as : List α}
    (hs : I s) (hp : P s) (he : exec step s as = some u) :
    Always step P s as ↔ Along step G s as := by
  induction as generalizing s with
  | nil =>
    refine iff_of_true (fun bs t hb he => ?_) trivial
    cases List.prefix_nil.mp hb
    cases he
    exact hp
  | cons a as ih =>
    obtain ⟨t,ht,he⟩ := (exec_cons_eq_some step).mp he
    have hk := hstep s a t hs hp ht
    rw [always_cons ht, along_cons ht]
    constructor
    · rintro ⟨_,ha⟩
      have hpt := ha [] t List.nil_prefix rfl
      exact ⟨hk.mp hpt,(ih (hI s a t hs ht) hpt he).mp ha⟩
    · rintro ⟨hg,ha⟩
      exact ⟨hp,(ih (hI s a t hs ht) (hk.mpr hg) he).mpr ha⟩

/-- Two conditions that agree on the steps from the states of an invariant, which the first one
keeps, hold along the same runs. -/
theorem along_iff_along {P Q : σ → α → Prop} {I : σ → Prop}
    (hstep : ∀ s a t, I s → P s a → step s a = some t → I t)
    (hpq : ∀ s a t, I s → step s a = some t → (P s a ↔ Q s a)) {s u : σ} {as : List α} (hs : I s)
    (he : exec step s as = some u) : Along step P s as ↔ Along step Q s as := by
  induction as generalizing s with
  | nil => exact Iff.rfl
  | cons a as ih =>
    obtain ⟨t,ht,he⟩ := (exec_cons_eq_some step).mp he
    rw [along_cons ht, along_cons ht, ← hpq s a t hs ht]
    exact and_congr_right fun hp => ih (hstep s a t hs hp ht) he

/-- The same for an invariant that every step keeps. -/
theorem along_congr {P Q : σ → α → Prop} {I : σ → Prop}
    (hstep : ∀ s a t, I s → step s a = some t → I t)
    (hpq : ∀ s a t, I s → step s a = some t → (P s a ↔ Q s a)) {s u : σ} {as : List α} (hs : I s)
    (he : exec step s as = some u) : Along step P s as ↔ Along step Q s as :=
  along_iff_along (fun s a t hs _ h => hstep s a t hs h) hpq hs he

/-- `P` holds in every state of a run, and of one that leaves it for actions of the tail. -/
def Settles (step : σ → α → Option σ) (tail : α → Prop) (P : σ → Prop) (s : σ) (as : List α) : Prop :=
  ∀ bs cs t, bs <+: as → (∀ c ∈ cs, tail c) → exec step s (bs ++ cs) = some t → P t

theorem settles_cons {tail : α → Prop} {P : σ → Prop} {s t : σ} {a : α} {as : List α} (h : step s a = some t) :
    Settles step tail P s (a :: as) ↔
      (∀ cs u, (∀ c ∈ cs, tail c) → exec step s cs = some u → P u) ∧ Settles step tail P t as := by
  constructor
  · intro ha
    refine ⟨fun cs u => ha [] cs u List.nil_prefix,fun bs cs u hb hc he => ?_⟩
    refine ha (a :: bs) cs u (List.cons_prefix_cons.mpr ⟨rfl,hb⟩) hc ?_
    exact (exec_cons_eq_some step).mpr ⟨t,h,he⟩
  · rintro ⟨hs,ha⟩ bs cs u hb hc he
    cases bs with
    | nil => exact hs cs u hc he
    | cons b bs =>
      obtain ⟨rfl,hb'⟩ := List.cons_prefix_cons.mp hb
      obtain ⟨v,hv,he⟩ := (exec_cons_eq_some step).mp he
      cases h.symm.trans hv
      exact ha bs cs u hb' hc he

/-- When a condition decides whether each step keeps an invariant that implies `P`, and a step
that breaks it can be followed by actions of the tail to where `P` fails, it decides it for runs. -/
theorem settles_iff_along {I P : σ → Prop} {G : σ → α → Prop} {tail : α → Prop} (hP : ∀ s, I s → P s)
    (hkeep : ∀ s a t, I s → G s a → step s a = some t → I t) (htail : ∀ s a, I s → tail a → G s a)
    (hbreak : ∀ s a t, I s → ¬ G s a → step s a = some t →
      ∃ cs u, (∀ c ∈ cs, tail c) ∧ exec step t cs = some u ∧ ¬ P u) {s u : σ} {as : List α}
    (hs : I s) (he : exec step s as = some u) :
    Settles step tail P s as ↔ Along step G s as := by
  have hdrain : ∀ cs s u, I s → (∀ c ∈ cs, tail c) → exec step s cs = some u → P u := by
    intro cs s u hs hc he
    exact hP u (exec_invariant (P := fun _ c => tail c) (fun s a t hs ha => hkeep s a t hs (htail s a hs ha))
      hs (along_of_forall step hc s) he)
  induction as generalizing s with
  | nil =>
    refine iff_of_true (fun bs cs t hb hc he => ?_) trivial
    cases List.prefix_nil.mp hb
    exact hdrain cs s t hs hc he
  | cons a as ih =>
    obtain ⟨t,ht,he⟩ := (exec_cons_eq_some step).mp he
    rw [settles_cons ht, along_cons ht]
    constructor
    · rintro ⟨_,ha⟩
      have hg : G s a := by
        by_contra hg
        obtain ⟨cs,v,hc,hv,hnot⟩ := hbreak s a t hs hg ht
        exact hnot (ha [] cs v List.nil_prefix hc hv)
      exact ⟨hg,(ih (hkeep s a t hs hg ht) he).mp ha⟩
    · rintro ⟨hg,ha⟩
      exact ⟨fun cs v => hdrain cs s v hs,(ih (hkeep s a t hs hg ht) he).mpr ha⟩

end AdSystem.Transition
