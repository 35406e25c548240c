import AdSystem.Library.Transition

/-! # Watching a run

An observer reads what a system puts out, one thing after the other, and refuses what it does
not expect: it is a step function itself. A relation that every step of the system keeps shows
that nothing is refused; a run for each step of the observer shows that all it takes is put out.
-/
namespace AdSystem.Observer
open Transition
variable {σ α β θ : Type*} {step : σ → α → Option σ} {out : σ → α → List β} {next : θ → β → Option θ}
  {s t : σ} {as : List α} {q r : θ} {word : List β}

theorem trace_append (h : exec step s as = some t) (bs : List α) :
    trace step out s (as ++ bs) = trace step out s as ++ trace step out t bs := by
  induction as generalizing s with
  | nil =>
    cases h
    rfl
  | cons a as ih =>
    obtain ⟨u,hu,he⟩ := (exec_cons_eq_some step).mp h
    simp only [List.cons_append, trace, hu, Option.elim_some, ih he, List.append_assoc]

/-- What a run puts out is taken, when each step's is. -/
theorem exec_taken {R : θ → σ → Prop}
    (hstep : ∀ q s a t, R q s → step s a = some t → ∃ r, exec next q (out s a) = some r ∧ R r t)
    (hs : R q s) (he : exec step s as = some t) : ∃ r, exec next q (trace step out s as) = some r ∧ R r t := by
  induction as generalizing q s with
  | nil =>
    cases he
    exact ⟨q,rfl,hs⟩
  | cons a as ih =>
    obtain ⟨u,hu,he⟩ := (exec_cons_eq_some step).mp he
    obtain ⟨p,hp,hR⟩ := hstep q s a u hs hu
    obtain ⟨r,hr,hR⟩ := ih hR he
    refine ⟨r,?_,hR⟩
    rw [trace, hu, Option.elim_some]
    exact (exec_append_eq_some next).mpr ⟨p,hp,hr⟩

/-- What an observer takes is put out by a run, when each of its steps is. -/
theorem exists_exec_of_taken {Ready : θ → σ → Prop}
    (hnext : ∀ q s b r, Ready q s → next q b = some r →
      ∃ as t, exec step s as = some t ∧ trace step out s as = [b] ∧ Ready r t)
    (hs : Ready q s) (hw : exec next q word = some r) :
    ∃ as t, exec step s as = some t ∧ trace step out s as = word ∧ Ready r t := by
  induction word generalizing q s with
  | nil =>
    cases hw
    exact ⟨[],s,rfl,rfl,hs⟩
  | cons b word ih =>
    obtain ⟨p,hp,hw⟩ := (exec_cons_eq_some next).mp hw
    obtain ⟨as,t,he,htrace,ht⟩ := hnext q s b p hs hp
    obtain ⟨bs,u,he',htrace',hu⟩ := ih ht hw
    exact ⟨as ++ bs,u,(exec_append_eq_some step).mpr ⟨t,he,he'⟩,by rw [trace_append he, htrace, htrace']; rfl,hu⟩

/-- The words that runs put out are those an observer takes. -/
theorem put_out_iff_taken {R Ready : θ → σ → Prop}
    (hstep : ∀ q s a t, R q s → step s a = some t → ∃ r, exec next q (out s a) = some r ∧ R r t)
    (hnext : ∀ q s b r, Ready q s → next q b = some r →
      ∃ as t, exec step s as = some t ∧ trace step out s as = [b] ∧ Ready r t)
    (hs : R q s) (hready : Ready q s) :
    (∃ as t, exec step s as = some t ∧ trace step out s as = word) ↔ ∃ r, exec next q word = some r := by
  constructor
  · rintro ⟨as,t,he,rfl⟩
    obtain ⟨r,hr,_⟩ := exec_taken hstep hs he
    exact ⟨r,hr⟩
  · rintro ⟨r,hr⟩
    obtain ⟨as,t,he,htrace,_⟩ := exists_exec_of_taken hnext hready hr
    exact ⟨as,t,he,htrace⟩

end AdSystem.Observer
