import Mathlib.Logic.Basic

/-! # Computations that may throw

Whether a computation returns, read off its parts: what comes first must return, and
then what follows from its result. A pass over a list returns if each of its elements does.
-/
namespace AdSystem.Fallible
universe u
variable {ε : Type*} {α β : Type u}

theorem ok_bind {a : α} {f : α → Except ε β} : (Except.ok a >>= f) = f a := rfl

theorem map_eq_ok {x : Except ε α} {f : α → β} {r : β} : x.map f = .ok r ↔ ∃ a, x = .ok a ∧ f a = r := by
  cases x with
  | ok a =>
    constructor
    · intro h
      exact ⟨a,rfl,Except.ok.inj h⟩
    · rintro ⟨b,hb,rfl⟩
      cases hb
      rfl
  | error e => exact iff_of_false nofun nofun

theorem bind_eq_ok {x : Except ε α} {f : α → Except ε β} {r : β} :
    (x >>= f) = .ok r ↔ ∃ a, x = .ok a ∧ f a = .ok r := by
  constructor
  · intro h
    cases x with
    | ok a => exact ⟨a,rfl,h⟩
    | error e => cases h
  · rintro ⟨a,rfl,h⟩
    exact h

theorem exists_map_ok {x : Except ε α} {f : α → β} : (∃ r, x.map f = .ok r) ↔ ∃ a, x = .ok a := by
  simp only [map_eq_ok]
  constructor
  · rintro ⟨_,a,h,_⟩
    exact ⟨a,h⟩
  · rintro ⟨a,h⟩
    exact ⟨f a,a,h,rfl⟩

theorem exists_bind_ok {x : Except ε α} {f : α → Except ε β} :
    (∃ r, (x >>= f) = .ok r) ↔ ∃ a, x = .ok a ∧ ∃ r, f a = .ok r := by
  simp only [bind_eq_ok]
  constructor
  · rintro ⟨r,a,h,hr⟩
    exact ⟨a,h,r,hr⟩
  · rintro ⟨a,h,r,hr⟩
    exact ⟨r,a,h,hr⟩

theorem exists_mapM_ok {f : α → Except ε β} {as : List α} :
    (∃ bs, as.mapM f = .ok bs) ↔ ∀ a ∈ as, ∃ b, f a = .ok b := by
  induction as with
  | nil => exact iff_of_true ⟨[],rfl⟩ nofun
  | cons a as ih =>
    rw [List.mapM_cons, exists_bind_ok, List.forall_mem_cons, ← ih]
    constructor
    · rintro ⟨b,hb,h⟩
      obtain ⟨bs,hbs,_⟩ := exists_bind_ok.mp h
      exact ⟨⟨b,hb⟩,bs,hbs⟩
    · rintro ⟨⟨b,hb⟩,bs,hbs⟩
      exact ⟨b,hb,exists_bind_ok.mpr ⟨bs,hbs,b :: bs,rfl⟩⟩

theorem mem_of_mapM_ok {f : α → Except ε β} {as : List α} {bs : List β} (h : as.mapM f = .ok bs) {b : β} :
    b ∈ bs ↔ ∃ a ∈ as, f a = .ok b := by
  induction as generalizing bs with
  | nil =>
    cases h
    exact iff_of_false nofun nofun
  | cons a as ih =>
    simp only [List.mapM_cons, bind_eq_ok] at h
    obtain ⟨c,hc,cs,hcs,hbs⟩ := h
    cases hbs
    simp only [List.mem_cons, ih hcs, exists_eq_or_imp, hc, Except.ok.injEq]
    rw [eq_comm]

/-- A pass whose elements return or not, whatever the state they are reached in. -/
theorem exists_foldlM_ok {P : α → Prop} {f : β → α → Except ε β} (h : ∀ b a, (∃ r, f b a = .ok r) ↔ P a)
    {as : List α} {b : β} : (∃ r, as.foldlM f b = .ok r) ↔ ∀ a ∈ as, P a := by
  induction as generalizing b with
  | nil => exact iff_of_true ⟨b,rfl⟩ nofun
  | cons a as ih =>
    rw [List.foldlM_cons, exists_bind_ok, List.forall_mem_cons, ← h b a]
    constructor
    · rintro ⟨c,hc,hrest⟩
      exact ⟨⟨c,hc⟩,ih.mp hrest⟩
    · rintro ⟨⟨c,hc⟩,hrest⟩
      exact ⟨c,hc,ih.mpr hrest⟩

end AdSystem.Fallible
