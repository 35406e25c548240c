import Mathlib.Data.List.Basic

/-! # Pools of concurrent processes

A pool is a list of processes addressed by position. One step of a process either
replaces it or takes it out; the others stay.
-/
namespace AdSystem.Pool
variable {P : Type*}

/-- The pool after a step of process `i`: what is left of it, if anything. -/
def update (ps : List P) (i : ℕ) : Option P → List P
  | some p => ps.set i p
  | none => ps.eraseIdx i

theorem mem_update {ps : List P} {i : ℕ} {o : Option P} {q : P} (h : q ∈ update ps i o) :
    q ∈ ps ∨ o = some q := by
  cases o with
  | none => exact Or.inl (List.mem_of_mem_eraseIdx h)
  | some p =>
    rcases List.mem_or_eq_of_mem_set h with h | h
    · exact Or.inl h
    · exact Or.inr (congrArg some h.symm)

theorem mem_update_self {ps : List P} {i : ℕ} {p q : P} (h : ps[i]? = some p) :
    q ∈ update ps i (some q) := by
  obtain ⟨hi,_⟩ := List.getElem?_eq_some_iff.mp h
  exact List.mem_set hi q

theorem mem_update_of_ne {ps : List P} {i j : ℕ} {o : Option P} {q : P} (hj : ps[j]? = some q)
    (hne : j ≠ i) : q ∈ update ps i o := by
  cases o with
  | none => exact List.mem_eraseIdx_iff_getElem?.mpr ⟨j,hne,hj⟩
  | some p =>
    have h : (ps.set i p)[j]? = some q := (List.getElem?_set_ne (Ne.symm hne)).trans hj
    exact List.mem_of_getElem? h

/-- A step that keeps a label of its process adds no label. -/
theorem map_update_sublist {L : Type*} {f : P → L} {ps : List P} {i : ℕ} {o : Option P} {p : P}
    (hp : ps[i]? = some p) (h : ∀ q, o = some q → f q = f p) :
    ((update ps i o).map f).Sublist (ps.map f) := by
  cases o with
  | none => exact (List.eraseIdx_sublist ps i).map f
  | some q =>
    have he : (update ps i (some q)).map f = ps.map f := by
      rw [update, List.map_set, h q rfl]
      apply List.ext_getElem?
      intro j
      rcases eq_or_ne i j with rfl | hne
      · rw [List.getElem?_map, hp]
        obtain ⟨hi,_⟩ := List.getElem?_eq_some_iff.mp hp
        rw [List.getElem?_set_self (by rwa [List.length_map])]
        rfl
      · rw [List.getElem?_set_ne hne]
    rw [he]

end AdSystem.Pool
