import Mathlib.Data.List.SplitBy

/-! # Runs of a list, one element after the other

`splitBy` cuts a list where neighbours do not belong together. What an element that comes after
the others does to the last run.
-/
namespace AdSystem
variable {α : Type*} {r : α → α → Bool} {l m : List α} {runs : List (List α)} {a b : α}

/-- The last run ends with the last element. -/
theorem exists_splitBy_concat (r : α → α → Bool) (hl : l ≠ []) :
    ∃ runs g a, l.splitBy r = runs ++ [g ++ [a]] ∧ ∃ m, l = m ++ [a] := by
  have hne : l.splitBy r ≠ [] := List.splitBy_ne_nil.mpr hl
  obtain ⟨runs,last,hruns⟩ := (List.eq_nil_or_concat _).resolve_left hne
  rw [List.concat_eq_append] at hruns
  have hlast : last ≠ [] := List.ne_nil_of_mem_splitBy (by rw [hruns]; simp)
  obtain ⟨g,a,hg⟩ := (List.eq_nil_or_concat _).resolve_left hlast
  rw [List.concat_eq_append] at hg
  refine ⟨runs,g,a,by rw [hruns, hg],runs.flatten ++ g,?_⟩
  rw [← List.flatten_splitBy r l, hruns, hg]
  simp

theorem getLast?_of_splitBy (h : l.splitBy r = runs ++ [m ++ [a]]) : l.getLast? = some a := by
  have hl : l = (runs.flatten ++ m) ++ [a] := by
    rw [← List.flatten_splitBy r l, h]
    simp
  rw [hl, List.getLast?_concat]

/-- An element that does not belong to the last one begins a run. -/
theorem splitBy_concat_of_not (h : l.splitBy r = runs ++ [m ++ [a]]) (hr : r a b = false) :
    (l ++ [b]).splitBy r = l.splitBy r ++ [[b]] := by
  refine List.splitBy_append_cons [] fun x hx => ?_
  rw [getLast?_of_splitBy h] at hx
  cases hx
  exact hr

theorem splitBy_concat_of_rel (h : l.splitBy r = runs ++ [m ++ [a]]) (hr : r a b = true) :
    (l ++ [b]).splitBy r = runs ++ [m ++ [a] ++ [b]] := by
  obtain ⟨hl,hnil,hchain,hruns⟩ := List.splitBy_eq_iff.mp h
  refine List.splitBy_eq_iff.mpr ⟨by rw [hl]; simp,by simpa using hnil,fun g hg => ?_,?_⟩
  · rcases List.mem_append.mp hg with hg | hg
    · exact hchain g (List.mem_append_left _ hg)
    · rw [List.mem_singleton.mp hg]
      refine List.isChain_append.mpr ⟨hchain _ (by simp),List.isChain_singleton _,fun x hx y hy => ?_⟩
      rw [List.getLast?_concat] at hx
      cases hx
      cases hy
      exact hr
  · obtain ⟨hinit,_,hlast⟩ := List.isChain_append.mp hruns
    refine List.isChain_append.mpr ⟨hinit,List.isChain_singleton _,fun x hx y hy => ?_⟩
    obtain ⟨hx',hy',hr'⟩ := hlast x hx (m ++ [a]) rfl
    cases hy
    refine ⟨hx',by simp,?_⟩
    rw [List.head_append_of_ne_nil hy']
    exact hr'

theorem splitBy_map {β : Type*} (g : β → α) (l : List β) :
    (l.map g).splitBy r = (l.splitBy fun x y => r (g x) (g y)).map (List.map g) := by
  obtain ⟨hl,hnil,hchain,hruns⟩ := List.splitBy_eq_iff.mp (rfl : (l.splitBy fun x y => r (g x) (g y)) = _)
  refine List.splitBy_eq_iff.mpr ⟨?_,?_,?_,?_⟩
  · rw [← List.map_flatten, List.flatten_splitBy]
  · simp
  · rw [List.forall_mem_map]
    exact fun m hm => (List.isChain_map g).mpr (hchain m hm)
  · rw [List.isChain_map]
    refine hruns.imp fun x y hxy => ?_
    obtain ⟨hx,hy,hr⟩ := hxy
    exact ⟨by simpa using hx,by simpa using hy,by simpa using hr⟩

theorem const_concat_iff {β : Type*} {f : α → β} (ha : a ∈ l) :
    (∀ x ∈ l ++ [b], ∀ y ∈ l ++ [b], f x = f y) ↔ (∀ x ∈ l, ∀ y ∈ l, f x = f y) ∧ f a = f b := by
  constructor
  · intro h
    have hb : b ∈ l ++ [b] := by simp
    exact ⟨fun x hx y hy => h x (List.mem_append_left _ hx) y (List.mem_append_left _ hy),
      h a (List.mem_append_left _ ha) b hb⟩
  · rintro ⟨h,hab⟩
    have hall : ∀ x ∈ l ++ [b], f x = f a := by
      intro x hx
      rcases List.mem_append.mp hx with hx | hx
      · exact h x hx a ha
      · rw [List.mem_singleton.mp hx, hab]
    exact fun x hx y hy => (hall x hx).trans (hall y hy).symm

/-- A function is constant on every run when it is on neighbours that belong together. -/
theorem splitBy_const_iff {β : Type*} (f : α → β) :
    (∀ run ∈ l.splitBy r, ∀ x ∈ run, ∀ y ∈ run, f x = f y) ↔ l.IsChain fun x y => r x y → f x = f y := by
  induction l using List.reverseRecOn with
  | nil => simp
  | append_singleton l b ih =>
    rcases eq_or_ne l [] with rfl | hl
    · simp [List.splitBy, List.splitBy.loop]
    obtain ⟨runs,g,a,hruns,_⟩ := exists_splitBy_concat r hl
    have hlast := getLast?_of_splitBy hruns
    cases hr : r a b with
    | false =>
      rw [splitBy_concat_of_not hruns hr, List.forall_mem_append, ih, List.isChain_append, hlast]
      simp [hr]
    | true =>
      have ha : a ∈ g ++ [a] := by simp
      rw [splitBy_concat_of_rel hruns hr, List.isChain_append, hlast, ← ih, hruns, List.forall_mem_append,
        List.forall_mem_append, List.forall_mem_singleton, List.forall_mem_singleton, const_concat_iff ha]
      simp [hr, and_assoc]

end AdSystem
