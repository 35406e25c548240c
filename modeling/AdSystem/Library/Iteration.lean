import Mathlib.Data.Finset.Card

/-! # Iterating over unordered sets

A hash set is the set of its elements; the order in which it is iterated is a
choice of a list for every set, and nothing may depend on more than its spec.
-/
namespace AdSystem.Iteration

/-- An order of iteration: every element of a set comes exactly once. -/
structure IterOrder (K : Type*) where
  list : Finset K → List K
  nodup : ∀ s, (list s).Nodup
  mem : ∀ s x, x ∈ list s ↔ x ∈ s

variable {K : Type*} (order : IterOrder K)

/-- The lists that the multisets of the sets are quotients of. -/
noncomputable def IterOrder.some : IterOrder K :=
  ⟨Finset.toList,Finset.nodup_toList,fun _ _ => Finset.mem_toList⟩

/-- An order in which an element comes first. -/
noncomputable def IterOrder.headed [DecidableEq K] (x : K) : IterOrder K where
  list s := if x ∈ s then x :: (s.erase x).toList else s.toList
  nodup s := by
    split_ifs
    · exact List.nodup_cons.mpr ⟨by simp,Finset.nodup_toList _⟩
    · exact Finset.nodup_toList s
  mem s y := by
    split_ifs with hx
    · rw [List.mem_cons, Finset.mem_toList, Finset.mem_erase]
      by_cases hy : y = x
      · subst hy
        exact iff_of_true (Or.inl rfl) hx
      · simp [hy]
    · exact Finset.mem_toList

theorem IterOrder.headed_list [DecidableEq K] {x : K} {s : Finset K} (hx : x ∈ s) :
    (headed x).list s = x :: (s.erase x).toList := if_pos hx

theorem IterOrder.length (s : Finset K) : (order.list s).length = s.card := by
  classical
  have h : (order.list s).toFinset = s := by
    ext x
    rw [List.mem_toFinset, order.mem]
  calc (order.list s).length = (order.list s).toFinset.card :=
        (List.toFinset_card_of_nodup (order.nodup s)).symm
    _ = s.card := by rw [h]

theorem IterOrder.eq_nil {s : Finset K} : order.list s = [] ↔ s = ∅ := by
  rw [← List.length_eq_zero_iff, order.length, Finset.card_eq_zero]

theorem IterOrder.singleton (x : K) : order.list {x} = [x] := by
  have hmem := order.mem {x}
  obtain ⟨y,hy⟩ := List.length_eq_one_iff.mp ((order.length {x}).trans (Finset.card_singleton x))
  rw [hy] at hmem ⊢
  rw [Finset.mem_singleton.mp ((hmem y).mp (List.mem_singleton_self y))]

end AdSystem.Iteration
