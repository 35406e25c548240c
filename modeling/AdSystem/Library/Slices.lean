import Mathlib.Algebra.BigOperators.Intervals
import Mathlib.Algebra.Order.BigOperators.Group.Finset
import Mathlib.Tactic.Ring

/-! # Cutting a range into consecutive slices

`L` positions are cut into `n` slices of `L / n` positions, the last one taking
the rest. Prefixes of the slices never overlap, so that their lengths add up to
`L` only when every position is covered.
-/
namespace AdSystem.Slices
variable {L n i j : ℕ}

def sliceStart (L n i : ℕ) : ℕ := i * (L / n)
def sliceStop (L n i : ℕ) : ℕ := if i + 1 < n then (i + 1) * (L / n) else L

theorem sliceStart_le (h : i ≤ n) : sliceStart L n i ≤ L :=
  (Nat.mul_le_mul_right _ h).trans (Nat.mul_div_le L n)

theorem sliceStop_le : sliceStop L n i ≤ L := by
  unfold sliceStop
  split_ifs with h
  · exact sliceStart_le (i := i + 1) h.le
  · exact le_rfl

theorem sliceStart_le_stop (h : i < n) : sliceStart L n i ≤ sliceStop L n i := by
  unfold sliceStop
  split_ifs
  · exact Nat.mul_le_mul_right _ (Nat.le_succ i)
  · exact sliceStart_le h.le

theorem sliceStop_le_start (hij : i < j) (hj : j < n) : sliceStop L n i ≤ sliceStart L n j := by
  have h : i + 1 < n := by omega
  rw [sliceStop, if_pos h]
  exact Nat.mul_le_mul_right _ hij

theorem prefixes_disjoint {v : ℕ → ℕ} (hv : ∀ i < n, sliceStart L n i + v i ≤ sliceStop L n i) :
    Set.PairwiseDisjoint (Finset.range n : Set ℕ)
      (fun i => Finset.Ico (sliceStart L n i) (sliceStart L n i + v i)) := by
  have key : ∀ i j, i < j → j < n →
      Disjoint (Finset.Ico (sliceStart L n i) (sliceStart L n i + v i))
        (Finset.Ico (sliceStart L n j) (sliceStart L n j + v j)) := by
    intro i j hij hj
    have hi := hv i (hij.trans hj)
    have hs := sliceStop_le_start (L := L) hij hj
    rw [Finset.disjoint_left]
    intro k hk hk'
    rw [Finset.mem_Ico] at hk hk'
    omega
  intro i hi j hj hne
  rw [Finset.coe_range, Set.mem_Iio] at hi hj
  rcases Nat.lt_or_gt_of_ne hne with h | h
  · exact key i j h hj
  · exact (key j i h hi).symm

/-- The positions that prefixes of given lengths cover. -/
def covered (L n : ℕ) (v : ℕ → ℕ) : Finset ℕ :=
  (Finset.range n).biUnion (fun i => Finset.Ico (sliceStart L n i) (sliceStart L n i + v i))

section Prefixes
variable {v : ℕ → ℕ} (hv : ∀ i < n, sliceStart L n i + v i ≤ sliceStop L n i)
include hv

theorem covered_subset : covered L n v ⊆ Finset.range L := by
  intro k hk
  obtain ⟨i,hi,hk⟩ := Finset.mem_biUnion.mp hk
  have h := hv i (Finset.mem_range.mp hi)
  have hle := sliceStop_le (L := L) (n := n) (i := i)
  rw [Finset.mem_Ico] at hk
  rw [Finset.mem_range]
  omega

theorem card_covered : (covered L n v).card = ∑ i ∈ Finset.range n, v i := by
  rw [covered, Finset.card_biUnion (fun i hi j hj hne => prefixes_disjoint hv hi hj hne)]
  simp

theorem prefixes_sum_le : ∑ i ∈ Finset.range n, v i ≤ L := by
  have h := Finset.card_le_card (covered_subset hv)
  rwa [card_covered hv, Finset.card_range] at h

/-- Prefixes whose lengths add up to `L` leave no position out. -/
theorem prefixes_cover {P : ℕ → Prop}
    (hp : ∀ i < n, ∀ k, sliceStart L n i ≤ k → k < sliceStart L n i + v i → P k)
    (hs : L ≤ ∑ i ∈ Finset.range n, v i) : ∀ k < L, P k := by
  have hall : covered L n v = Finset.range L :=
    Finset.eq_of_subset_of_card_le (covered_subset hv)
      (by rw [Finset.card_range, card_covered hv]; exact hs)
  intro k hk
  have hm : k ∈ covered L n v := hall ▸ Finset.mem_range.mpr hk
  obtain ⟨i,hi,hk⟩ := Finset.mem_biUnion.mp hm
  rw [Finset.mem_Ico] at hk
  exact hp i (Finset.mem_range.mp hi) k hk.1 hk.2

end Prefixes

/-- The sum of a list, index by index. -/
theorem sum_eq_sum_getD {M : Type*} [AddCommMonoid M] (xs : List M) :
    xs.sum = ∑ i ∈ Finset.range xs.length, xs.getD i 0 := by
  induction xs with
  | nil => rfl
  | cons x xs ih => rw [List.sum_cons, List.length_cons, Finset.sum_range_succ', ih, add_comm]; rfl

end AdSystem.Slices
