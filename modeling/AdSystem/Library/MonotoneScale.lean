import Mathlib.Order.Lattice
import Mathlib.Order.Basic
import Mathlib.Order.Nat
import Mathlib.Data.Nat.Notation
import Mathlib.Tactic.SplitIfs

/-! # Marks on a scale

Finitely many marks are placed on an ordered scale, later ones higher. Two points of
the scale cut out the marks between them; they cut out those from one number to
another exactly if the neighbours of either end lie on the right sides.
-/
namespace AdSystem.MonotoneScale
variable {α : Type*} [LinearOrder α] {n a b : ℕ} {mark : ℕ → α} {low high : α}

/-- Later marks are higher. -/
def Ascending (n : ℕ) (mark : ℕ → α) : Prop := ∀ i j, i < j → j < n → mark i < mark j

/-- The mark is between the points. -/
def Between (mark : ℕ → α) (low high : α) (t : ℕ) : Prop := low ≤ mark t ∧ mark t ≤ high

/-- The points are next to the marks `a` and `b`, on the outside. -/
structure Encloses (n : ℕ) (mark : ℕ → α) (low high : α) (a b : ℕ) : Prop where
  low_le : low ≤ mark a
  le_high : mark b ≤ high
  lt_low : ∀ t, t + 1 = a → mark t < low
  high_lt : b + 1 < n → high < mark (b + 1)

theorem Ascending.le (hmark : Ascending n mark) {i j : ℕ} (hij : i ≤ j) (hj : j < n) : mark i ≤ mark j := by
  rcases Nat.lt_or_eq_of_le hij with hlt | rfl
  · exact (hmark i j hlt hj).le
  · exact le_rfl

theorem Encloses.between_iff (hmark : Ascending n mark) (h : Encloses n mark low high a b) (ha : a < n)
    (hb : b < n) {t : ℕ} (ht : t < n) : Between mark low high t ↔ a ≤ t ∧ t ≤ b := by
  constructor
  · rintro ⟨hlow,hhigh⟩
    constructor
    · by_contra hlt
      obtain ⟨a,rfl⟩ := Nat.exists_eq_succ_of_ne_zero (by omega : a ≠ 0)
      have hle := hmark.le (by omega : t ≤ a) (by omega)
      exact absurd (hlow.trans hle) (not_le.mpr (h.lt_low a rfl))
    · by_contra hlt
      have hle := hmark.le (by omega : b + 1 ≤ t) ht
      exact absurd (hle.trans hhigh) (not_le.mpr (h.high_lt (by omega)))
  · rintro ⟨hat,htb⟩
    exact ⟨h.low_le.trans (hmark.le hat ht),(hmark.le htb hb).trans h.le_high⟩

theorem encloses_of_between_iff (hmark : Ascending n mark) (hab : a ≤ b) (hb : b < n)
    (h : ∀ t, t < n → (Between mark low high t ↔ a ≤ t ∧ t ≤ b)) : Encloses n mark low high a b := by
  have ha := (h a (by omega)).mpr ⟨le_rfl,hab⟩
  have hb' := (h b hb).mpr ⟨hab,le_rfl⟩
  refine ⟨ha.1,hb'.2,fun t ht => ?_,fun hn => ?_⟩
  · by_contra hlow
    have hbetween : Between mark low high t :=
      ⟨not_lt.mp hlow,(hmark t a (by omega) (by omega)).le.trans ha.2⟩
    have hat := ((h t (by omega)).mp hbetween).1
    omega
  · by_contra hhigh
    have hbetween : Between mark low high (b + 1) :=
      ⟨hb'.1.trans (hmark b (b + 1) (by omega) hn).le,not_lt.mp hhigh⟩
    have htb := ((h (b + 1) hn).mp hbetween).2
    omega

/-- Two points cut out the marks from `a` to `b` if and only if they enclose these, or
there are none of either. -/
theorem between_iff_forall (hmark : Ascending n mark) (ha : a < n) (hb : b < n) :
    (∀ t, t < n → (Between mark low high t ↔ a ≤ t ∧ t ≤ b)) ↔
      if a ≤ b then Encloses n mark low high a b else ∀ t, t < n → ¬ Between mark low high t := by
  split_ifs with hab
  · constructor
    · exact encloses_of_between_iff hmark hab hb
    · intro h t ht
      exact h.between_iff hmark ha hb ht
  · refine forall₂_congr fun t _ => ⟨fun h hbetween => ?_,fun h => iff_of_false h fun hc => ?_⟩
    · exact hab ((h.mp hbetween).1.trans (h.mp hbetween).2)
    · exact hab (hc.1.trans hc.2)

end AdSystem.MonotoneScale
