import Mathlib.Algebra.Order.BigOperators.Group.List
import Mathlib.Tactic.Ring

/-! # Two's complement arithmetic on 32 bits

Signed machine integers are integers reduced by `i32` after every operation, so
that a wrap-around is visible wherever the bounds do not exclude it.
-/
namespace AdSystem.SignedWord

/-- The signed 32-bit value of an integer. -/
def i32 (x : ℤ) : ℤ := x.bmod 4294967296

def InRange (x : ℤ) : Prop := -2147483648 ≤ x ∧ x < 2147483648

theorem i32_eq {x : ℤ} (h : InRange x) : i32 x = x := by
  obtain ⟨hl, hu⟩ := h
  exact Int.bmod_eq_of_le (by omega) (by omega)

theorem i32_natCast {n L : ℕ} (hn : n ≤ L) (hL : L < 2147483648) : i32 (n : ℤ) = n :=
  i32_eq ⟨by omega,by omega⟩

theorem i32_natCast_pred {n L : ℕ} (hn : n ≤ L) (hL : L < 2147483648) :
    i32 ((n : ℤ) - 1) = (n : ℤ) - 1 := i32_eq ⟨by omega,by omega⟩

theorem i32_inRange (x : ℤ) : InRange (i32 x) := by
  have hl := Int.le_bmod (x := x) (m := 4294967296) (by omega)
  have hu := Int.bmod_lt (x := x) (m := 4294967296) (by omega)
  constructor
  · simpa [i32] using hl
  · simpa [i32] using hu

/-- Only the last reduction of a sum matters. -/
theorem i32_add (x y : ℤ) : i32 (i32 x + y) = i32 (x + y) := Int.bmod_add_bmod

/-- A non-negative number below 2^32 wraps to a negative one, or not at all. -/
theorem i32_eq_iff {x y : ℤ} (hx : 0 ≤ x) (hxu : x < 4294967296) (hy : 0 ≤ y) (hyu : y < 2147483648) :
    i32 x = y ↔ x = y := by
  constructor
  · intro h
    rcases lt_or_ge x 2147483648 with hlt | hge
    · rwa [i32_eq ⟨by omega,hlt⟩] at h
    · have hwrap : i32 x = i32 (x - 4294967296) := (Int.sub_bmod_right x 4294967296).symm
      rw [hwrap, i32_eq ⟨by omega,by omega⟩] at h
      omega
  · rintro rfl
    exact i32_eq ⟨by omega,hyu⟩

@[simp] theorem i32_zero : i32 0 = 0 := i32_eq ⟨by omega, by omega⟩

/-- The sum a 32-bit accumulator computes. -/
def sum32 (xs : List ℤ) : ℤ := xs.foldl (fun acc x => i32 (acc + x)) 0

theorem foldl_i32 (xs : List ℤ) (acc : ℤ) (hx : ∀ x ∈ xs, 0 ≤ x) (ha : 0 ≤ acc)
    (hb : acc + xs.sum < 2147483648) :
    xs.foldl (fun acc x => i32 (acc + x)) acc = acc + xs.sum := by
  induction xs generalizing acc with
  | nil => simp
  | cons x xs ih =>
    have hx0 := hx x List.mem_cons_self
    have hs : 0 ≤ xs.sum := List.sum_nonneg (fun y hy => hx y (List.mem_cons_of_mem x hy))
    rw [List.sum_cons] at hb
    rw [List.foldl_cons, i32_eq ⟨by omega, by omega⟩,
      ih (acc + x) (fun y hy => hx y (List.mem_cons_of_mem x hy)) (by omega) (by omega), List.sum_cons]
    ring

/-- Below 2^31 the accumulator of non-negative terms computes the true sum. -/
theorem sum32_eq {xs : List ℤ} (hx : ∀ x ∈ xs, 0 ≤ x) (hb : xs.sum < 2147483648) :
    sum32 xs = xs.sum := by
  rw [sum32, foldl_i32 xs 0 hx le_rfl (by omega), zero_add]

end AdSystem.SignedWord
