import Mathlib.Data.List.Chain
import Mathlib.Order.Lattice

/-! # Intervals that cover a range once

Half-open intervals in the order of their starts, each of which reaches the start of the
next one. They leave no point between them out, so that all that can go wrong is that one
of them goes on beyond the start of the next, or that the last one stops too early.
-/
namespace AdSystem.Tiling
variable {α : Type*} [LinearOrder α]

/-- The first and the last component are the start and the end of an interval. -/
def Touching : List (α × α) → Prop
  | [] => True
  | [p] => p.1 < p.2
  | p :: q :: rest => p.1 < q.1 ∧ q.1 ≤ p.2 ∧ Touching (q :: rest)

/-- How many of the intervals a point is in. -/
def coverCount (pieces : List (α × α)) (k : α) : ℕ := pieces.countP fun p => p.1 ≤ k ∧ k < p.2

section Touching
variable {p : α × α} {rest : List (α × α)} {k : α}

theorem Touching.head_lt (h : Touching (p :: rest)) : p.1 < p.2 := by
  cases rest with
  | nil => exact h
  | cons q rest => exact h.1.trans_le h.2.1

theorem coverCount_cons (p : α × α) (rest : List (α × α)) (k : α) :
    coverCount (p :: rest) k = coverCount rest k + if p.1 ≤ k ∧ k < p.2 then 1 else 0 := by
  simp [coverCount, List.countP_cons]

/-- A point before the first start is in none of the intervals. -/
theorem Touching.coverCount_eq_zero (h : Touching (p :: rest)) (hk : k < p.1) :
    coverCount (p :: rest) k = 0 := by
  induction rest generalizing p with
  | nil => rw [coverCount_cons, if_neg (fun hc => hk.not_ge hc.1)]; rfl
  | cons q rest ih =>
    rw [coverCount_cons, ih h.2.2 (hk.trans h.1), if_neg (fun hc => hk.not_ge hc.1)]

/-- Every point below `b` is in one of the intervals only, exactly when none goes on beyond a start
below `b` and the last one reaches `b`. -/
theorem coversOnce_iff (h : Touching (p :: rest)) (b : α) :
    (∀ k, p.1 ≤ k → k < b → coverCount (p :: rest) k = 1) ↔
      (p :: rest).IsChain (fun q r => q.2 ≤ r.1 ∨ b ≤ r.1) ∧ ∀ q ∈ (p :: rest).getLast?, b ≤ q.2 := by
  induction rest generalizing p with
  | nil =>
    have hlast : (∀ q ∈ [p].getLast?, b ≤ q.2) ↔ b ≤ p.2 := by simp
    rw [hlast, and_iff_right (List.isChain_singleton p)]
    constructor
    · intro hc
      by_contra hb
      have hone := hc p.2 h.head_lt.le (not_le.mp hb)
      rw [coverCount_cons, if_neg (fun hi => lt_irrefl _ hi.2)] at hone
      cases hone
    · intro hb k hk hkb
      rw [coverCount_cons, if_pos ⟨hk,hkb.trans_le hb⟩]
      rfl
  | cons q rest ih =>
    obtain ⟨hlt,hle,ht⟩ := h
    have hlast : (p :: q :: rest).getLast? = (q :: rest).getLast? := List.getLast?_cons_cons
    rw [hlast, List.isChain_cons_cons, and_assoc, ← ih ht]
    -- the point where the next interval starts tells whether this one goes on
    have hstart : 1 ≤ coverCount (q :: rest) q.1 := by
      rw [coverCount_cons, if_pos ⟨le_rfl,ht.head_lt⟩]
      exact Nat.le_add_left 1 _
    constructor
    · intro hc
      have hstop : q.1 < b → p.2 ≤ q.1 := by
        intro hb
        by_contra hn
        have hone := hc q.1 hlt.le hb
        rw [coverCount_cons, if_pos ⟨hlt.le,not_le.mp hn⟩] at hone
        omega
      refine ⟨(lt_or_ge q.1 b).imp hstop id,fun k hk hkb => ?_⟩
      have hone := hc k (hlt.le.trans hk) hkb
      rwa [coverCount_cons, if_neg (fun hi => ((hstop (hk.trans_lt hkb)).trans hk).not_gt hi.2)] at hone
    · rintro ⟨hstop,hc⟩ k hk hkb
      rcases lt_or_ge k q.1 with hkq | hkq
      · rw [coverCount_cons, ht.coverCount_eq_zero hkq, if_pos ⟨hk,hkq.trans_le hle⟩]
      · have hp : p.2 ≤ q.1 := hstop.resolve_right (fun hb => (hkq.trans_lt hkb).not_ge hb)
        rw [coverCount_cons, hc k hkq hkb, if_neg (fun hi => (hp.trans hkq).not_gt hi.2)]

end Touching
end AdSystem.Tiling
