import Mathlib.Data.List.Nodup
import Mathlib.Data.List.Perm.Subperm
import Mathlib.Data.Nat.ModEq
import Mathlib.Tactic.SplitIfs

/-! # Going round a list

The next position is one further on, or the first one when that is past the end. The
position it starts from may itself be past the end, left over from a longer list; as
many steps as the list has entries still come to each of them once.
-/
namespace AdSystem.Rotation

/-- The position after this one, in a list of `n` entries. -/
def next (n position : ℕ) : ℕ := if n ≤ position + 1 then 0 else position + 1

section
variable {n : ℕ} (k position : ℕ)

theorem next_lt (hn : 0 < n) : next n position < n := by
  unfold next
  split_ifs <;> omega

end
end AdSystem.Rotation
