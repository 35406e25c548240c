import Mathlib.Data.Int.Order.Basic
import Mathlib.Data.List.Dedup
import Mathlib.Tactic.SplitIfs

/-! # Results of queries

A result is read through a cursor: its rows and a position, which may also be
before the first row or after the last one. A query for distinct rows gives every
row once, in an order of which nothing else is known.
-/
namespace AdSystem.Query

section Distinct

/-- The order in which distinct rows come. -/
structure Distinct where
  list : ∀ {α : Type} [DecidableEq α], List α → List α
  nodup : ∀ {α : Type} [DecidableEq α] (rows : List α), (list rows).Nodup
  mem : ∀ {α : Type} [DecidableEq α] (rows : List α) (x : α), x ∈ list rows ↔ x ∈ rows

def Distinct.firsts : Distinct where
  list rows := rows.reverse.dedup.reverse
  nodup rows := List.nodup_reverse.mpr (List.nodup_dedup _)
  mem rows x := by rw [List.mem_reverse, List.mem_dedup, List.mem_reverse]

variable {α : Type} [DecidableEq α] (q : Distinct)

theorem Distinct.perm {rows rows' : List α} (h : ∀ x, x ∈ rows ↔ x ∈ rows') :
    (q.list rows).Perm (q.list rows') := by
  rw [List.perm_ext_iff_of_nodup (q.nodup rows) (q.nodup rows')]
  intro x
  rw [q.mem, q.mem]
  exact h x

end Distinct

/-- The rows of a result and the position in them, `-1` before the first. -/
structure Cursor (α : Type*) where
  rows : List α
  position : ℤ

namespace Cursor
variable {α : Type*}

/-- The result of a query stands before its first row. -/
def ofRows (rows : List α) : Cursor α := ⟨rows,-1⟩

def getCount (c : Cursor α) : ℕ := c.rows.length

/-- Move, and tell whether there is a row. -/
def moveToPosition (c : Cursor α) (position : ℤ) : Cursor α × Bool :=
  if (c.getCount : ℤ) ≤ position then ({ c with position := c.getCount },false)
  else if position < 0 then ({ c with position := -1 },false)
  else ({ c with position },true)

def moveToFirst (c : Cursor α) : Cursor α × Bool := c.moveToPosition 0

def moveToNext (c : Cursor α) : Cursor α × Bool := c.moveToPosition (c.position + 1)

/-- The row at the position, if it is one. -/
def get (c : Cursor α) : Option α :=
  if 0 ≤ c.position then c.rows[c.position.toNat]? else none

def OnRow (c : Cursor α) : Prop := 0 ≤ c.position ∧ c.position < c.getCount

/-- There is no row, or the position is that of one. -/
def Readable (c : Cursor α) : Prop := c.rows = [] ∨ c.OnRow

instance (c : Cursor α) : Decidable c.OnRow := inferInstanceAs (Decidable (0 ≤ c.position ∧ c.position < c.getCount))

instance (c : Cursor α) : Decidable c.Readable :=
  decidable_of_iff (c.rows.isEmpty = true ∨ c.OnRow) (by rw [Readable, List.isEmpty_iff])

/-- The loop over a result: the row that the cursor stands on is used, `n` times at most, until
there is no next one. A cursor that stands on no row throws. -/
def forRows {β : Type*} (f : β → α → β) : ℕ → Cursor α → β → Option β
  | 0, _, b => some b
  | n + 1, c, b =>
    match c.get with
    | none => none
    | some a => if c.moveToNext.2 then forRows f n c.moveToNext.1 (f b a) else some (f b a)

variable (c : Cursor α) (position : ℤ)

@[simp] theorem moveToPosition_rows : (c.moveToPosition position).1.rows = c.rows := by
  unfold moveToPosition
  split_ifs <;> rfl

@[simp] theorem moveToFirst_rows : c.moveToFirst.1.rows = c.rows := c.moveToPosition_rows 0

variable {c} {position}

theorem moveToPosition_onRow (h : (c.moveToPosition position).2 = true) :
    (c.moveToPosition position).1.OnRow := by
  unfold moveToPosition at h ⊢
  split_ifs at h ⊢ with h1 h2
  exact ⟨not_lt.mp h2,not_le.mp h1⟩

theorem moveToFirst_onRow (h : c.rows ≠ []) : c.moveToFirst.1.OnRow := by
  apply moveToPosition_onRow
  have hpos : 0 < c.getCount := List.length_pos_iff.mpr h
  rw [moveToPosition, if_neg (by omega), if_neg (by omega)]

theorem moveToFirst_readable (c : Cursor α) : c.moveToFirst.1.Readable := by
  by_cases h : c.rows = []
  · exact Or.inl ((moveToFirst_rows c).trans h)
  · exact Or.inr (moveToFirst_onRow h)

theorem ofRows_readable {rows : List α} : (ofRows rows).Readable ↔ rows = [] := by
  constructor
  · rintro (h | ⟨h,_⟩)
    · exact h
    · simp only [ofRows] at h
      omega
  · exact Or.inl

theorem get_isSome : c.get.isSome ↔ c.OnRow := by
  unfold get OnRow getCount
  split_ifs with h
  · rw [isSome_getElem?]
    constructor
    · intro hlt
      exact ⟨h,by omega⟩
    · rintro ⟨_,hlt⟩
      omega
  · exact iff_of_false (by simp) fun hc => h hc.1

theorem moveToFirst_eq (c : Cursor α) : c.moveToFirst.1 = ⟨c.rows,0⟩ := by
  simp only [moveToFirst, moveToPosition]
  by_cases h : c.rows = []
  · simp [getCount, h]
  · have hpos : 0 < c.rows.length := List.length_pos_iff.mpr h
    simp [getCount, h]

theorem moveToNext_of_lt {rows : List α} {k : ℕ} (h : k + 1 < rows.length) :
    (⟨rows,k⟩ : Cursor α).moveToNext = (⟨rows,(k + 1 : ℕ)⟩,true) := by
  have hlast : ¬(rows.length : ℤ) ≤ k + 1 := by omega
  have hfirst : ¬((k : ℤ) + 1 < 0) := by omega
  rw [moveToNext, moveToPosition, getCount, if_neg hlast, if_neg hfirst]
  rfl

theorem moveToNext_of_last {rows : List α} {k : ℕ} (h : k + 1 = rows.length) :
    (⟨rows,k⟩ : Cursor α).moveToNext.2 = false := by
  have hlast : (rows.length : ℤ) ≤ k + 1 := by omega
  simp only [moveToNext, moveToPosition, getCount, if_pos hlast]

/-- The loop uses the rows from the position on, in their order. -/
theorem forRows_eq {β : Type*} (f : β → α → β) {rows : List α} {n k : ℕ} (h : k + n = rows.length) (b : β) :
    forRows f n ⟨rows,k⟩ b = some ((rows.drop k).foldl f b) := by
  induction n generalizing k b with
  | zero =>
    rw [List.drop_eq_nil_of_le (by omega)]
    rfl
  | succ n ih =>
    have hk : k < rows.length := by omega
    have hget : (⟨rows,k⟩ : Cursor α).get = some rows[k] := by
      rw [get, if_pos (Int.natCast_nonneg k), Int.toNat_natCast, List.getElem?_eq_getElem hk]
    rw [List.drop_eq_getElem_cons hk, List.foldl_cons, ← ih (by omega) (f b rows[k])]
    simp only [forRows, hget]
    cases n with
    | zero => rw [moveToNext_of_last h, if_neg Bool.false_ne_true, forRows]
    | succ n => rw [moveToNext_of_lt (by omega), if_pos rfl]

/-- All of the rows are used, each once. -/
theorem forRows_moveToFirst {β : Type*} (f : β → α → β) (c : Cursor α) (b : β) :
    forRows f c.getCount c.moveToFirst.1 b = some (c.rows.foldl f b) := by
  rw [moveToFirst_eq]
  exact forRows_eq f (Nat.zero_add _) b

end Cursor
end AdSystem.Query
