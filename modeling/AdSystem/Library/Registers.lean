import Mathlib.Logic.Function.Basic
import Mathlib.Data.List.Range

/-! # A device behind registers

Nothing is known of the device but what its registers are read as, each time anew. The
values still to come are counted from the reads made so far, register by register, so
that reads of one register leave those of the others as they were.
-/
namespace AdSystem.Registers

/-- What each register is read as, time after time, how often each was read, and what was written. -/
structure Device (R V : Type*) where
  answers : R → ℕ → V
  reads : R → ℕ
  writes : List (R × V)

/-- The cells of a buffer, and the indices stored to, in order. -/
structure Buffer (V : Type*) where
  cells : ℕ → V
  stores : List ℕ

namespace Buffer
variable {V : Type*}

def set (b : Buffer V) (i : ℕ) (v : V) : Buffer V := ⟨Function.update b.cells i v,b.stores ++ [i]⟩

variable {b : Buffer V} {i j : ℕ} {v : V}

@[simp] theorem set_cells_self : (b.set i v).cells i = v := Function.update_self ..

theorem set_cells_of_ne (h : j ≠ i) : (b.set i v).cells j = b.cells j := Function.update_of_ne h ..

@[simp] theorem set_stores : (b.set i v).stores = b.stores ++ [i] := rfl

end Buffer

namespace Device
variable {R V : Type*}

/-- The value that the register is read as after `k` more reads of it. -/
def ahead (d : Device R V) (r : R) (k : ℕ) : V := d.answers r (d.reads r + k)

def write (d : Device R V) (r : R) (v : V) : Device R V := { d with writes := d.writes ++ [(r,v)] }

@[simp] theorem write_ahead {d : Device R V} {r s : R} {v : V} {k : ℕ} :
    (d.write r v).ahead s k = d.ahead s k := rfl

variable [DecidableEq R]

def read (d : Device R V) (r : R) : V × Device R V :=
  (d.ahead r 0,{ d with reads := Function.update d.reads r (d.reads r + 1) })

/-- The register is read until a value stops it, `n` times at most; what is left of `n` is
zero just when the last read is reached. -/
def poll (stops : V → Prop) [DecidablePred stops] (r : R) : ℕ → Device R V → V × ℕ × Device R V
  | 0, d => (d.ahead r 0,0,d)
  | n + 1, d =>
    if n ≠ 0 ∧ ¬ stops (d.read r).1 then poll stops r n (d.read r).2
    else ((d.read r).1,n,(d.read r).2)

/-- The first value that stops the polling, and that it comes before the last read. -/
def Stops (stops : V → Prop) (d : Device R V) (r : R) (n : ℕ) (v : V) : Prop :=
  ∃ k, k + 1 < n ∧ (∀ j < k, ¬ stops (d.ahead r j)) ∧ stops (d.ahead r k) ∧ d.ahead r k = v

/-- The register is read into the buffer, `n` times from an index on. -/
def fill (r : R) : ℕ → ℕ → Buffer V → Device R V → Buffer V × Device R V
  | 0, _, b, d => (b,d)
  | n + 1, i, b, d => fill r n (i + 1) (b.set i (d.read r).1) (d.read r).2

section
variable {d : Device R V} {r s : R} {v : V} {k n i : ℕ} {b : Buffer V}

@[simp] theorem read_fst : (d.read r).1 = d.ahead r 0 := rfl

@[simp] theorem read_ahead_self : (d.read r).2.ahead r k = d.ahead r (k + 1) := by
  simp only [read, ahead, Function.update_self]
  congr 1
  omega

theorem read_ahead_of_ne (h : s ≠ r) : (d.read r).2.ahead s k = d.ahead s k := by
  simp only [read, ahead, Function.update_of_ne h]

section
variable {stops : V → Prop} [DecidablePred stops]

theorem poll_ahead_of_ne (h : s ≠ r) : (d.poll stops r n).2.2.ahead s k = d.ahead s k := by
  induction n generalizing d with
  | zero => rfl
  | succ n ih =>
    rw [poll]
    split_ifs
    · rw [ih, read_ahead_of_ne h]
    · exact read_ahead_of_ne h

theorem poll_iff : (d.poll stops r n).2.1 ≠ 0 ∧ (d.poll stops r n).1 = v ↔ d.Stops stops r n v := by
  induction n generalizing d with
  | zero =>
    refine iff_of_false (fun h => h.1 rfl) ?_
    rintro ⟨k,hk,-⟩
    exact Nat.not_lt_zero _ hk
  | succ n ih =>
    rw [poll]
    by_cases hstop : stops (d.ahead r 0)
    · rw [if_neg (fun h => h.2 hstop)]
      constructor
      · rintro ⟨hn,hv⟩
        exact ⟨0,Nat.succ_lt_succ (Nat.pos_of_ne_zero hn),nofun,hstop,hv⟩
      · rintro ⟨k,hk,hfirst,-,hv⟩
        have hzero : k = 0 := by
          by_contra hne
          exact hfirst 0 (Nat.pos_of_ne_zero hne) hstop
        subst hzero
        exact ⟨Nat.ne_of_gt (Nat.lt_of_succ_lt_succ hk),hv⟩
    · by_cases hn : n = 0
      · subst hn
        rw [if_neg (fun h => h.1 rfl)]
        refine iff_of_false (fun h => h.1 rfl) ?_
        rintro ⟨k,hk,-⟩
        omega
      · rw [if_pos ⟨hn,hstop⟩, ih]
        simp only [Stops, read_ahead_self]
        constructor
        · rintro ⟨k,hk,hfirst,hstops,hv⟩
          refine ⟨k + 1,by omega,fun j hj => ?_,hstops,hv⟩
          cases j with
          | zero => exact hstop
          | succ j => exact hfirst j (by omega)
        · rintro ⟨k,hk,hfirst,hstops,hv⟩
          cases k with
          | zero => exact absurd hstops hstop
          | succ k => exact ⟨k,by omega,fun j hj => hfirst (j + 1) (by omega),hstops,hv⟩

end

theorem fill_stores : (d.fill r n i b).1.stores = b.stores ++ List.range' i n := by
  induction n generalizing d i b with
  | zero => simp [fill]
  | succ n ih =>
    rw [fill, ih, Buffer.set_stores, List.append_assoc]
    rfl

theorem fill_cells_of_lt (h : k < i) : (d.fill r n i b).1.cells k = b.cells k := by
  induction n generalizing d i b with
  | zero => rfl
  | succ n ih => rw [fill, ih (Nat.lt_succ_of_lt h), Buffer.set_cells_of_ne (Nat.ne_of_lt h)]

theorem fill_cells_of_le (h : i + n ≤ k) : (d.fill r n i b).1.cells k = b.cells k := by
  induction n generalizing d i b with
  | zero => rfl
  | succ n ih => rw [fill, ih (by omega), Buffer.set_cells_of_ne (by omega)]

/-- The cells hold what the register was read as. -/
theorem fill_cells (h : k < n) : (d.fill r n i b).1.cells (i + k) = d.ahead r k := by
  induction n generalizing d i b k with
  | zero => exact absurd h (Nat.not_lt_zero k)
  | succ n ih =>
    rw [fill]
    cases k with
    | zero => exact (fill_cells_of_lt (Nat.lt_add_one i)).trans Buffer.set_cells_self
    | succ k =>
      have hk := ih (d := (d.read r).2) (i := i + 1) (b := b.set i (d.read r).1) (Nat.lt_of_succ_lt_succ h)
      rw [read_ahead_self] at hk
      rw [← hk]
      congr 1
      omega

end
end Device
end AdSystem.Registers
