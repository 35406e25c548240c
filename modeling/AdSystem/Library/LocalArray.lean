import Mathlib.Data.UInt
import Mathlib.Data.List.Basic

/-! # Arrays of a fixed size

An access beyond the end of an array has no outcome. Elements copied one after the other
reach their places when both arrays are long enough, and the length of a string that an
array holds is the distance to its first zero.
-/
namespace AdSystem.LocalArray
variable {V W : Type*}

def store (a : List V) (i : ℕ) (v : V) : Option (List V) :=
  if i < a.length then some (a.set i v) else none

/-- `n` elements are copied from an index on, each converted on its way. -/
def copy (f : V → W) (source : List V) : ℕ → ℕ → List W → Option (List W)
  | 0, _, target => some target
  | n + 1, i, target =>
    source[i]?.bind fun v => (store target i (f v)).bind fun target => copy f source n (i + 1) target

theorem copy_eq {f : V → W} {source : List V} {target : List W} {n i : ℕ}
    (hs : i + n ≤ source.length) (ht : i + n ≤ target.length) :
    copy f source n i target =
      some (target.take i ++ ((source.drop i).take n).map f ++ target.drop (i + n)) := by
  induction n generalizing i target with
  | zero => simp [copy]
  | succ n ih =>
    have hi : i < source.length := by omega
    have hi' : i < target.length := by omega
    have hlen : i + 1 + n ≤ (target.set i (f source[i])).length := by
      rw [List.length_set]
      omega
    have htake : (target.set i (f source[i])).take (i + 1) = target.take i ++ [f source[i]] := by
      rw [List.take_succ_eq_append_getElem (by rwa [List.length_set]), List.take_set_of_le (Nat.le_refl i)]
      simp
    have hdrop : (target.set i (f source[i])).drop (i + 1 + n) = target.drop (i + (n + 1)) := by
      rw [List.drop_set_of_lt (by omega)]
      congr 1
      omega
    have hcons : ((source.drop i).take (n + 1)).map f =
        f source[i] :: ((source.drop (i + 1)).take n).map f := by
      rw [List.drop_eq_getElem_cons hi, List.take_succ_cons, List.map_cons]
    rw [copy, List.getElem?_eq_getElem hi, Option.bind_some, store, if_pos hi', Option.bind_some,
      ih (by omega) hlen, htake, hdrop, hcons]
    simp

section
variable [Zero V] [DecidableEq V] {vs ws : List V}

def strlen : List V → Option ℕ
  | [] => none
  | v :: vs => if v = 0 then some 0 else (strlen vs).map (· + 1)

theorem strlen_append (h : 0 ∉ vs) : strlen (vs ++ ws) = (strlen ws).map (· + vs.length) := by
  induction vs with
  | nil => simp
  | cons v vs ih =>
    obtain ⟨hv,hvs⟩ := not_or.mp (mt List.mem_cons.mpr h)
    rw [List.cons_append, strlen, if_neg (Ne.symm hv), ih hvs, Option.map_map, List.length_cons]
    rfl

/-- A zero among the first elements ends the string there. -/
theorem strlen_of_mem (h : 0 ∈ vs) : ∃ n < vs.length, strlen (vs ++ ws) = some n := by
  induction vs with
  | nil => cases h
  | cons v vs ih =>
    by_cases hv : v = 0
    · refine ⟨0,Nat.zero_lt_succ _,?_⟩
      rw [List.cons_append, strlen, if_pos hv]
    · obtain ⟨n,hn,hstrlen⟩ := ih ((List.mem_cons.mp h).resolve_left (Ne.symm hv))
      refine ⟨n + 1,Nat.succ_lt_succ hn,?_⟩
      rw [List.cons_append, strlen, if_neg hv, hstrlen, Option.map_some]

theorem strlen_lt_length {n : ℕ} (h : strlen vs = some n) : n < vs.length := by
  induction vs generalizing n with
  | nil => cases h
  | cons v vs ih =>
    rw [strlen] at h
    split_ifs at h with hv
    · cases h
      exact Nat.zero_lt_succ _
    · obtain ⟨k,hk,rfl⟩ := Option.map_eq_some_iff.mp h
      exact Nat.succ_lt_succ (ih hk)

theorem strlen_zeros {m : ℕ} : strlen (List.replicate m (0 : V)) = if m = 0 then none else some 0 := by
  cases m with
  | zero => rfl
  | succ m => rw [List.replicate_succ, strlen, if_pos rfl, if_neg (Nat.succ_ne_zero m)]

/-- The string is what was put in front of the zeros. -/
theorem strlen_padded {m : ℕ} : strlen (vs ++ List.replicate m 0) = some vs.length ↔ 0 ∉ vs ∧ m ≠ 0 := by
  constructor
  · intro h
    have hvs : 0 ∉ vs := fun hmem => by
      obtain ⟨n,hn,hstrlen⟩ := strlen_of_mem hmem
      rw [hstrlen, Option.some.injEq] at h
      exact Nat.ne_of_lt hn h
    refine ⟨hvs,fun hm => ?_⟩
    rw [strlen_append hvs, strlen_zeros, if_pos hm] at h
    cases h
  · rintro ⟨hvs,hm⟩
    rw [strlen_append hvs, strlen_zeros, if_neg hm, Option.map_some, Nat.zero_add]

end
end AdSystem.LocalArray
