import Mathlib.Data.Finset.Card
import Mathlib.Logic.Function.Basic

/-! # The entries behind a table

A table of optional values, and the list of the entries that put its values there. An
entry recorded under an occupied key takes the place of the one there.
-/
namespace AdSystem.Ledger
variable {K V E : Type*} [DecidableEq K] (key : E → K) (value : E → V)

/-- The table holds the values of the entries under their keys, and nothing else. -/
def Represents (table : K → Option V) (entries : List E) : Prop :=
  ∀ k v, table k = some v ↔ ∃ e ∈ entries, key e = k ∧ value e = v

/-- The entries when a key is emptied. -/
def free (k : K) (entries : List E) : List E := entries.filter fun o => key o ≠ k

/-- The entries when another one is recorded. -/
def record (e : E) (entries : List E) : List E := e :: free key (key e) entries

variable {key} {value} {table : K → Option V} {entries : List E} {k : K} {e o : E}

omit [DecidableEq K] in
theorem represents_nil : Represents key value (fun _ => none) [] := fun _ _ => by simp

theorem mem_free : o ∈ free key k entries ↔ o ∈ entries ∧ key o ≠ k := by
  rw [free, List.mem_filter, decide_eq_true_eq]

theorem Represents.free (h : Represents key value table entries) (k : K) :
    Represents key value (Function.update table k none) (free key k entries) := by
  intro k' v
  simp only [mem_free]
  by_cases hk : k' = k
  · subst hk
    rw [Function.update_self]
    apply iff_of_false nofun
    rintro ⟨o,⟨_,hne⟩,heq,_⟩
    exact hne heq
  · rw [Function.update_of_ne hk, h]
    constructor
    · rintro ⟨o,ho,rfl,hv⟩
      exact ⟨o,⟨ho,hk⟩,rfl,hv⟩
    · rintro ⟨o,⟨ho,_⟩,heq,hv⟩
      exact ⟨o,ho,heq,hv⟩

theorem Represents.record (h : Represents key value table entries) (e : E) :
    Represents key value (Function.update table (key e) (some (value e))) (record key e entries) := by
  intro k v
  have hfree := h.free (key e) k v
  simp only [Ledger.record, List.exists_mem_cons_iff, ← hfree]
  by_cases hk : k = key e
  · subst hk
    simp
  · rw [Function.update_of_ne hk, Function.update_of_ne hk]
    simp [Ne.symm hk]

/-- Recording an entry keeps all values there are, unless one of its key is another. -/
theorem Represents.keeps_iff (h : Represents key value table entries) (e : E) :
    (∀ k v, table k = some v → Function.update table (key e) (some (value e)) k = some v) ↔
      ∀ o ∈ entries, key o = key e → value o = value e := by
  constructor
  · intro hkeep o ho hkey
    have hv := hkeep (key e) (value o) ((h _ _).mpr ⟨o,ho,hkey,rfl⟩)
    rw [Function.update_self, Option.some.injEq] at hv
    exact hv.symm
  · intro hsame k v hv
    by_cases hk : k = key e
    · subst hk
      obtain ⟨o,ho,hkey,rfl⟩ := (h _ _).mp hv
      rw [Function.update_self, hsame o ho hkey]
    · rw [Function.update_of_ne hk]
      exact hv

/-- No more keys are occupied than there are entries. -/
theorem Represents.occupied (h : Represents key value table entries) :
    ∃ keys : Finset K, keys.card ≤ entries.length ∧ ∀ k, table k ≠ none → k ∈ keys := by
  refine ⟨(entries.map key).toFinset,?_,fun k hk => ?_⟩
  · have hcard := List.toFinset_card_le (entries.map key)
    rwa [List.length_map] at hcard
  · obtain ⟨v,hv⟩ := Option.ne_none_iff_exists'.mp hk
    obtain ⟨e,he,rfl,_⟩ := (h k v).mp hv
    exact List.mem_toFinset.mpr (List.mem_map_of_mem he)

end AdSystem.Ledger
