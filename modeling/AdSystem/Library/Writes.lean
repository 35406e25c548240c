import Mathlib.Logic.Function.Basic

/-! # Writes to a table, one after the other

What a table holds at a key after a list of writes is the last value written there, or
what was there before. A value stays when later writes to its key write the same.
-/
namespace AdSystem.Writes
variable {K V : Type*} [DecidableEq K]

def writeAll (table : K → Option V) (writes : List (K × V)) : K → Option V :=
  writes.foldl (fun table w => Function.update table w.1 (some w.2)) table

/-- No write to the key writes anything else. -/
def Agree (writes : List (K × V)) (k : K) (v : V) : Prop := ∀ w ∈ writes, w.1 = k → w.2 = v

/-- The value is there or is written, and no later write to its key writes anything else. -/
def Survives (table : K → Option V) (writes : List (K × V)) (k : K) (v : V) : Prop :=
  table k = some v ∧ Agree writes k v ∨ ∃ earlier later, writes = earlier ++ (k,v) :: later ∧ Agree later k v

variable {table : K → Option V} {writes : List (K × V)} {w : K × V} {k : K} {v : V}

theorem writeAll_cons :
    writeAll table (w :: writes) = writeAll (Function.update table w.1 (some w.2)) writes := rfl

omit [DecidableEq K] in
theorem agree_cons : Agree (w :: writes) k v ↔ (w.1 = k → w.2 = v) ∧ Agree writes k v := List.forall_mem_cons

theorem survives_cons :
    Survives (Function.update table w.1 (some w.2)) writes k v ↔ Survives table (w :: writes) k v := by
  constructor
  · rintro (⟨htable,hagree⟩ | ⟨earlier,later,rfl,hagree⟩)
    · by_cases hk : w.1 = k
      · subst hk
        rw [Function.update_self, Option.some.injEq] at htable
        exact Or.inr ⟨[],writes,by rw [← htable]; rfl,hagree⟩
      · rw [Function.update_of_ne (Ne.symm hk)] at htable
        exact Or.inl ⟨htable,agree_cons.mpr ⟨fun h => absurd h hk,hagree⟩⟩
    · exact Or.inr ⟨w :: earlier,later,rfl,hagree⟩
  · rintro (⟨htable,hagree⟩ | ⟨earlier,later,heq,hagree⟩)
    · obtain ⟨hw,hagree⟩ := agree_cons.mp hagree
      refine Or.inl ⟨?_,hagree⟩
      by_cases hk : w.1 = k
      · rw [hk, Function.update_self, hw hk]
      · rw [Function.update_of_ne (Ne.symm hk), htable]
    · cases earlier with
      | nil =>
        obtain ⟨rfl,rfl⟩ := List.cons_eq_cons.mp heq
        exact Or.inl ⟨Function.update_self _ _ _,hagree⟩
      | cons w' earlier =>
        obtain ⟨rfl,rfl⟩ := List.cons_eq_cons.mp heq
        exact Or.inr ⟨earlier,later,rfl,hagree⟩

theorem writeAll_eq_some : writeAll table writes k = some v ↔ Survives table writes k v := by
  induction writes generalizing table with
  | nil => simp [writeAll, Survives, Agree]
  | cons w writes ih => exact ih.trans survives_cons

omit [DecidableEq K] in
/-- What survives at a key depends on the table there. -/
theorem survives_congr {table' : K → Option V} (h : table k = table' k) :
    Survives table writes k v ↔ Survives table' writes k v := by
  rw [Survives, Survives, h]

end AdSystem.Writes
