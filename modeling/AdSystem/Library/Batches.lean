import Mathlib.Data.List.Nodup

/-! # Batches of jobs

Jobs carry the label of the batch they belong to. Finishing a job closes its batch
when no other job of the batch is left. Of the jobs asked for under one key only the
first is taken.
-/
namespace AdSystem.Batches
variable {J L : Type*} [DecidableEq L] (label : J → L)

/-- The batches closed while the jobs of a list finish one after the other, and the jobs
of `rest` stay. -/
def closings (rest : List J) : List J → List L
  | [] => []
  | j :: js =>
    if label j ∈ (js ++ rest).map label then closings rest js else label j :: closings rest js

variable {label} {rest : List J}

theorem mem_closings {js : List J} {l : L} :
    l ∈ closings label rest js ↔ l ∈ js.map label ∧ l ∉ rest.map label := by
  induction js with
  | nil => simp [closings]
  | cons j js ih =>
    unfold closings
    rw [List.map_cons, List.mem_cons]
    split_ifs with h <;> rw [List.map_append, List.mem_append] at h
    · rw [ih]
      constructor
      · rintro ⟨hl,hr⟩
        exact ⟨Or.inr hl,hr⟩
      · rintro ⟨rfl | hl,hr⟩
        · exact ⟨h.resolve_right hr,hr⟩
        · exact ⟨hl,hr⟩
    · rw [List.mem_cons, ih]
      constructor
      · rintro (rfl | ⟨hl,hr⟩)
        · exact ⟨Or.inl rfl,fun hr => h (Or.inr hr)⟩
        · exact ⟨Or.inr hl,hr⟩
      · rintro ⟨rfl | hl,hr⟩
        · exact Or.inl rfl
        · exact Or.inr ⟨hl,hr⟩

theorem nodup_closings (js : List J) : (closings label rest js).Nodup := by
  induction js with
  | nil => exact List.nodup_nil
  | cons j js ih =>
    unfold closings
    split_ifs with h
    · exact ih
    · rw [List.map_append, List.mem_append, not_or] at h
      exact List.nodup_cons.mpr ⟨fun hj => h.1 (mem_closings.mp hj).1,ih⟩

theorem count_closings [BEq L] [LawfulBEq L] (js : List J) (l : L) :
    (closings label rest js).count l = if l ∈ js.map label ∧ l ∉ rest.map label then 1 else 0 := by
  rw [(nodup_closings js).count]
  simp only [mem_closings]

section FirstRequests
variable {K : Type*} [DecidableEq K] (key : J → K)

/-- The requests that are taken: one for a key asked for before is ignored. -/
def firstRequests : List J → List J
  | [] => []
  | j :: js => j :: (firstRequests js).filter (fun i => key i ≠ key j)

variable {key} {js : List J}

theorem firstRequests_sublist : (firstRequests key js).Sublist js := by
  induction js with
  | nil => exact .slnil
  | cons j js ih => exact (List.filter_sublist.trans ih).cons_cons j

theorem mem_map_firstRequests {k : K} : k ∈ (firstRequests key js).map key ↔ k ∈ js.map key := by
  induction js with
  | nil => rfl
  | cons j js ih =>
    rw [firstRequests, List.map_cons, List.map_cons, List.mem_cons, List.mem_cons, ← ih]
    apply or_congr_right'
    intro hne
    simp only [List.mem_map, List.mem_filter, decide_eq_true_eq]
    constructor
    · rintro ⟨i,⟨hi,_⟩,rfl⟩
      exact ⟨i,hi,rfl⟩
    · rintro ⟨i,hi,rfl⟩
      exact ⟨i,⟨hi,hne⟩,rfl⟩

theorem nodup_map_firstRequests : ((firstRequests key js).map key).Nodup := by
  induction js with
  | nil => exact List.nodup_nil
  | cons j js ih =>
    rw [firstRequests, List.map_cons, List.nodup_cons]
    refine ⟨fun h => ?_,ih.sublist (List.filter_sublist.map key)⟩
    obtain ⟨i,hi,he⟩ := List.mem_map.mp h
    exact of_decide_eq_true (List.mem_filter.mp hi).2 he

theorem firstRequests_eq_self (h : (js.map key).Nodup) : firstRequests key js = js := by
  induction js with
  | nil => rfl
  | cons j js ih =>
    rw [List.map_cons, List.nodup_cons] at h
    rw [firstRequests, ih h.2, List.filter_eq_self.mpr]
    intro i hi
    exact decide_eq_true fun he => h.1 (he ▸ List.mem_map_of_mem hi)

end FirstRequests

end AdSystem.Batches
