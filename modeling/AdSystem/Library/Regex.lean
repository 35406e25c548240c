import Mathlib.Data.List.Infix

/-! # Backtracking over patterns

A pattern is a row of single characters and greedy repetitions, some of them captured.
A matcher tries the ways through it in their order and takes the first one; it can be
asked to use up its input, or to begin wherever it first succeeds.
-/
namespace AdSystem.Regex
variable {α : Type*}

/-- One character, or as many as there are; what a group repeats is captured. -/
inductive Piece (α : Type*) where
  | one (p : α → Bool)
  | star (p : α → Bool)
  | group (p : α → Bool)

abbrev Pattern (α : Type*) := List (Piece α)

def literal [DecidableEq α] (s : List α) : Pattern α := s.map fun a => .one (· = a)

/-- The splits of an input after characters of the class, longest first. -/
def splits (p : α → Bool) : List α → List (List α × List α)
  | [] => [([],[])]
  | a :: s => if p a then (splits p s).map (fun r => (a :: r.1,r.2)) ++ [([],a :: s)] else [([],a :: s)]

/-- The ways through the pattern, as the matcher tries them: the groups and the input left. -/
def ways : Pattern α → List α → List (List (List α) × List α)
  | [], s => [([],s)]
  | .one _ :: _, [] => []
  | .one p :: r, a :: s => if p a then ways r s else []
  | .star p :: r, s => (splits p s).flatMap fun t => ways r t.2
  | .group p :: r, s => (splits p s).flatMap fun t => (ways r t.2).map fun w => (t.1 :: w.1,w.2)

/-- The groups of the first way that uses the input up. -/
def «matches» (r : Pattern α) (s : List α) : Option (List (List α)) :=
  ((ways r s).find? fun w => w.2.isEmpty).map Prod.fst

/-- The groups of the first way at the leftmost place that has one. -/
def find (r : Pattern α) (s : List α) : Option (List (List α)) :=
  s.tails.findSome? fun t => (ways r t).head?.map Prod.fst

/-- The texts that a pattern describes, with their groups. -/
def Describes : Pattern α → List α → List (List α) → Prop
  | [], w, groups => w = [] ∧ groups = []
  | .one p :: r, w, groups => ∃ a v, w = a :: v ∧ p a = true ∧ Describes r v groups
  | .star p :: r, w, groups => ∃ x v, w = x ++ v ∧ (∀ a ∈ x, p a = true) ∧ Describes r v groups
  | .group p :: r, w, groups =>
    ∃ x v rest, w = x ++ v ∧ (∀ a ∈ x, p a = true) ∧ Describes r v rest ∧ groups = x :: rest

section Ways
variable {p : α → Bool} {r : Pattern α} {s t : List α} {groups : List (List α)}

theorem mem_splits {x : List α} : (x,t) ∈ splits p s ↔ s = x ++ t ∧ ∀ a ∈ x, p a = true := by
  induction s generalizing x with
  | nil =>
    rw [splits, List.mem_singleton, Prod.mk.injEq, eq_comm (a := []), List.append_eq_nil_iff]
    constructor
    · rintro ⟨rfl,rfl⟩
      exact ⟨⟨rfl,rfl⟩,nofun⟩
    · exact And.left
  | cons b s ih =>
    cases x with
    | nil =>
      cases hb : p b with
      | false => simpa [splits, hb] using eq_comm
      | true => simpa [splits, hb] using eq_comm
    | cons a x =>
      cases hb : p b with
      | false =>
        simp only [splits, hb, Bool.false_eq_true, if_false, List.mem_singleton, Prod.mk.injEq, reduceCtorEq,
          false_and, List.cons_append, List.cons.injEq, List.forall_mem_cons, false_iff]
        rintro ⟨⟨rfl,_⟩,ha,_⟩
        exact absurd ha (by rw [hb]; decide)
      | true =>
        simp only [splits, hb, if_true, List.mem_append, List.mem_map, List.mem_singleton, Prod.mk.injEq,
          reduceCtorEq, false_and, or_false, List.cons_append, List.cons.injEq, List.forall_mem_cons, Prod.exists]
        constructor
        · rintro ⟨y,u,hmem,⟨rfl,rfl⟩,rfl⟩
          obtain ⟨hs,hx⟩ := ih.mp hmem
          exact ⟨⟨rfl,hs⟩,hb,hx⟩
        · rintro ⟨⟨rfl,hs⟩,_,hx⟩
          exact ⟨x,t,ih.mpr ⟨hs,hx⟩,⟨rfl,rfl⟩,rfl⟩

/-- The ways through a pattern read the texts that it describes. -/
theorem mem_ways : (groups,t) ∈ ways r s ↔ ∃ w, s = w ++ t ∧ Describes r w groups := by
  induction r generalizing s groups with
  | nil =>
    simp only [ways, List.mem_singleton, Prod.mk.injEq, Describes]
    constructor
    · rintro ⟨rfl,rfl⟩
      exact ⟨[],rfl,rfl,rfl⟩
    · rintro ⟨_,rfl,rfl,rfl⟩
      exact ⟨rfl,rfl⟩
  | cons piece r ih =>
    cases piece with
    | one p =>
      cases s with
      | nil => simp [ways, Describes]
      | cons a s =>
        simp only [ways, Describes]
        constructor
        · intro h
          split_ifs at h with ha
          · obtain ⟨w,rfl,hw⟩ := ih.mp h
            exact ⟨a :: w,rfl,a,w,rfl,ha,hw⟩
          · cases h
        · rintro ⟨_,hs,b,v,rfl,hb,hv⟩
          obtain ⟨rfl,rfl⟩ := List.cons.inj hs
          rw [if_pos hb]
          exact ih.mpr ⟨v,rfl,hv⟩
    | star p =>
      simp only [ways, Describes, List.mem_flatMap, Prod.exists]
      constructor
      · rintro ⟨x,u,hx,hu⟩
        obtain ⟨rfl,hp⟩ := mem_splits.mp hx
        obtain ⟨w,rfl,hw⟩ := ih.mp hu
        exact ⟨x ++ w,(List.append_assoc x w t).symm,x,w,rfl,hp,hw⟩
      · rintro ⟨_,rfl,x,v,rfl,hp,hv⟩
        exact ⟨x,v ++ t,mem_splits.mpr ⟨List.append_assoc x v t,hp⟩,ih.mpr ⟨v,rfl,hv⟩⟩
    | group p =>
      simp only [ways, Describes, List.mem_flatMap, List.mem_map, Prod.exists, Prod.mk.injEq]
      constructor
      · rintro ⟨x,u,hx,rest,t',hu,rfl,rfl⟩
        obtain ⟨rfl,hp⟩ := mem_splits.mp hx
        obtain ⟨w,rfl,hw⟩ := ih.mp hu
        exact ⟨x ++ w,(List.append_assoc x w t').symm,x,w,rest,rfl,hp,hw,rfl⟩
      · rintro ⟨_,rfl,x,v,rest,rfl,hp,hv,rfl⟩
        exact ⟨x,v ++ t,mem_splits.mpr ⟨List.append_assoc x v t,hp⟩,rest,t,ih.mpr ⟨v,rfl,hv⟩,rfl,rfl⟩

theorem splits_head : (splits p s).head? = some (s.takeWhile p,s.dropWhile p) := by
  induction s with
  | nil => rfl
  | cons a s ih =>
    cases ha : p a with
    | false => simp [splits, ha]
    | true => simp [splits, ha, ih]

theorem ways_group_head : (ways [.group p] s).head? = some ([s.takeWhile p],s.dropWhile p) := by
  have hways : ways [.group p] s = (splits p s).map fun t => ([t.1],t.2) := List.map_eq_flatMap.symm
  rw [hways, List.head?_map, splits_head]
  rfl

theorem describes_of_matches (h : «matches» r s = some groups) : Describes r s groups := by
  obtain ⟨way,hway,rfl⟩ := Option.map_eq_some_iff.mp h
  have hrest : way.2 = [] :=
    List.isEmpty_iff.mp (List.find?_some (p := fun w : List (List α) × List α => w.2.isEmpty) hway)
  obtain ⟨w,hs,hw⟩ := mem_ways.mp (List.mem_of_find?_eq_some hway)
  rw [hrest, List.append_nil] at hs
  exact hs ▸ hw

theorem matches_eq_none_iff : «matches» r s = none ↔ ∀ groups, ¬ Describes r s groups := by
  constructor
  · intro h groups hs
    have hway := List.find?_eq_none.mp (Option.map_eq_none_iff.mp h) (groups,[])
      (mem_ways.mpr ⟨s,(List.append_nil s).symm,hs⟩)
    exact hway rfl
  · intro h
    cases hm : «matches» r s with
    | none => rfl
    | some groups => exact absurd (describes_of_matches hm) (h groups)

/-- Where the groups of a text are determined, they are what is captured. -/
theorem matches_eq_some (h : Describes r s groups) (hunique : ∀ other, Describes r s other → other = groups) :
    «matches» r s = some groups := by
  cases hm : «matches» r s with
  | none => exact absurd h (matches_eq_none_iff.mp hm groups)
  | some other => rw [hunique other (describes_of_matches hm)]

theorem find_eq_none_iff : find r s = none ↔ ∀ w groups, w <:+: s → ¬ Describes r w groups := by
  rw [find, List.findSome?_eq_none_iff]
  constructor
  · rintro h w groups ⟨u,v,rfl⟩ hw
    have hways := h (w ++ v) ((List.mem_tails _ _).mpr ⟨u,(List.append_assoc u w v).symm⟩)
    rw [Option.map_eq_none_iff, List.head?_eq_none_iff] at hways
    exact List.not_mem_nil (hways ▸ mem_ways.mpr ⟨w,rfl,hw⟩)
  · intro h t ht
    rw [Option.map_eq_none_iff, List.head?_eq_none_iff, List.eq_nil_iff_forall_not_mem]
    rintro ⟨groups,v⟩ hmem
    obtain ⟨w,rfl,hw⟩ := mem_ways.mp hmem
    obtain ⟨u,rfl⟩ := (List.mem_tails _ _).mp ht
    exact h w groups ⟨u,v,List.append_assoc u w v⟩ hw

end Ways

section Literals
variable [DecidableEq α] {p q : α → Bool} {r : Pattern α} {s l w : List α} {groups : List (List α)}

theorem ways_literal : ways (literal l ++ r) (l ++ s) = ways r s := by
  induction l with
  | nil => rfl
  | cons a l ih => simpa only [literal, List.map_cons, List.cons_append, ways, decide_true, if_true] using ih

theorem ways_literal_eq_nil (h : ¬ l <+: s) : ways (literal l ++ r) s = [] := by
  induction l generalizing s with
  | nil => exact absurd (List.nil_prefix) h
  | cons a l ih =>
    cases s with
    | nil => rfl
    | cons b s =>
      simp only [literal, List.map_cons, List.cons_append, ways, decide_eq_true_eq]
      split_ifs with hb
      · apply ih
        intro hl
        exact h (List.cons_prefix_cons.mpr ⟨hb.symm,hl⟩)
      · rfl

theorem describes_literal : Describes (literal l ++ r) s groups ↔ ∃ w, s = l ++ w ∧ Describes r w groups := by
  induction l generalizing s with
  | nil => exact ⟨fun h => ⟨s,rfl,h⟩,by rintro ⟨_,rfl,h⟩; exact h⟩
  | cons a l ih =>
    simp only [literal, List.map_cons, List.cons_append, Describes, decide_eq_true_eq]
    constructor
    · rintro ⟨_,v,rfl,rfl,hv⟩
      obtain ⟨w,rfl,hw⟩ := ih.mp hv
      exact ⟨w,rfl,hw⟩
    · rintro ⟨w,rfl,hw⟩
      exact ⟨a,l ++ w,rfl,rfl,ih.mpr ⟨w,rfl,hw⟩⟩

/-- What is captured after a literal goes on as long as the class allows. -/
theorem find_after_literal (h : find (.star p :: (literal l ++ [.group q])) s = some groups) :
    ∃ u w, s = u ++ (l ++ w) ∧ groups = [w.takeWhile q] := by
  obtain ⟨t,ht,hway⟩ := List.exists_of_findSome?_eq_some h
  obtain ⟨u,rfl⟩ := (List.mem_tails _ _).mp ht
  obtain ⟨way,hhead,rfl⟩ := Option.map_eq_some_iff.mp hway
  rw [ways, List.head?_flatMap] at hhead
  obtain ⟨⟨x,v⟩,hx,hv⟩ := List.exists_of_findSome?_eq_some hhead
  obtain ⟨rfl,_⟩ := mem_splits.mp hx
  by_cases hl : l <+: v
  · obtain ⟨w,rfl⟩ := hl
    rw [ways_literal, ways_group_head] at hv
    cases hv
    exact ⟨u ++ x,w,(List.append_assoc u x _).symm,rfl⟩
  · rw [ways_literal_eq_nil hl] at hv
    cases hv

theorem find_after_literal_eq_none_iff : find (.star p :: (literal l ++ [.group q])) s = none ↔ ¬ l <:+: s := by
  rw [find_eq_none_iff]
  constructor
  · rintro h ⟨u,v,rfl⟩
    apply h (l ++ v.takeWhile q) [v.takeWhile q]
    · exact ⟨u,v.dropWhile q,by simp⟩
    · refine ⟨[],l ++ v.takeWhile q,rfl,nofun,describes_literal.mpr ⟨_,rfl,?_⟩⟩
      exact ⟨_,[],[],(List.append_nil _).symm,List.all_eq_true.mp List.all_takeWhile,⟨rfl,rfl⟩,rfl⟩
  · rintro h w groups ⟨u,v,rfl⟩ ⟨x,y,rfl,_,hy⟩
    obtain ⟨z,rfl,_⟩ := describes_literal.mp hy
    exact h ⟨u ++ x,z ++ v,by simp⟩

end Literals

end AdSystem.Regex
