import Mathlib.Algebra.Order.Group.Multiset
import Mathlib.Data.Multiset.Range
import Mathlib.Data.Multiset.UnionInter
import Mathlib.Logic.Function.Basic
import Mathlib.Tactic.Abel

/-! # Buffers on a line

A buffer is written and put on the line, and goes along it until it is taken off at the front or dropped;
then it is spare and may be written again. With each buffer on the line goes what will still be made of what
it holds, which may fail, and a conversion leaves what is made in another buffer. No buffer is in two places,
and what is taken off is made of some of what was put on, in the same order.
-/
namespace AdSystem.BufferLine
variable {α β : Type*}

/-- What will be made of a buffer on the line. -/
def made (memory : ℕ → Option α) (buffer : ℕ × (α → Option β)) : Option β := (memory buffer.1).bind buffer.2

/-- Every buffer ever allocated is spare, on the line or gone; what was taken off the line and what will be
made of the buffers on it are, in order, some of what was to be made of those put on it. -/
structure Kept (spare : Multiset ℕ) (line : List (ℕ × (α → Option β))) (memory : ℕ → Option α) (allocated : ℕ)
    (gone : List ℕ) (put taken : List β) : Prop where
  buffers : spare + line.map Prod.fst + gone = Multiset.range allocated
  order : (taken ++ line.filterMap (made memory)).Sublist put
  written : ∀ buffer ∈ line, (memory buffer.1).isSome

variable {spare : Multiset ℕ} {line first middle last : List (ℕ × (α → Option β))} {memory : ℕ → Option α}
  {allocated f g : ℕ} {gone freed : List ℕ} {put taken : List β} {k k' : α → Option β}

theorem filterMap_made_update (hf : f ∉ line.map Prod.fst) (content : Option α) :
    line.filterMap (made (Function.update memory f content)) = line.filterMap (made memory) := by
  refine List.filterMap_congr fun buffer hbuffer => ?_
  rw [made, made, Function.update_of_ne]
  rintro rfl
  exact hf (List.mem_map_of_mem hbuffer)

namespace Kept

theorem new (memory : ℕ → Option α) : Kept 0 ([] : List (ℕ × (α → Option β))) memory 0 [] [] [] :=
  ⟨rfl,List.nil_sublist _,by simp⟩

theorem notMem_line (h : Kept ({f} + spare) line memory allocated gone put taken) : f ∉ line.map Prod.fst := by
  intro hf
  have hnodup := Multiset.nodup_range allocated
  rw [← h.buffers] at hnodup
  have hdisjoint := (Multiset.nodup_add.mp (Multiset.nodup_add.mp hnodup).1).2.2
  exact Multiset.disjoint_left.mp hdisjoint (by simp) (Multiset.mem_coe.mpr hf)

theorem isSome_update (h : Kept ({f} + spare) line memory allocated gone put taken) (content : Option α) :
    ∀ buffer ∈ line, (Function.update memory f content buffer.1).isSome := by
  intro buffer hbuffer
  rw [Function.update_of_ne]
  · exact h.written buffer hbuffer
  · rintro rfl
    exact h.notMem_line (List.mem_map_of_mem hbuffer)

theorem allocate (h : Kept spare line memory allocated gone put taken) :
    Kept ({allocated} + spare) line memory (allocated + 1) gone put taken := by
  refine ⟨?_,h.order,h.written⟩
  rw [Multiset.range_succ, ← h.buffers, ← Multiset.singleton_add, add_assoc, add_assoc, add_assoc]

theorem write (h : Kept ({f} + spare) line memory allocated gone put taken) (content : Option α) :
    Kept ({f} + spare) line (Function.update memory f content) allocated gone put taken := by
  refine ⟨h.buffers,?_,h.isSome_update content⟩
  rw [filterMap_made_update h.notMem_line]
  exact h.order

/-- A spare buffer is written and put on the line. -/
theorem putOn (h : Kept ({f} + spare) line memory allocated gone put taken) (a : α) :
    Kept spare (line ++ [(f,k)]) (Function.update memory f (some a)) allocated gone (put ++ (k a).toList) taken := by
  refine ⟨?_,?_,?_⟩
  · rw [← h.buffers, List.map_append, ← Multiset.coe_add]
    change spare + (_ + {f}) + _ = _
    abel
  · rw [List.filterMap_append, filterMap_made_update h.notMem_line, ← List.append_assoc]
    refine h.order.append ?_
    rw [List.filterMap_cons, List.filterMap_nil]
    cases hk : k a <;> simp [made, hk]
  · intro buffer hbuffer
    rcases List.mem_append.mp hbuffer with hbuffer | hbuffer
    · exact h.isSome_update _ buffer hbuffer
    · simp [List.mem_singleton.mp hbuffer]

theorem drop (h : Kept spare (first ++ middle ++ last) memory allocated gone put taken) :
    Kept (middle.map Prod.fst + spare) (first ++ last) memory allocated gone put taken := by
  refine ⟨?_,?_,fun buffer hbuffer => h.written buffer ?_⟩
  · rw [← h.buffers]
    simp only [List.map_append, ← Multiset.coe_add]
    abel
  · refine List.Sublist.trans ?_ h.order
    simp only [List.filterMap_append, List.append_assoc]
    exact (List.Sublist.refl _).append ((List.Sublist.refl _).append (List.sublist_append_right _ _))
  · rw [List.mem_append] at hbuffer
    simp only [List.mem_append]
    tauto

theorem free (h : Kept (freed + spare) line memory allocated gone put taken) :
    Kept spare line memory allocated (gone ++ freed) put taken := by
  refine ⟨?_,h.order,h.written⟩
  rw [← h.buffers, ← Multiset.coe_add]
  abel

/-- What a buffer on the line holds is converted into a spare one, which takes its place. -/
theorem convert (h : Kept ({g} + spare) (first ++ [(f,k)] ++ last) memory allocated gone put taken) {a : α}
    (ha : made memory (f,k) = k' a) :
    Kept ({f} + spare) (first ++ [(g,k')] ++ last) (Function.update memory g (some a)) allocated gone put taken := by
  have hg := h.notMem_line
  have hsome := h.isSome_update (some a)
  simp only [List.map_append, List.mem_append, not_or] at hg hsome
  refine ⟨?_,?_,?_⟩
  · rw [← h.buffers]
    simp only [List.map_append, ← Multiset.coe_add, List.map_cons, List.map_nil, Multiset.coe_singleton]
    abel
  · have horder := h.order
    have hmade : made (Function.update memory g (some a)) (g,k') = made memory (f,k) := by
      rw [ha, made, Function.update_self, Option.bind_some]
    simp only [List.filterMap_append, List.filterMap_cons, List.filterMap_nil, filterMap_made_update hg.1.1,
      filterMap_made_update hg.2, hmade] at horder ⊢
    exact horder
  · intro buffer hbuffer
    rcases List.mem_append.mp hbuffer with hbuffer | hbuffer
    · rcases List.mem_append.mp hbuffer with hbuffer | hbuffer
      · exact hsome buffer (.inl (.inl hbuffer))
      · simp [List.mem_singleton.mp hbuffer]
    · exact hsome buffer (.inr hbuffer)

/-- The first buffer is taken off the line. -/
theorem takeOff (h : Kept spare ((f,k) :: line) memory allocated gone put taken) {b : β}
    (hb : made memory (f,k) = some b) : Kept ({f} + spare) line memory allocated gone put (taken ++ [b]) := by
  refine ⟨?_,?_,fun buffer hbuffer => h.written buffer (List.mem_cons_of_mem _ hbuffer)⟩
  · rw [← h.buffers, List.map_cons, ← Multiset.cons_coe, ← Multiset.singleton_add]
    abel
  · have horder := h.order
    rwa [List.filterMap_cons, hb, List.append_cons] at horder

/-- Of a buffer that is ready its content is taken as it is. -/
theorem takeOff_ready {line : List (ℕ × (α → Option α))} {put taken : List α}
    (h : Kept spare ((f,some) :: line) memory allocated gone put taken) :
    ∃ a, memory f = some a ∧ Kept ({f} + spare) line memory allocated gone put (taken ++ [a]) := by
  obtain ⟨a,ha⟩ := Option.isSome_iff_exists.mp (h.written _ List.mem_cons_self)
  exact ⟨a,ha,h.takeOff (by rw [made, ha, Option.bind_some])⟩

end Kept
end AdSystem.BufferLine
