import Mathlib.Data.List.Infix

/-! # A reader that skips what it is late with

What is given to a reader waits in a list. When something comes that can be understood without what
went before it, a key, the reader may throw away all that waits and go on with the key.
-/
namespace AdSystem

/-- What is left when stretches right before a key are skipped. -/
inductive Skips {α : Type*} (key : α → Prop) : List α → List α → Prop
  | nil : Skips key [] []
  | keep {all kept a} (h : Skips key all kept) : Skips key (all ++ [a]) (kept ++ [a])
  | skip {all kept late a} (ha : key a) (h : Skips key all (kept ++ late)) : Skips key (all ++ [a]) (kept ++ [a])

namespace Skips
variable {α : Type*} {key : α → Prop} {all kept rest : List α} {x y : α}

theorem sublist (h : Skips key all kept) : kept.Sublist all := by
  induction h with
  | nil => exact List.Sublist.slnil
  | keep _ ih => exact ih.append_right _
  | skip _ _ ih => exact ((List.sublist_append_left _ _).trans ih).append_right _

/-- The last of all is never skipped. -/
theorem getLast?_eq (h : Skips key all kept) : kept.getLast? = all.getLast? := by
  cases h with
  | nil => rfl
  | keep _ => rw [List.getLast?_concat, List.getLast?_concat]
  | skip _ _ => rw [List.getLast?_concat, List.getLast?_concat]

/-- What has been read so far was itself read with skips. -/
theorem of_append (h : Skips key all (kept ++ rest)) : ∃ before, before <+: all ∧ Skips key before kept := by
  induction all using List.reverseRecOn generalizing rest with
  | nil =>
    have hnil : kept ++ rest = [] := List.sublist_nil.mp h.sublist
    rw [(List.append_eq_nil_iff.mp hnil).1]
    exact ⟨[],List.prefix_rfl,.nil⟩
  | append_singleton all a ih =>
    rcases List.eq_nil_or_concat rest with rfl | ⟨rest',b,rfl⟩
    · rw [List.append_nil] at h
      exact ⟨all ++ [a],List.prefix_rfl,h⟩
    · generalize hk : kept ++ (rest'.concat b) = k, hl : all ++ [a] = l at h
      rw [List.concat_eq_append, ← List.append_assoc] at hk
      cases h with
      | nil => exact absurd hk (by simp)
      | keep h =>
        cases (List.append_inj' hl rfl).1
        rw [← (List.append_inj' hk rfl).1] at h
        obtain ⟨before,hbefore,hs⟩ := ih h
        exact ⟨before,hbefore.trans (List.prefix_append _ _),hs⟩
      | skip _ h =>
        cases (List.append_inj' hl rfl).1
        rw [← (List.append_inj' hk rfl).1, List.append_assoc] at h
        obtain ⟨before,hbefore,hs⟩ := ih h
        exact ⟨before,hbefore.trans (List.prefix_append _ _),hs⟩

/-- What is no key is read right after what came before it. -/
theorem adjacent {before after : List α} (h : Skips key all (before ++ x :: y :: after)) (hy : ¬ key y) :
    ∃ front back, all = front ++ x :: y :: back := by
  generalize hk : before ++ x :: y :: after = k at h
  induction h generalizing after with
  | nil => exact absurd hk (by simp)
  | keep h ih =>
    rename_i all kept a
    rcases List.eq_nil_or_concat after with rfl | ⟨after',b,rfl⟩
    · have hsplit : (before ++ [x]) ++ [y] = kept ++ [a] := by rw [← hk]; simp
      obtain ⟨rfl,hya⟩ := List.append_inj' hsplit rfl
      cases hya
      have hlast := h.getLast?_eq
      rw [List.getLast?_concat] at hlast
      obtain ⟨front,rfl⟩ := List.getLast?_eq_some_iff.mp hlast.symm
      exact ⟨front,[],by simp⟩
    · have hsplit : (before ++ x :: y :: after') ++ [b] = kept ++ [a] := by rw [← hk]; simp
      obtain ⟨front,back,hall⟩ := ih (List.append_inj' hsplit rfl).1
      exact ⟨front,back ++ [a],by rw [hall]; simp⟩
  | skip ha h ih =>
    rename_i all kept late a
    rcases List.eq_nil_or_concat after with rfl | ⟨after',b,rfl⟩
    · have hsplit : (before ++ [x]) ++ [y] = kept ++ [a] := by rw [← hk]; simp
      cases (List.append_inj' hsplit rfl).2
      exact absurd ha hy
    · have hsplit : (before ++ x :: y :: after') ++ [b] = kept ++ [a] := by rw [← hk]; simp
      have hkept : before ++ x :: y :: (after' ++ late) = kept ++ late := by
        rw [← (List.append_inj' hsplit rfl).1]
        simp
      obtain ⟨front,back,hall⟩ := ih hkept
      exact ⟨front,back ++ [a],by rw [hall]; simp⟩

end Skips
end AdSystem
