import Mathlib.Order.CompletePartialOrder
import Mathlib.Data.UInt
import Mathlib.Data.Set.Lattice
import Mathlib.Order.Interval.Set.Basic

/-! # Random access files and partial agreement with a resource

A file is the list of its bytes. `Agrees` compares it with a fixed resource on a
set of offsets; writes that put bytes of the resource in their own place only
ever enlarge that set.
-/
namespace AdSystem.ByteFile
variable {B : Type*}

section Operations
variable [Zero B]

/-- Cut the file to `n` bytes, or extend it with zeros. -/
def setLength (f : List B) (n : ℕ) : List B := f.take n ++ List.replicate (n - f.length) 0

/-- Write `bs` from offset `pos` on, extending the file when its end is passed. -/
def write (f : List B) (pos : ℕ) (bs : List B) : List B :=
  setLength f pos ++ bs ++ f.drop (pos + bs.length)

@[simp] theorem setLength_length (f : List B) (n : ℕ) : (setLength f n).length = n := by
  simp only [setLength, List.length_append, List.length_take, List.length_replicate]
  omega

theorem setLength_getElem? {f : List B} {n i : ℕ} (hi : i < n) (hf : i < f.length) :
    (setLength f n)[i]? = f[i]? := by
  rw [setLength, List.getElem?_append_left (by rw [List.length_take]; omega), List.getElem?_take_of_lt hi]

theorem write_length {f : List B} {pos : ℕ} {bs : List B} (h : pos + bs.length ≤ f.length) :
    (write f pos bs).length = f.length := by
  simp only [write, List.length_append, setLength_length, List.length_drop]
  omega

theorem write_getElem?_inside {f : List B} {pos i : ℕ} {bs : List B} (hi : i < bs.length) :
    (write f pos bs)[pos + i]? = bs[i]? := by
  rw [write, List.append_assoc, List.getElem?_append_right (by simp), setLength_length,
    Nat.add_sub_cancel_left, List.getElem?_append_left hi]

theorem write_getElem?_outside {f : List B} {pos i : ℕ} {bs : List B} (hf : i < f.length)
    (h : i < pos ∨ pos + bs.length ≤ i) : (write f pos bs)[i]? = f[i]? := by
  rcases h with h | h
  · rw [write, List.append_assoc, List.getElem?_append_left (by simpa using h), setLength_getElem? h hf]
  · rw [write, List.getElem?_append_right (by simpa using h), List.getElem?_drop]
    simp only [List.length_append, setLength_length]
    congr 1
    omega

end Operations

/-- On the offsets of `s` the file holds the bytes of the resource `r`. -/
def Agrees (r f : List B) (s : Set ℕ) : Prop := ∀ i ∈ s, i < r.length ∧ f[i]? = r[i]?

theorem Agrees.lt_length {r f : List B} {s : Set ℕ} (h : Agrees r f s) {i : ℕ} (hi : i ∈ s) :
    i < f.length := by
  obtain ⟨hr,he⟩ := h i hi
  by_contra hn
  rw [List.getElem?_eq_none (by omega), List.getElem?_eq_getElem hr] at he
  cases he

theorem agrees_Ico_self (r f : List B) (a : ℕ) : Agrees r f (Set.Ico a a) := by
  simp [Agrees]

theorem Agrees.Ico_append {r f : List B} {a b c : ℕ} (hab : Agrees r f (Set.Ico a b))
    (hbc : Agrees r f (Set.Ico b c)) : Agrees r f (Set.Ico a c) := by
  intro i hi
  rcases lt_or_ge i b with h | h
  · exact hab i ⟨hi.1,h⟩
  · exact hbc i ⟨h,hi.2⟩

/-- Agreement everywhere is equality. -/
theorem Agrees.eq {r f : List B} (h : Agrees r f (Set.Iio r.length)) (hl : f.length = r.length) :
    f = r := by
  apply List.ext_getElem?
  intro i
  rcases lt_or_ge i r.length with hi | hi
  · exact (h i hi).2
  · rw [List.getElem?_eq_none (by omega), List.getElem?_eq_none hi]

section Writes
variable [Zero B] {r f bs : List B} {pos n : ℕ} {s : Set ℕ}

theorem Agrees.setLength (h : Agrees r f s) (hn : r.length ≤ n) : Agrees r (setLength f n) s := by
  intro i hi
  obtain ⟨hr,he⟩ := h i hi
  exact ⟨hr,(setLength_getElem? (by omega) (h.lt_length hi)).trans he⟩

/-- The chunk is what the resource holds from `pos` on. -/
def ChunkAt (r : List B) (pos : ℕ) (bs : List B) : Prop := bs <+: r.drop pos

omit [Zero B] in
theorem ChunkAt.getElem? (hb : ChunkAt r pos bs) {i : ℕ} (hi : i < bs.length) :
    r[pos + i]? = bs[i]? := by
  obtain ⟨t,ht⟩ := hb
  rw [← List.getElem?_drop, ← ht, List.getElem?_append_left hi]

/-- A chunk written in its own place spoils nothing. -/
theorem Agrees.write (h : Agrees r f s) (hb : ChunkAt r pos bs) : Agrees r (write f pos bs) s := by
  intro i hi
  obtain ⟨hr,he⟩ := h i hi
  refine ⟨hr,?_⟩
  by_cases hin : pos ≤ i ∧ i < pos + bs.length
  · obtain ⟨k,rfl⟩ := Nat.exists_eq_add_of_le hin.1
    rw [write_getElem?_inside (by omega), hb.getElem? (by omega)]
  · rw [write_getElem?_outside (h.lt_length hi) (by omega), he]

/-- A chunk written in its own place agrees there. -/
theorem agrees_write (hb : ChunkAt r pos bs) :
    Agrees r (ByteFile.write f pos bs) (Set.Ico pos (pos + bs.length)) := by
  intro i hi
  obtain ⟨k,rfl⟩ := Nat.exists_eq_add_of_le hi.1
  have hk : k < bs.length := by have := hi.2; omega
  have he := hb.getElem? hk
  refine ⟨?_,by rw [write_getElem?_inside hk, he]⟩
  by_contra hn
  rw [List.getElem?_eq_none (by omega), List.getElem?_eq_getElem hk] at he
  cases he

end Writes
end AdSystem.ByteFile
