import Mathlib.Data.List.Basic

/-! # Objects by reference

Several holders of a reference see one object. A new object has a reference that no one
holds yet, and a change through one reference leaves the objects of all others.
-/
namespace AdSystem.References

structure Heap (α : Type*) where
  cells : List α
  deriving DecidableEq, Repr

namespace Heap
variable {α : Type*} (h : Heap α)

def empty : Heap α := ⟨[]⟩

def get (r : ℕ) : Option α := h.cells[r]?

def alloc (a : α) : Heap α × ℕ := (⟨h.cells ++ [a]⟩,h.cells.length)

def modify (r : ℕ) (f : α → α) : Heap α := ⟨h.cells.modify r f⟩

variable {h} {r s : ℕ} {a : α} {f : α → α}

theorem get_alloc_self : (h.alloc a).1.get (h.alloc a).2 = some a := List.getElem?_concat_length

@[simp] theorem get_modify_self : (h.modify r f).get r = (h.get r).map f := by
  simp [modify, get]

end Heap
end AdSystem.References
