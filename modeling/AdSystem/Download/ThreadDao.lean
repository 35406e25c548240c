import Mathlib.Data.Int.Notation
import Mathlib.Data.List.Basic
import Mathlib.Tactic.SplitIfs

/-! # The progress table

`thread_info` keeps one row for every download thread, in insertion order. The
operations are those of `ThreadDAOImpl`; each is one statement on the table.
-/
namespace AdSystem.Download

/-- One row of `thread_info`, and the record a download thread works on. -/
structure ThreadInfo where
  id : ℤ
  url : String
  start : ℤ
  «end» : ℤ
  finished : ℤ
  deriving DecidableEq, Repr

/-- The row without its progress. -/
def ThreadInfo.segment (i : ThreadInfo) : ThreadInfo := { i with finished := 0 }

def ThreadInfo.setEnd (i : ThreadInfo) (e : ℤ) : ThreadInfo := { i with «end» := e }
def ThreadInfo.setFinished (i : ThreadInfo) (n : ℤ) : ThreadInfo := { i with finished := n }

abbrev ThreadTable := List ThreadInfo

def insertThread (rows : ThreadTable) (info : ThreadInfo) : ThreadTable := rows ++ [info]

def deleteThread (rows : ThreadTable) (url : String) : ThreadTable :=
  rows.filter (fun r => r.url ≠ url)

def updateThread (rows : ThreadTable) (url : String) (threadId finished : ℤ) : ThreadTable :=
  rows.map (fun r => if r.url = url ∧ r.id = threadId then r.setFinished finished else r)

def getThread (rows : ThreadTable) (url : String) : List ThreadInfo :=
  rows.filter (fun r => r.url = url)

section Lemmas
variable {rows : ThreadTable} {url : String} {r : ThreadInfo}

@[simp] theorem segment_setFinished (i : ThreadInfo) (n : ℤ) :
    (i.setFinished n).segment = i.segment := rfl
@[simp] theorem setFinished_id (i : ThreadInfo) (n : ℤ) : (i.setFinished n).id = i.id := rfl
@[simp] theorem setFinished_url (i : ThreadInfo) (n : ℤ) : (i.setFinished n).url = i.url := rfl

theorem mem_getThread : r ∈ getThread rows url ↔ r ∈ rows ∧ r.url = url := by
  simp [getThread]

theorem mem_deleteThread : r ∈ deleteThread rows url ↔ r ∈ rows ∧ r.url ≠ url := by
  simp [deleteThread]

theorem mem_updateThread {threadId finished : ℤ} (h : r ∈ updateThread rows url threadId finished) :
    r ∈ rows ∨ ∃ q ∈ rows, q.url = url ∧ q.id = threadId ∧ r = q.setFinished finished := by
  obtain ⟨q,hq,he⟩ := List.mem_map.mp h
  split_ifs at he with hc
  · exact Or.inr ⟨q,hq,hc.1,hc.2,he.symm⟩
  · exact Or.inl (he ▸ hq)

theorem updateThread_map {β : Type*} (f : ThreadInfo → β)
    (hf : ∀ i n, f (i.setFinished n) = f i) (rows : ThreadTable) (url : String)
    (threadId finished : ℤ) : (updateThread rows url threadId finished).map f = rows.map f := by
  rw [updateThread, List.map_map]
  apply List.map_congr_left
  intro r _
  simp only [Function.comp_apply]
  split_ifs
  · exact hf r finished
  · rfl

end Lemmas
end AdSystem.Download
