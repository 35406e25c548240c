import AdSystem.Library.Slices
import AdSystem.Download.DownloadTask

/-! # The rows a task makes are slices of its file

The int arithmetic of `downlaod` never wraps for a length below 2^31, and a file
shorter than the number of threads is fetched by one thread.
-/
namespace AdSystem.Download
open SignedWord Slices

/-- The number of rows made for `L` bytes and `T` threads. -/
def parts (L T : ℕ) : ℕ := if L / T = 0 then 1 else T

/-- The `i`-th of `n` rows; only the last one ends beyond its slice. -/
def threadRow (url : String) (L n i : ℕ) : ThreadInfo :=
  ⟨i,url,sliceStart L n i,if i + 1 < n then (sliceStop L n i : ℤ) - 1 else L,0⟩

theorem parts_le {L T : ℕ} (hT : 0 < T) : parts L T ≤ T := by
  unfold parts
  split_ifs <;> omega

section Rows
variable {url : String} {L n i : ℕ}

@[simp] theorem threadRow_url : (threadRow url L n i).url = url := rfl
@[simp] theorem threadRow_id : (threadRow url L n i).id = i := rfl
@[simp] theorem threadRow_start : (threadRow url L n i).start = sliceStart L n i := rfl
@[simp] theorem threadRow_segment : (threadRow url L n i).segment = threadRow url L n i := rfl

/-- The inclusive end of a row, clipped to the file, is the end of its slice. -/
theorem threadRow_stop :
    min ((threadRow url L n i).«end» + 1).toNat L = sliceStop L n i := by
  have hle := sliceStop_le (L := L) (n := n) (i := i)
  by_cases h : i + 1 < n
  · have he : (threadRow url L n i).«end» = (sliceStop L n i : ℤ) - 1 := if_pos h
    omega
  · have he : (threadRow url L n i).«end» = L := if_neg h
    have hs : sliceStop L n i = L := if_neg h
    omega

end Rows

section NewThreads
variable {t : DownloadTask} {L T : ℕ}

theorem newThreads_eq (hl : t.mTaskInfo.lenght = L) (hL : L < 2147483648)
    (hc : t.mThreadCount = T) :
    t.newThreads = (List.range (parts L T)).map (threadRow t.mTaskInfo.url L (parts L T)) := by
  have hblock : t.mTaskInfo.lenght.tdiv t.mThreadCount = ((L / T : ℕ) : ℤ) := by
    rw [hl, hc, Int.tdiv_eq_ediv_of_nonneg (Int.natCast_nonneg L), Int.natCast_ediv]
  unfold DownloadTask.newThreads
  dsimp only
  rw [hblock, hl, hc]
  by_cases h : L / T = 0
  · have hp : parts L T = 1 := if_pos h
    rw [hp, h, if_neg (by simp)]
    simp [threadRow, sliceStart]
  · have hp : parts L T = T := if_neg h
    rw [hp, if_pos (by exact_mod_cast Nat.pos_of_ne_zero h)]
    apply List.map_congr_left
    intro i hi
    have hi := List.mem_range.mp hi
    have hstart : (i : ℤ) * ((L / T : ℕ) : ℤ) = (sliceStart L T i : ℤ) := by
      rw [sliceStart, Nat.cast_mul]
    have hnext : ((i : ℤ) + 1) * ((L / T : ℕ) : ℤ) = (sliceStart L T (i + 1) : ℤ) := by
      rw [sliceStart]
      push_cast
      ring
    have hle := sliceStart_le (L := L) (show i ≤ T by omega)
    have hle' := sliceStart_le (L := L) (show i + 1 ≤ T by omega)
    rw [hstart, hnext, i32_natCast hle hL, i32_natCast hle' hL, i32_natCast_pred hle' hL]
    by_cases hlast : (i : ℤ) = T - 1
    · rw [if_pos hlast, threadRow, if_neg (by omega)]
      rfl
    · rw [if_neg hlast, threadRow, if_pos (by omega), sliceStop, if_pos (by omega)]
      rfl

theorem foldl_insertThread (rows infos : ThreadTable) : infos.foldl insertThread rows = rows ++ infos := by
  induction infos generalizing rows with
  | nil => simp
  | cons info infos ih => simp [insertThread, ih]

/-- `downlaod` either finds rows and uses them, or makes them and stores them. -/
theorem downlaod_cases (t : DownloadTask) (rows : ThreadTable) :
    (getThread rows t.mTaskInfo.url ≠ [] ∧
      t.downlaod rows = (rows,getThread rows t.mTaskInfo.url)) ∨
    (getThread rows t.mTaskInfo.url = [] ∧
      t.downlaod rows = (rows ++ t.newThreads,t.newThreads)) := by
  unfold DownloadTask.downlaod
  cases h : getThread rows t.mTaskInfo.url with
  | nil => exact Or.inr ⟨rfl,by simp [foldl_insertThread]⟩
  | cons r rs => exact Or.inl ⟨by simp,by simp⟩

end NewThreads
end AdSystem.Download
