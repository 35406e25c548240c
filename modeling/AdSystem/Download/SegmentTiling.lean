import Mathlib.Data.Int.ConditionallyCompleteOrder
import Mathlib.Algebra.Order.BigOperators.Group.List
import AdSystem.Library.Tiling
import AdSystem.Download.RowLayout

/-! # When the segments of a download tile its file

The rows of a download that begins end at the length itself, one byte behind the file, and
rows that are found are used whatever length they were made for. So whether the requests stay
within the file, and cover it once together with what is finished, is decided by the rows.
-/
namespace AdSystem.Download
open SignedWord Tiling Transition

/-- How often the finished prefix of a row and the request of its thread cover a byte. -/
def ThreadInfo.coverage (r : ThreadInfo) (k : ℤ) : ℕ :=
  (if r.start ≤ k ∧ k < r.start + r.finished then 1 else 0) +
    if (DownloadThread.init r).rangeStart ≤ k ∧ k ≤ r.«end» then 1 else 0

/-- The segments of a download of `L` bytes tile its file. -/
structure Tiles (segments : List ThreadInfo) (L : ℤ) : Prop where
  disjoint : segments.Pairwise fun r q => Disjoint (Set.Icc r.start r.«end») (Set.Icc q.start q.«end»)
  within : ∀ r ∈ segments, Set.Icc (DownloadThread.init r).rangeStart r.«end» ⊆ Set.Icc 0 (L - 1)
  once : ∀ k ∈ Set.Icc 0 (L - 1), (segments.map fun r => r.coverage k).sum = 1

/-- The rows fit a file of `L` bytes. -/
structure Fits (rows : List ThreadInfo) (L : ℤ) : Prop where
  found : rows ≠ []
  /-- The progress is none that a wrap-around made. -/
  progress : ∀ r ∈ rows, 0 ≤ r.finished ∧ r.start + r.finished < 2147483648
  /-- A row that is not finished ends within the file. -/
  unfinished : ∀ r ∈ rows, r.start + r.finished ≤ r.«end» → r.«end» < L
  /-- No row was given bytes of the next one, as far as they are in the file. -/
  separate : rows.IsChain fun r q => r.start + r.finished ≤ q.start ∨ L ≤ q.start
  last : ∀ r ∈ rows.getLast?, L ≤ r.«end» + 1 ∨ L ≤ r.start + r.finished

@[simp] theorem init_rangeStart (r : ThreadInfo) :
    (DownloadThread.init r).rangeStart = i32 (r.start + r.finished) := rfl

/-- What a row covers, as long as its progress did not wrap around. -/
def ThreadInfo.piece (r : ThreadInfo) : ℤ × ℤ := (r.start,max (r.«end» + 1) (r.start + r.finished))

section Row
variable {r : ThreadInfo} {k L : ℤ}

theorem rangeStart_eq (h : InRange (r.start + r.finished)) :
    (DownloadThread.init r).rangeStart = r.start + r.finished := by rw [init_rangeStart, i32_eq h]

theorem coverage_eq (h0 : 0 ≤ r.start) (hf : 0 ≤ r.finished) (hlt : r.start + r.finished < 2147483648) :
    r.coverage k = if r.piece.1 ≤ k ∧ k < r.piece.2 then 1 else 0 := by
  unfold ThreadInfo.coverage ThreadInfo.piece
  rw [rangeStart_eq ⟨by omega,hlt⟩]
  split_ifs <;> omega

/-- A row covers every byte of its segment, whatever its progress is. -/
theorem one_le_coverage (h0 : 0 ≤ r.start) (hlt : r.«end» < 2147483648) (hf : InRange r.finished)
    (hk : r.start ≤ k) (hk' : k ≤ r.«end») : 1 ≤ r.coverage k := by
  obtain ⟨hmin,hmax⟩ := hf
  unfold ThreadInfo.coverage
  rcases lt_or_ge k (r.start + r.finished) with h | h
  · rw [if_pos ⟨hk,h⟩]
    exact Nat.le_add_right 1 _
  · have hin : r.start + r.finished ≤ k ∧ k ≤ r.«end» := ⟨h,hk'⟩
    rw [rangeStart_eq ⟨by omega,by omega⟩, if_pos hin]
    exact Nat.le_add_left 1 _

/-- A request within the file begins at the progress of the row. -/
theorem rangeStart_of_within (h0 : 0 ≤ r.start) (hle : r.start ≤ r.«end») (hlt : r.«end» < 2147483648)
    (hf : InRange r.finished)
    (hw : Set.Icc (DownloadThread.init r).rangeStart r.«end» ⊆ Set.Icc 0 (L - 1)) :
    (DownloadThread.init r).rangeStart = r.start + r.finished ∧ 0 ≤ r.start + r.finished := by
  have hnonneg : 0 ≤ (DownloadThread.init r).rangeStart := by
    by_contra hn
    exact hn (hw ⟨le_rfl,by omega⟩).1
  have hs := rangeStart_of_nonneg (w := DownloadThread.init r) h0 (hle.trans_lt hlt) hf hnonneg
  exact ⟨hs,hs ▸ hnonneg⟩

end Row

section Rows
variable {rows : List ThreadInfo} {a k L : ℤ}

theorem sum_coverage (h : ∀ r ∈ rows, r.coverage k = if r.piece.1 ≤ k ∧ k < r.piece.2 then 1 else 0) :
    (rows.map fun r => r.coverage k).sum = coverCount (rows.map ThreadInfo.piece) k := by
  induction rows with
  | nil => rfl
  | cons r rows ih =>
    rw [List.map_cons, List.sum_cons, List.map_cons, coverCount_cons, h r List.mem_cons_self,
      ih (fun q hq => h q (List.mem_cons_of_mem _ hq)), add_comm]

theorem Consecutive.touching (h : Consecutive a rows) : Touching (rows.map ThreadInfo.piece) := by
  induction rows generalizing a with
  | nil => trivial
  | cons r rows ih =>
    obtain ⟨hs,hle,_,ht⟩ := h
    cases rows with
    | nil =>
      show r.start < max (r.«end» + 1) (r.start + r.finished)
      omega
    | cons q rows =>
      have hq : q.start = r.«end» + 1 := ht.1
      refine ⟨?_,?_,ih ht⟩
      · show r.start < q.start
        omega
      · show q.start ≤ max (r.«end» + 1) (r.start + r.finished)
        omega

theorem Consecutive.isChain_piece (h : Consecutive a rows) (L : ℤ) :
    (rows.map ThreadInfo.piece).IsChain (fun p q => p.2 ≤ q.1 ∨ L ≤ q.1) ↔
      rows.IsChain (fun r q => r.start + r.finished ≤ q.start ∨ L ≤ q.start) := by
  induction rows generalizing a with
  | nil => exact iff_of_true List.isChain_nil List.isChain_nil
  | cons r rows ih =>
    obtain ⟨_,_,_,ht⟩ := h
    cases rows with
    | nil => exact iff_of_true (List.isChain_singleton _) (List.isChain_singleton _)
    | cons q rows =>
      have hq : q.start = r.«end» + 1 := ht.1
      have hstop : max (r.«end» + 1) (r.start + r.finished) ≤ q.start ↔ r.start + r.finished ≤ q.start := by
        omega
      have htail := ih ht
      rw [List.map_cons] at htail
      rw [List.map_cons, List.map_cons, List.isChain_cons_cons, List.isChain_cons_cons, htail]
      exact and_congr_left' (or_congr_left hstop)

/-- Two rows that both cover a byte cover it twice. -/
theorem two_le_sum_coverage {r q : ThreadInfo} (hr : r ∈ rows) (hq : q ∈ rows) (hne : q ≠ r)
    (hrk : 1 ≤ r.coverage k) (hqk : 1 ≤ q.coverage k) : 2 ≤ (rows.map fun r => r.coverage k).sum := by
  rw [← List.sum_map_erase (fun r => r.coverage k) hr]
  have hle : q.coverage k ≤ ((rows.erase r).map fun r => r.coverage k).sum :=
    List.single_le_sum (fun _ _ => Nat.zero_le _) _
      (List.mem_map_of_mem ((List.mem_erase_of_ne hne).mpr hq))
  omega

/-- Where the segments tile the file, no progress wrapped around: a request that began before its
segment would ask for a byte of the row before. -/
theorem Tiles.progress (h : Tiles rows L) (hc : Consecutive 0 rows) (hf : ∀ r ∈ rows, InRange r.finished) :
    ∀ r ∈ rows, 0 ≤ r.finished ∧ r.start + r.finished < 2147483648 := by
  intro r hr
  have h0 := hc.le_start hr
  obtain ⟨hle,hlt⟩ := hc.bounds hr
  obtain ⟨hs,hpos⟩ := rangeStart_of_within h0 hle hlt (hf r hr) (h.within r hr)
  have hmax := (i32_inRange (r.start + r.finished)).2
  rw [init_rangeStart] at hs
  refine ⟨?_,by omega⟩
  by_contra hneg
  have hend := h.within r hr ⟨show i32 (r.start + r.finished) ≤ r.«end» by omega,le_rfl⟩
  obtain ⟨q,hq,hqs,hqe⟩ := hc.exists_mem hr (show 0 ≤ r.start - 1 by omega) (by omega)
  have hne : q ≠ r := by
    rintro rfl
    omega
  have hrk : 1 ≤ r.coverage (r.start - 1) := by
    have hin : r.start + r.finished ≤ r.start - 1 ∧ r.start - 1 ≤ r.«end» := ⟨by omega,by omega⟩
    unfold ThreadInfo.coverage
    rw [init_rangeStart, hs, if_pos hin]
    exact Nat.le_add_left 1 _
  have hqk := one_le_coverage (hc.le_start hq) (hc.bounds hq).2 (hf q hq) hqs hqe
  have htwo := two_le_sum_coverage hr hq hne hrk hqk
  have hone := h.once (r.start - 1) ⟨by omega,by have := hend.2; omega⟩
  omega

/-- Without wrapped progress, covering every byte once is a matter of neighbours and of the last row. -/
theorem once_iff (hne : rows ≠ []) (hc : Consecutive 0 rows)
    (hp : ∀ r ∈ rows, 0 ≤ r.finished ∧ r.start + r.finished < 2147483648) :
    (∀ k ∈ Set.Icc 0 (L - 1), (rows.map fun r => r.coverage k).sum = 1) ↔
      (rows.IsChain fun r q => r.start + r.finished ≤ q.start ∨ L ≤ q.start) ∧
        ∀ r ∈ rows.getLast?, L ≤ r.«end» + 1 ∨ L ≤ r.start + r.finished := by
  have hsum : ∀ k, (rows.map fun r => r.coverage k).sum = coverCount (rows.map ThreadInfo.piece) k :=
    fun k => sum_coverage fun r hr => coverage_eq (hc.le_start hr) (hp r hr).1 (hp r hr).2
  have hlast : (∀ p ∈ (rows.map ThreadInfo.piece).getLast?, L ≤ p.2) ↔
      ∀ r ∈ rows.getLast?, L ≤ r.«end» + 1 ∨ L ≤ r.start + r.finished := by
    simp only [List.getLast?_map, Option.mem_map, forall_exists_index, and_imp, forall_apply_eq_imp_iff₂,
      ThreadInfo.piece, le_max_iff]
  rw [← hc.isChain_piece L, ← hlast]
  obtain ⟨r,rest,rfl⟩ := List.exists_cons_of_ne_nil hne
  have hstart : r.piece.1 = 0 := hc.1
  rw [List.map_cons, ← coversOnce_iff hc.touching L]
  constructor
  · intro ho k hk hkL
    rw [← List.map_cons, ← hsum]
    exact ho k ⟨hstart ▸ hk,by omega⟩
  · intro ho k hk
    rw [hsum]
    exact ho k (hstart ▸ hk.1) (by have := hk.2; omega)

theorem tiles_iff_fits (hne : rows ≠ []) (hc : Consecutive 0 rows) (hf : ∀ r ∈ rows, InRange r.finished) :
    Tiles rows L ↔ Fits rows L := by
  constructor
  · intro h
    have hp := h.progress hc hf
    obtain ⟨hseparate,hlast⟩ := (once_iff hne hc hp).mp h.once
    refine ⟨hne,hp,fun r hr hle => ?_,hseparate,hlast⟩
    have h0 := hc.le_start hr
    have hpr := hp r hr
    have hs := rangeStart_eq (r := r) ⟨by omega,hpr.2⟩
    have hend := (h.within r hr ⟨hs.le.trans hle,le_rfl⟩).2
    omega
  · intro h
    have honce := (once_iff (L := L) hne hc h.progress).mpr ⟨h.separate,h.last⟩
    refine ⟨hc.pairwise_disjoint,fun r hr k hk => ?_,honce⟩
    have h0 := hc.le_start hr
    have hp := h.progress r hr
    rw [rangeStart_eq ⟨by omega,hp.2⟩, Set.mem_Icc] at hk
    have hend := h.unfinished r hr (hk.1.trans hk.2)
    exact ⟨by omega,by omega⟩

end Rows

/-- The last row of a download that begins ends at the length, where the file has no byte. -/
theorem DownloadTask.Ordered.exists_end {t : DownloadTask} {url : String} (h : t.Ordered url) :
    ∃ r ∈ t.newThreads, r.«end» = t.mTaskInfo.lenght := by
  obtain ⟨L,hL,_,he⟩ := h.newThreads_eq
  have hpos : 0 < parts L t.mThreadCount := by
    have hc := h.threadCount
    unfold parts
    split_ifs <;> omega
  refine ⟨threadRow url L (parts L t.mThreadCount) (parts L t.mThreadCount - 1),?_,?_⟩
  · rw [he]
    exact List.mem_map_of_mem (List.mem_range.mpr (by omega))
  · rw [hL, threadRow, if_neg (by omega)]

theorem DownloadTask.Ordered.not_tiles {t : DownloadTask} {url : String} (h : t.Ordered url) :
    ¬ Tiles t.newThreads t.mTaskInfo.lenght := by
  intro ht
  obtain ⟨r,hr,hend⟩ := h.exists_end
  have h0 := h.consecutive.le_start hr
  obtain ⟨hle,hlt⟩ := h.consecutive.bounds hr
  have hs : (DownloadThread.init r).rangeStart = r.start := by
    rw [init_rangeStart, (h.mem_newThreads hr).2.1, add_zero, i32_eq ⟨by omega,by omega⟩]
  have hin := (ht.within r hr ⟨hs.le.trans hle,le_rfl⟩).2
  omega

namespace StoringSession

/-- Whatever lengths and thread counts the earlier sessions of a url were given and wherever they
died, the segments of the next download tile its file exactly when the rows they left fit it. -/
theorem tiles_downlaod_iff_fits (info : TaskInfo) (rows : ThreadTable) (hrows : getThread rows info.url = [])
    (file : List UInt8) (as : List StoringAction) (s : StoringSession)
    (he : exec (step info) (fresh rows file) as = some s) (L T : ℤ) (hL : 1 ≤ L) (hL' : L ≤ 2147483647)
    (hT : 1 ≤ T) :
    Tiles ((DownloadTask.init { info with lenght := L } T).downlaod s.session.rows).2 L ↔
      Fits (getThread s.session.rows info.url) L := by
  have hs := exec_layout hrows he
  let t := DownloadTask.init { info with lenght := L } T
  have hcount : t.mThreadCount = T.toNat := if_pos (by omega)
  have ht : t.Ordered info.url := ⟨rfl,hL,by show L < 2147483648; omega,by omega⟩
  rcases downlaod_cases t s.session.rows with ⟨hne,hd⟩ | ⟨hnil,hd⟩
  · rw [hd]
    exact tiles_iff_fits hne hs.rows.consecutive hs.finished
  · rw [hd]
    exact iff_of_false ht.not_tiles (fun hf => hf.found hnil)

def tiledInfo : TaskInfo := ⟨"u",none,none,0,some 0⟩

/-- A download of nine bytes that ends before any of them is there. -/
def nineBytesRun : List StoringAction :=
  [.session (.initThread 9),.session (.msgInit 3),.insertNext,.insertNext,.insertNext,.insertNext,.session .die]

/-- When the file has grown by one byte, the rows end at its last byte. -/
theorem tiles_downlaod_iff_fits_nine :
    ∃ s, exec (step tiledInfo) (fresh [] []) nineBytesRun = some s ∧
      Tiles ((DownloadTask.init { tiledInfo with lenght := 10 } 3).downlaod s.session.rows).2 10 :=
  ⟨_,rfl,(tiles_downlaod_iff_fits tiledInfo [] rfl [] nineBytesRun _ rfl 10 3 (by decide) (by decide)
    (by decide)).mpr ⟨by decide,by decide,by decide,by decide,by decide⟩⟩

/-- The last of three threads asks for ten bytes from offset 6 to offset 10. -/
theorem downlaod_not_tiles :
    ¬ ∀ (info : TaskInfo) (rows : ThreadTable), getThread rows info.url = [] →
      ∀ (file : List UInt8) (as : List StoringAction) (s : StoringSession),
        exec (step info) (fresh rows file) as = some s →
        ∀ L T : ℤ, 1 ≤ L → L ≤ 2147483647 → 1 ≤ T →
          Tiles ((DownloadTask.init { info with lenght := L } T).downlaod s.session.rows).2 L := by
  intro h
  have ht := h tiledInfo [] rfl [] [] _ rfl 10 3 (by decide) (by decide) (by decide)
  have hin := ht.within ⟨2,"u",6,10,0⟩ (by decide) (a := 10) ⟨by decide,by decide⟩
  exact absurd hin.2 (by decide)

end StoringSession
end AdSystem.Download
