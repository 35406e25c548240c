import Mathlib.Algebra.BigOperators.Ring.Finset
import AdSystem.Download.TaskSession

/-! # A finished download is the resource

Whatever a row, a thread or a total claims to have fetched agrees with the
resource, as long as every answer is the part that was asked for. The totals claim
prefixes of disjoint slices, so they reach the length only when nothing is missing.
-/
namespace AdSystem.Download
open SignedWord ByteFile Slices Pool Transition

section Claims
variable (resource : List UInt8) (url : String) (n : ℕ)

/-- `v` bytes of slice `i` are in the file. -/
def Fetched (file : List UInt8) (i v : ℕ) : Prop :=
  i < n ∧ sliceStart resource.length n i + v ≤ sliceStop resource.length n i ∧
    Agrees resource file (Set.Ico (sliceStart resource.length n i) (sliceStart resource.length n i + v))

/-- The record is a row of the task and its progress is true of the file. -/
def RowSound (file : List UInt8) (r : ThreadInfo) : Prop :=
  ∃ i v, Fetched resource n file i v ∧ r = (threadRow url resource.length n i).setFinished v

/-- Besides, the stream of a connected thread holds the rest of its slice. -/
def ThreadSound (file : List UInt8) (w : DownloadThread) : Prop :=
  ∃ i v, Fetched resource n file i v ∧
    w.threadInfo = (threadRow url resource.length n i).setFinished v ∧
    (w.stage ≠ .queued → w.filePointer = sliceStart resource.length n i + v ∧
      w.inputStream = (resource.take (sliceStop resource.length n i)).drop w.filePointer)

/-- Every total is the progress of its slice, at the latest report. -/
def TotalsSound (T : ℕ) (file : List UInt8) (totals : List ℤ) : Prop :=
  totals.length = T ∧
    ∀ (i : ℕ) (x : ℤ), totals[i]? = some x → ∃ v : ℕ, x = v ∧ (v = 0 ∨ Fetched resource n file i v)

def Complete (file : List UInt8) : Prop := Agrees resource file (Set.Iio resource.length)

end Claims

section FileGrowth
variable {resource : List UInt8} {url : String} {n T : ℕ} {file file' : List UInt8}

/-- The file keeps everything that agreed. -/
def Grows (resource file file' : List UInt8) : Prop :=
  ∀ s, Agrees resource file s → Agrees resource file' s

theorem Grows.refl : Grows resource file file := fun _ h => h

theorem Fetched.grows {i v : ℕ} (h : Fetched resource n file i v) (hg : Grows resource file file') :
    Fetched resource n file' i v := ⟨h.1,h.2.1,hg _ h.2.2⟩

theorem RowSound.grows {r : ThreadInfo} (h : RowSound resource url n file r)
    (hg : Grows resource file file') : RowSound resource url n file' r := by
  obtain ⟨i,v,hf,hr⟩ := h
  exact ⟨i,v,hf.grows hg,hr⟩

theorem ThreadSound.grows {w : DownloadThread} (h : ThreadSound resource url n file w)
    (hg : Grows resource file file') : ThreadSound resource url n file' w := by
  obtain ⟨i,v,hf,hr,hs⟩ := h
  exact ⟨i,v,hf.grows hg,hr,hs⟩

theorem TotalsSound.grows {totals : List ℤ} (h : TotalsSound resource n T file totals)
    (hg : Grows resource file file') : TotalsSound resource n T file' totals := by
  refine ⟨h.1,fun i x hx => ?_⟩
  obtain ⟨v,hv,hf⟩ := h.2 i x hx
  exact ⟨v,hv,hf.imp_right (fun hf => hf.grows hg)⟩

theorem fetched_zero {i : ℕ} (hi : i < n) : Fetched resource n file i 0 :=
  ⟨hi,sliceStart_le_stop hi,agrees_Ico_self _ _ _⟩

theorem rowSound_threadRow {i : ℕ} (hi : i < n) :
    RowSound resource url n file (threadRow url resource.length n i) :=
  ⟨i,0,fetched_zero hi,rfl⟩

theorem RowSound.threadSound {r : ThreadInfo} (h : RowSound resource url n file r) :
    ThreadSound resource url n file (DownloadThread.init r) := by
  obtain ⟨i,v,hf,hr⟩ := h
  exact ⟨i,v,hf,hr,fun hq => absurd rfl hq⟩

theorem totalsSound_replicate (T : ℕ) (file : List UInt8) :
    TotalsSound resource n T file (List.replicate T 0) := by
  refine ⟨List.length_replicate,fun i x hx => ?_⟩
  have hm := List.eq_of_mem_replicate (List.mem_of_getElem? hx)
  exact ⟨0,by simpa using hm,Or.inl rfl⟩

end FileGrowth

section Totals
variable {resource : List UInt8} {url : String} {n T : ℕ} {file : List UInt8} {totals : List ℤ}

/-- A report that the length is reached is only made over a complete file. -/
theorem TotalsSound.complete (h : TotalsSound resource n T file totals) (hn : n ≤ T)
    (hL : resource.length < 2147483648) (hs : (resource.length : ℤ) ≤ sum32 totals) :
    Complete resource file := by
  obtain ⟨hlen,hall⟩ := h
  let v : ℕ → ℕ := fun i => (totals.getD i 0).toNat
  have hcast : ∀ i < T, totals.getD i 0 = (v i : ℤ) ∧ (v i = 0 ∨ Fetched resource n file i (v i)) := by
    intro i hi
    have hx : totals[i]? = some (totals.getD i 0) := by
      rw [List.getD_eq_getElem?_getD, List.getElem?_eq_getElem (by omega)]
      rfl
    obtain ⟨u,hu,hf⟩ := hall i _ hx
    have hvu : v i = u := by simp only [v, hu, Int.toNat_natCast]
    exact ⟨by rw [hvu, hu],hvu ▸ hf⟩
  have hv : ∀ i < n, sliceStart resource.length n i + v i ≤ sliceStop resource.length n i := by
    intro i hi
    rcases (hcast i (by omega)).2 with h0 | hf
    · rw [h0]
      exact sliceStart_le_stop hi
    · exact hf.2.1
  have hsum : totals.sum = ((∑ i ∈ Finset.range n, v i : ℕ) : ℤ) := by
    rw [sum_eq_sum_getD, hlen, Nat.cast_sum,
      ← Finset.sum_subset (Finset.range_subset_range.mpr hn) (fun i hi hin => ?_)]
    · exact Finset.sum_congr rfl (fun i hi => (hcast i (by have := Finset.mem_range.mp hi; omega)).1)
    · have hi := Finset.mem_range.mp hi
      rw [Finset.mem_range] at hin
      obtain ⟨he,h0 | hf⟩ := hcast i hi
      · rw [he, h0, Nat.cast_zero]
      · exact absurd hf.1 hin
  have hle := prefixes_sum_le hv
  have hnonneg : ∀ x ∈ totals, 0 ≤ x := by
    intro x hx
    obtain ⟨i,hi⟩ := List.mem_iff_getElem?.mp hx
    obtain ⟨u,hu,_⟩ := hall i x hi
    omega
  rw [sum32_eq hnonneg (by omega), hsum] at hs
  refine prefixes_cover (P := fun k => k < resource.length ∧ file[k]? = resource[k]?) hv ?_ (by omega)
  intro i hi k hk hk'
  rcases (hcast i (by omega)).2 with h0 | hf
  · omega
  · exact hf.2.2 k ⟨hk,hk'⟩

theorem TotalsSound.notify {t : DownloadTask} (h : TotalsSound resource n T file t.mTotalFinished)
    {i v : ℕ} (hf : Fetched resource n file i v) :
    TotalsSound resource n T file (t.notifyProgress i v).1.mTotalFinished := by
  refine ⟨by rw [notifyProgress_length, h.1],fun j x hx => ?_⟩
  unfold DownloadTask.notifyProgress at hx
  split_ifs at hx with hc
  · simp only [Int.toNat_natCast] at hx
    rcases eq_or_ne i j with rfl | hne
    · rw [List.getElem?_set_self (by omega)] at hx
      cases hx
      exact ⟨v,rfl,Or.inr hf⟩
    · rw [List.getElem?_set_ne hne] at hx
      exact h.2 j x hx
  · exact h.2 j x hx

theorem TotalsSound.notify_complete {t : DownloadTask}
    (h : TotalsSound resource n T file t.mTotalFinished) (hl : t.mTaskInfo.lenght = resource.length)
    (hn : n ≤ T) (h0 : 0 < resource.length) (hL : resource.length < 2147483648) {i v : ℕ}
    (hf : Fetched resource n file i v) {p : ℤ} (hp : (t.notifyProgress i v).2 = some p)
    (h100 : 100 ≤ p) : Complete resource file := by
  have hs := h.notify hf
  unfold DownloadTask.notifyProgress at hs hp
  split_ifs at hs hp with hc
  cases hp
  rw [hl, hundred_le_percent (by omega)] at h100
  exact hs.complete hn hL h100

end Totals

/-- The requested part of the resource, or all of it when all of it was requested. -/
def Faithful (resource : List UInt8) (w : DownloadThread) (responseCode : ℕ) (body : List UInt8) :
    Prop :=
  Answers resource w responseCode body ∧ (responseCode = httpOk → AsksForAll resource w)

instance (resource : List UInt8) (w : DownloadThread) (responseCode : ℕ) (body : List UInt8) :
    Decidable (Faithful resource w responseCode body) :=
  inferInstanceAs (Decidable (_ ∧ (_ → _)))

theorem Faithful.body_eq {resource body : List UInt8} {w : DownloadThread} {responseCode : ℕ}
    (h : Faithful resource w responseCode body) : body = requestedBytes resource w := by
  obtain ⟨⟨_,hb⟩ | ⟨hc,hb⟩,hall⟩ := h
  · exact hb
  · obtain ⟨hs,he⟩ := hall hc
    rw [hb, requestedBytes, hs, List.take_of_length_le he]
    rfl

/-- What is true of a task and its surroundings before a thread acts. -/
structure Ready (resource : List UInt8) (url : String) (n T : ℕ) (t : DownloadTask)
    (file : List UInt8) (rows : ThreadTable) : Prop where
  length : file.length = resource.length
  lenght : t.mTaskInfo.lenght = resource.length
  totals : TotalsSound resource n T file t.mTotalFinished
  rows : ∀ r ∈ getThread rows url, RowSound resource url n file r

/-- What is true after it, whatever the thread did. -/
structure Effect.Sound (resource : List UInt8) (url : String) (n T : ℕ) (file : List UInt8)
    (e : Effect) : Prop where
  length : e.file.length = resource.length
  grows : Grows resource file e.file
  thread : ∀ w, e.thread = some w → ThreadSound resource url n e.file w
  totals : TotalsSound resource n T e.file e.task.mTotalFinished
  rows : ∀ r ∈ getThread e.rows url, RowSound resource url n e.file r
  posted : ∀ p, e.posted = some p → 100 ≤ p → Complete resource e.file

section Actions
variable {resource : List UInt8} {url : String} {n T : ℕ} {t : DownloadTask}
  {file : List UInt8} {rows : ThreadTable} {w : DownloadThread}

theorem ThreadSound.rangeStart (hw : ThreadSound resource url n file w)
    (hL : resource.length < 2147483648) :
    ∃ i v, Fetched resource n file i v ∧
      w.threadInfo = (threadRow url resource.length n i).setFinished v ∧
      w.rangeStart = (sliceStart resource.length n i + v : ℕ) := by
  obtain ⟨i,v,hf,hi,_⟩ := hw
  refine ⟨i,v,hf,hi,?_⟩
  have hle := hf.2.1.trans sliceStop_le
  rw [DownloadThread.rangeStart, hi]
  exact_mod_cast i32_natCast hle hL

theorem ThreadSound.connect (hw : ThreadSound resource url n file w)
    (hL : resource.length < 2147483648) {responseCode : ℕ} {body : List UInt8}
    (hb : Faithful resource w responseCode body) :
    ThreadSound resource url n file ⟨w.threadInfo,.reading,w.rangeStart.toNat,body⟩ := by
  obtain ⟨i,v,hf,hi,hs⟩ := hw.rangeStart hL
  have hnat : w.rangeStart.toNat = sliceStart resource.length n i + v := by
    rw [hs, Int.toNat_natCast]
  have htake : resource.take (w.threadInfo.«end» + 1).toNat
      = resource.take (sliceStop resource.length n i) := by
    have hend : w.threadInfo.«end» = (threadRow url resource.length n i).«end» := by rw [hi]; rfl
    rw [hend, ← @threadRow_stop url, ← List.take_take, List.take_length]
  refine ⟨i,v,hf,hi,fun _ => ⟨hnat,?_⟩⟩
  change body = _
  rw [hb.body_eq, requestedBytes, htake]

theorem ThreadSound.read (hw : ThreadSound resource url n file w) (hq : w.stage ≠ .queued)
    (hlen : file.length = resource.length) (hL : resource.length < 2147483648) {readLen : ℕ}
    (hle : readLen ≤ w.inputStream.length) :
    (write file w.filePointer (w.inputStream.take readLen)).length = resource.length ∧
    Grows resource file (write file w.filePointer (w.inputStream.take readLen)) ∧
    ThreadSound resource url n (write file w.filePointer (w.inputStream.take readLen))
      ⟨w.threadInfo.setFinished (i32 (w.threadInfo.finished + readLen)),.written,
        w.filePointer + readLen,w.inputStream.drop readLen⟩ := by
  obtain ⟨i,v,hf,hi,hs⟩ := hw
  obtain ⟨hp,hstream⟩ := hs hq
  obtain ⟨hin,hstop,hagree⟩ := hf
  have hstopL := sliceStop_le (L := resource.length) (n := n) (i := i)
  have hsl : w.inputStream.length = sliceStop resource.length n i - w.filePointer := by
    rw [hstream, List.length_drop, List.length_take]
    omega
  have htl : (w.inputStream.take readLen).length = readLen := by
    rw [List.length_take]
    omega
  have hchunk : ChunkAt resource w.filePointer (w.inputStream.take readLen) := by
    rw [ChunkAt, hstream, List.drop_take, List.take_take]
    exact List.take_prefix _ _
  have hfit : w.filePointer + (w.inputStream.take readLen).length ≤ file.length := by omega
  have hgrow : Grows resource file (write file w.filePointer (w.inputStream.take readLen)) :=
    fun s hs => hs.write hchunk
  have hnew := agrees_write (f := file) hchunk
  rw [htl, hp] at hnew
  have hfin : i32 (w.threadInfo.finished + readLen) = ((v + readLen : ℕ) : ℤ) := by
    have hv : w.threadInfo.finished = v := by rw [hi]; rfl
    rw [hv]
    exact_mod_cast i32_natCast (n := v + readLen) (L := resource.length) (by omega) hL
  refine ⟨(write_length hfit).trans hlen,hgrow,i,v + readLen,⟨hin,by omega,?_⟩,?_,fun _ => ⟨by dsimp only; omega,?_⟩⟩
  · rw [← Nat.add_assoc]
    apply (hgrow _ hagree).Ico_append
    rw [hp]
    exact hnew
  · dsimp only
    rw [hfin, hi]
    rfl
  · dsimp only
    rw [hstream, List.drop_drop]

theorem Ready.notify (hr : Ready resource url n T t file rows) (hn : n ≤ T)
    (h0 : 0 < resource.length) (hL : resource.length < 2147483648)
    (hw : ThreadSound resource url n file w) :
    TotalsSound resource n T file
      (t.notifyProgress w.threadInfo.id w.threadInfo.finished).1.mTotalFinished ∧
    ∀ p, (t.notifyProgress w.threadInfo.id w.threadInfo.finished).2 = some p → 100 ≤ p →
      Complete resource file := by
  obtain ⟨i,v,hf,hi,_⟩ := hw
  have hid : w.threadInfo.id = i := by rw [hi]; rfl
  have hv : w.threadInfo.finished = v := by rw [hi]; rfl
  rw [hid, hv]
  exact ⟨hr.totals.notify hf,fun p hp h100 =>
    hr.totals.notify_complete hr.lenght hn h0 hL hf hp h100⟩

theorem rowSound_updateThread (hr : ∀ r ∈ getThread rows url, RowSound resource url n file r)
    (hw : ThreadSound resource url n file w) :
    ∀ r ∈ getThread (updateThread rows w.threadInfo.url w.threadInfo.id w.threadInfo.finished) url,
      RowSound resource url n file r := by
  intro r hm
  obtain ⟨hm,hu⟩ := mem_getThread.mp hm
  obtain ⟨i,v,hf,hi,_⟩ := hw
  rcases mem_updateThread hm with hm | ⟨q,hq,hqu,hqi,rfl⟩
  · exact hr r (mem_getThread.mpr ⟨hm,hu⟩)
  · obtain ⟨j,u,_,hj⟩ := hr q (mem_getThread.mpr ⟨hq,by simpa using hu⟩)
    have hij : j = i := by
      rw [hi, hj] at hqi
      simpa using hqi
    subst hij
    refine ⟨j,v,hf,?_⟩
    rw [hj, hi]
    rfl

theorem run_sound (hr : Ready resource url n T t file rows) (hn : n ≤ T)
    (h0 : 0 < resource.length) (hL : resource.length < 2147483648)
    (hw : ThreadSound resource url n file w) {a : ThreadAction} {e : Effect}
    (ha : ∀ responseCode body, a = .connect responseCode body → Faithful resource w responseCode body)
    (h : w.run t file rows a = some e) : e.Sound resource url n T file := by
  have hsame : ∀ {stage}, w.stage ≠ .queued → ThreadSound resource url n file { w with stage } := by
    intro stage hq
    obtain ⟨i,v,hf,hi,hs⟩ := hw
    exact ⟨i,v,hf,hi,fun _ => hs hq⟩
  obtain ⟨htot,hpost⟩ := hr.notify hn h0 hL hw
  cases run_acts h with
  | connected =>
    exact ⟨hr.length,Grows.refl,fun w' hw' => by cases hw'; exact hw.connect hL (ha _ _ rfl),
      hr.totals,hr.rows,fun p hp => nomatch hp⟩
  | delivered hc _ hle =>
    obtain ⟨hlen,hg,hw'⟩ := hw.read (by rw [hc]; decide) hr.length hL hle
    exact ⟨hlen,hg,fun w' hw'' => by cases hw''; exact hw',hr.totals.grows hg,
      fun r hm => (hr.rows r hm).grows hg,fun p hp => nomatch hp⟩
  | late hc | notified hc =>
    have hq : w.stage ≠ .queued := by rw [hc]; decide
    exact ⟨hr.length,Grows.refl,fun w' hw' => by cases hw'; exact hsame hq,htot,hr.rows,hpost⟩
  | early hc | checked hc =>
    have hq : w.stage ≠ .queued := by rw [hc]; decide
    exact ⟨hr.length,Grows.refl,fun w' hw' => by cases hw'; exact hsame hq,
      hr.totals,hr.rows,fun p hp => nomatch hp⟩
  | persisted =>
    exact ⟨hr.length,Grows.refl,fun w' hw' => (nomatch hw'),hr.totals,rowSound_updateThread hr.rows hw,
      fun p hp => nomatch hp⟩
  | ended => exact ⟨hr.length,Grows.refl,fun w' hw' => (nomatch hw'),htot,hr.rows,hpost⟩
  | refused | failed =>
    exact ⟨hr.length,Grows.refl,fun w' hw' => (nomatch hw'),hr.totals,hr.rows,fun p hp => nomatch hp⟩

end Actions
end AdSystem.Download
