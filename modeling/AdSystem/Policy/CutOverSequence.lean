import AdSystem.Policy.OneUpdate

/-! # Runs of callbacks as runs of cut-overs

For the containers, and for the files of one policy, a run of callbacks does what
the sequence of its cut-overs does. A cut-over is possible when the container it
finds has all ids it is going to delete.
-/
namespace AdSystem.Policy
open Iteration Transition Batches

/-- Some entry of the policy has the file. -/
def FileIn (mMediaPath : String) (b : AdMediaInfo) (p : String) : Prop :=
  ∃ m id, FileOf mMediaPath (b.container m) id p

/-- No file that the container has for these ids is one of the policy. -/
def Spares (mMediaPath : String) (b : AdMediaInfo) (c : Container) (ids : Finset NString) : Prop :=
  ∀ id ∈ ids, ∀ p, FileOf mMediaPath c id p → ¬ FileIn mMediaPath b p

section CutTo
variable (R : ℕ → Receiver)

/-- A cut-over, seen on the containers alone. -/
def cutTo (c : Media → Container) (l : ℕ × Media) : Option (Media → Container) :=
  if (R l.1).deleteSet l.2 ⊆ (c l.2).keys then
    some (Function.update c l.2 ((R l.1).newMediaInfo.container l.2))
  else none

/-- The cut-over spares the files of the policy. -/
def SparesFiles (mMediaPath : String) (b : AdMediaInfo) (c : Media → Container) (l : ℕ × Media) : Prop :=
  Spares mMediaPath b (c l.2) ((R l.1).deleteSet l.2)

end CutTo

/-- The receivers of a process are those of `R`, and its active containers are `c`. -/
structure Tracks (R : ℕ → Receiver) (c : Media → Container) (s : Updates) : Prop where
  counted : s.Counted
  running : s.crashed = false
  newMediaInfo : ∀ k r, s.receivers[k]? = some r → r.newMediaInfo = (R k).newMediaInfo
  deleteSet : ∀ k r, s.receivers[k]? = some r → r.deleteSet = (R k).deleteSet
  containers : ∀ m, s.device.adMediaInfo.container m = c m

section Callbacks
variable {mMediaPath : String} {order : IterOrder NString}
  {parse : String → Except Thrown (Option AdMediaInfo)} {s t u : Updates} {d : Download} {p : String}
  {ds : List Download}

theorem Updates.deleted_mono (hu : s.step mMediaPath order parse (.finished d) = some u)
    (hp : p ∈ s.device.storage.deleted) : p ∈ u.device.storage.deleted := by
  obtain ⟨_,_,r,_,rfl⟩ := Updates.finished_eq hu
  by_cases hc : (r.onDownloadFinished d.media).2 = true
  · rw [Updates.finish_last hc]
    exact deleteLoop_deleted_mono hp
  · rw [Updates.finish_early hc]
    exact hp

theorem Updates.exec_deleted_mono
    (ht : exec (Updates.step mMediaPath order parse) s (ds.map .finished) = some t)
    (hp : p ∈ s.device.storage.deleted) : p ∈ t.device.storage.deleted := by
  induction ds generalizing s with
  | nil =>
    cases ht
    exact hp
  | cons d ds ih =>
    obtain ⟨u,hu,ht⟩ := (exec_cons_eq_some _).mp ht
    exact ih ht (deleted_mono hu hp)

theorem Updates.running_of_exec
    (ht : exec (Updates.step mMediaPath order parse) s (ds.map .finished) = some t)
    (hrun : t.crashed = false) : s.crashed = false := by
  cases ds with
  | nil =>
    cases ht
    exact hrun
  | cons d ds =>
    obtain ⟨u,hu,_⟩ := (exec_cons_eq_some _).mp ht
    exact (Updates.finished_eq hu).1

end Callbacks

namespace Tracks
variable {mMediaPath : String} {order : IterOrder NString}
  {parse : String → Except Thrown (Option AdMediaInfo)} {R : ℕ → Receiver} {c c' : Media → Container}
  {s t u : Updates} {d : Download} {p : String} {b : AdMediaInfo}

theorem receivers_set {f : Receiver → Receiver} (hs : Tracks R c s) {k : ℕ} {r : Receiver}
    (hk : s.receivers[k]? = some r) (hnew : (f r).newMediaInfo = r.newMediaInfo)
    (hdel : (f r).deleteSet = r.deleteSet) {j : ℕ} {q : Receiver} (hj : (s.receivers.set k (f r))[j]? = some q) :
    q.newMediaInfo = (R j).newMediaInfo ∧ q.deleteSet = (R j).deleteSet := by
  rcases eq_or_ne k j with rfl | hne
  · rw [List.getElem?_set_self (List.getElem?_eq_some_iff.mp hk).1] at hj
    cases hj
    exact ⟨hnew.trans (hs.newMediaInfo k r hk),hdel.trans (hs.deleteSet k r hk)⟩
  · rw [List.getElem?_set_ne hne] at hj
    exact ⟨hs.newMediaInfo j q hj,hs.deleteSet j q hj⟩

theorem step_early (hs : Tracks R c s) (hu : s.step mMediaPath order parse (.finished d) = some u)
    (h : d.target ∈ (s.downloads.erase d).map Download.target) :
    Tracks R c u ∧ u.downloads = s.downloads.erase d ∧
      u.device.storage.deleted = s.device.storage.deleted ∧
      ∀ p ∈ s.device.storage.files, p ∈ u.device.storage.files := by
  obtain ⟨_,hd,r,hr,rfl⟩ := Updates.finished_eq hu
  have hc : ¬ (r.onDownloadFinished d.media).2 = true := fun hc =>
    (Updates.cutsOver_iff hs.counted hd hr).mp hc h
  have hcounted := hs.counted.finish mMediaPath order hd hr
  rw [Updates.finish_early hc] at hcounted ⊢
  refine ⟨⟨hcounted,rfl,?_,?_,hs.containers⟩,rfl,rfl,fun p hp => Storage.mem_land.mpr (Or.inr hp)⟩
  · intro j q hj
    exact (hs.receivers_set (f := fun r => (r.onDownloadFinished d.media).1) hr rfl rfl hj).1
  · intro j q hj
    exact (hs.receivers_set (f := fun r => (r.onDownloadFinished d.media).1) hr rfl rfl hj).2

section Last
variable (hs : Tracks R c s) (hu : s.step mMediaPath order parse (.finished d) = some u)
  (h : d.target ∉ (s.downloads.erase d).map Download.target)
include hs hu h

/-- The last callback of a kind is the cut-over of its receiver. -/
theorem step_last : ∃ r, s.receivers[d.receiver]? = some r ∧ (r.onDownloadFinished d.media).2 = true ∧
    u = s.finish mMediaPath order d r := by
  obtain ⟨_,hd,r,hr,rfl⟩ := Updates.finished_eq hu
  exact ⟨r,hr,(Updates.cutsOver_iff hs.counted hd hr).mpr h,rfl⟩

theorem step_last_crashed : u.crashed = false ↔
    (R d.receiver).deleteSet d.media ⊆ (c d.media).keys := by
  obtain ⟨r,hr,hc,rfl⟩ := hs.step_last hu h
  rw [Updates.finish_last hc, Bool.not_eq_false', Device.downloadFinished_completes, hs.deleteSet _ _ hr,
    ← hs.containers]
  exact Iff.rfl

theorem step_last_deleted (hp : p ∈ u.device.storage.deleted) :
    p ∈ s.device.storage.deleted ∨
      ∃ id ∈ (R d.receiver).deleteSet d.media, FileOf mMediaPath (c d.media) id p := by
  obtain ⟨r,hr,hc,rfl⟩ := hs.step_last hu h
  rw [Updates.finish_last hc] at hp
  rw [← hs.deleteSet _ _ hr, ← hs.containers]
  rcases Device.mem_downloadFinished_deleted hp with hp | hp
  · exact Or.inl hp
  · exact Or.inr hp

section Runs
variable (hrun : u.crashed = false)
include hrun

theorem step_last_deletes (hp : p ∈ s.device.storage.files) {id : NString}
    (hid : id ∈ (R d.receiver).deleteSet d.media) (hf : FileOf mMediaPath (c d.media) id p) :
    p ∈ u.device.storage.deleted := by
  obtain ⟨r,hr,hc,rfl⟩ := hs.step_last hu h
  rw [Updates.finish_last hc] at hrun ⊢
  rw [← hs.deleteSet _ _ hr] at hid
  rw [← hs.containers] at hf
  exact Device.downloadFinished_deletes (by simpa using hrun) (Storage.mem_land.mpr (Or.inr hp)) hid hf

theorem step_last_keeps (hp : p ∈ s.device.storage.files)
    (hf : ∀ id ∈ (R d.receiver).deleteSet d.media, ¬ FileOf mMediaPath (c d.media) id p) :
    p ∈ u.device.storage.files := by
  obtain ⟨r,hr,_,rfl⟩ := hs.step_last hu h
  rw [← hs.deleteSet _ _ hr, ← hs.containers] at hf
  exact (Updates.mem_files_finish hrun).mpr ⟨Or.inr hp,fun _ => hf⟩

theorem step_last_tracks :
    Tracks R (Function.update c d.media ((R d.receiver).newMediaInfo.container d.media)) u := by
  obtain ⟨_,hd,_⟩ := Updates.finished_eq hu
  obtain ⟨r,hr,hc,rfl⟩ := hs.step_last hu h
  have hcounted := hs.counted.finish mMediaPath order hd hr
  refine ⟨hcounted,hrun,?_,?_,?_⟩
  · intro j q hj
    exact (hs.receivers_set (f := fun r => (r.onDownloadFinished d.media).1) hr rfl rfl hj).1
  · intro j q hj
    exact (hs.receivers_set (f := fun r => (r.onDownloadFinished d.media).1) hr rfl rfl hj).2
  · intro m
    rw [Updates.finish_last hc, Device.downloadFinished_container, ← hs.newMediaInfo _ _ hr]
    rcases eq_or_ne m d.media with rfl | hne
    · rw [if_pos rfl, Function.update_self]
    · rw [if_neg hne, Function.update_of_ne hne]
      exact hs.containers m

end Runs
end Last

section Run
variable {ds rest : List Download}

variable (mMediaPath order parse) in
theorem exists_step (hs : Tracks R c s) (hd : d ∈ s.downloads) :
    ∃ u, s.step mMediaPath order parse (.finished d) = some u := by
  have hr := List.getElem?_eq_getElem (hs.counted.known d hd)
  exact ⟨_,by rw [Updates.step, if_pos ⟨hs.running,hd⟩, hr, Option.map_some]⟩

theorem perm_erase (hp : s.downloads.Perm (d :: ds ++ rest)) : (s.downloads.erase d).Perm (ds ++ rest) := by
  have h := hp.erase d
  rwa [List.cons_append, List.erase_cons_head] at h

theorem cutTo_target : cutTo R c d.target = some c' ↔
    (R d.receiver).deleteSet d.media ⊆ (c d.media).keys ∧
      Function.update c d.media ((R d.receiver).newMediaInfo.container d.media) = c' :=
  Option.ite_none_right_eq_some.trans (and_congr_right fun _ => Option.some_inj)

/-- When the cut-overs are possible and spare a policy, the callbacks come through and
delete none of its files. -/
theorem exec_of_spares (hs : Tracks R c s) (hp : s.downloads.Perm (ds ++ rest))
    (hclean : ∀ p, FileIn mMediaPath b p → p ∉ s.device.storage.deleted)
    (hc : exec (cutTo R) c (closings Download.target rest ds) = some c')
    (hspares : Along (cutTo R) (SparesFiles R mMediaPath b) c (closings Download.target rest ds)) :
    ∃ t, exec (Updates.step mMediaPath order parse) s (ds.map .finished) = some t ∧ Tracks R c' t ∧
      t.downloads.Perm rest ∧ ∀ p, FileIn mMediaPath b p → p ∉ t.device.storage.deleted := by
  induction ds generalizing s c with
  | nil =>
    cases hc
    exact ⟨s,rfl,hs,hp,hclean⟩
  | cons d ds ih =>
    obtain ⟨u,hu⟩ := hs.exists_step mMediaPath order parse (hp.mem_iff.mpr List.mem_cons_self)
    have herase := perm_erase hp
    have hmem : d.target ∈ (s.downloads.erase d).map Download.target ↔
        d.target ∈ (ds ++ rest).map Download.target := (herase.map _).mem_iff
    unfold closings at hc hspares
    by_cases h : d.target ∈ (ds ++ rest).map Download.target
    · rw [if_pos h] at hc hspares
      obtain ⟨hu',hdown,hdel,_⟩ := hs.step_early hu (hmem.mpr h)
      obtain ⟨t,ht,hrest⟩ := ih hu' (hdown ▸ herase) (fun p hf => hdel ▸ hclean p hf) hc hspares
      exact ⟨t,(exec_cons_eq_some _).mpr ⟨u,hu,ht⟩,hrest⟩
    · rw [if_neg h] at hc hspares
      have hlast := fun hm => h (hmem.mp hm)
      obtain ⟨_,hcut,hc⟩ := (exec_cons_eq_some _).mp hc
      obtain ⟨hsub,rfl⟩ := cutTo_target.mp hcut
      have hrun := (hs.step_last_crashed hu hlast).mpr hsub
      have hdown : u.downloads = s.downloads.erase d := by
        obtain ⟨r,_,_,rfl⟩ := hs.step_last hu hlast
        rfl
      have huclean : ∀ p, FileIn mMediaPath b p → p ∉ u.device.storage.deleted := by
        intro p hf hdel
        rcases hs.step_last_deleted hu hlast hdel with hdel | ⟨id,hid,hfile⟩
        · exact hclean p hf hdel
        · exact hspares.1 id hid p hfile hf
      obtain ⟨t,ht,hrest⟩ := ih (hs.step_last_tracks hu hlast hrun) (hdown ▸ herase) huclean hc
        (hspares.2 _ hcut)
      exact ⟨t,(exec_cons_eq_some _).mpr ⟨u,hu,ht⟩,hrest⟩

/-- A run of callbacks that comes through and deletes none of the files of a policy, all
of which are there, is a run of cut-overs that spare them. -/
theorem spares_of_exec (hs : Tracks R c s) (hp : s.downloads.Perm (ds ++ rest))
    (hfiles : ∀ p, FileIn mMediaPath b p → p ∈ s.device.storage.files)
    (ht : exec (Updates.step mMediaPath order parse) s (ds.map .finished) = some t) (hrun : t.crashed = false)
    (hclean : ∀ p, FileIn mMediaPath b p → p ∉ t.device.storage.deleted) :
    ∃ c', exec (cutTo R) c (closings Download.target rest ds) = some c' ∧
      Along (cutTo R) (SparesFiles R mMediaPath b) c (closings Download.target rest ds) ∧ Tracks R c' t ∧
      t.downloads.Perm rest ∧ ∀ p, FileIn mMediaPath b p → p ∈ t.device.storage.files := by
  induction ds generalizing s c with
  | nil =>
    cases ht
    exact ⟨c,rfl,trivial,hs,hp,hfiles⟩
  | cons d ds ih =>
    obtain ⟨u,hu,ht⟩ := (exec_cons_eq_some _).mp ht
    have herase := perm_erase hp
    have hmem : d.target ∈ (s.downloads.erase d).map Download.target ↔
        d.target ∈ (ds ++ rest).map Download.target := (herase.map _).mem_iff
    have hdown : u.downloads = s.downloads.erase d := by
      obtain ⟨_,_,r,_,rfl⟩ := Updates.finished_eq hu
      rfl
    unfold closings
    by_cases h : d.target ∈ (ds ++ rest).map Download.target
    · rw [if_pos h]
      obtain ⟨hu',_,_,hkeeps⟩ := hs.step_early hu (hmem.mpr h)
      exact ih hu' (hdown ▸ herase) (fun p hf => hkeeps p (hfiles p hf)) ht
    · rw [if_neg h]
      have hlast := fun hm => h (hmem.mp hm)
      have hurun := Updates.running_of_exec ht hrun
      have hsub := (hs.step_last_crashed hu hlast).mp hurun
      have hspares : SparesFiles R mMediaPath b c d.target := by
        intro id hid p hf hfile
        exact hclean p hfile (Updates.exec_deleted_mono ht
          (hs.step_last_deletes hu hlast hurun (hfiles p hfile) hid hf))
      obtain ⟨c',hc',hal,hrest⟩ := ih (hs.step_last_tracks hu hlast hurun) (hdown ▸ herase)
        (fun p hf => hs.step_last_keeps hu hlast hurun (hfiles p hf)
          fun id hid hid' => hspares id hid p hid' hf) ht
      have hcut := cutTo_target.mpr ⟨hsub,rfl⟩
      exact ⟨c',(exec_cons_eq_some _).mpr ⟨_,hcut,hc'⟩,(along_cons hcut).mpr ⟨hspares,hal⟩,hrest⟩

end Run
end Tracks
end AdSystem.Policy
