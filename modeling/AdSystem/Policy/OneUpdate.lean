import AdSystem.Policy.CutOver

/-! # One update at a time

When no other receiver is at work, the kinds of a policy are patched one by one:
a kind is the new one as soon as its last download has called back, and stays the
old one when there was nothing to download. No delete loop throws then.
-/
namespace AdSystem.Policy
open Iteration Transition Batches

section Device
variable {mMediaPath : String} {order : IterOrder NString} {d : Device} {m n : Media} {r : Receiver}
variable {info info' : AdMediaInfo} {p : String}

theorem getList_congr (h : info.container m = info'.container m) :
    getList mMediaPath order info m = getList mMediaPath order info' m := by
  unfold getList
  rw [h]

namespace Device

@[simp] theorem downloadFinished_container :
    (d.downloadFinished mMediaPath order m r).1.adMediaInfo.container n =
      if n = m then r.newMediaInfo.container m else d.adMediaInfo.container n :=
  AdMediaInfo.setContainer_container ..

@[simp] theorem downloadFinished_intervalContainer :
    (d.downloadFinished mMediaPath order m r).1.adMediaInfo.intervalContainer n =
      d.adMediaInfo.intervalContainer n :=
  AdMediaInfo.setContainer_intervalContainer ..

@[simp] theorem downloadFinished_resolution :
    (d.downloadFinished mMediaPath order m r).1.adMediaInfo.resolution = d.adMediaInfo.resolution :=
  AdMediaInfo.setContainer_resolution ..

theorem downloadFinished_playlist_self :
    (d.downloadFinished mMediaPath order m r).1.playlist m =
      (d.playlist m).map fun _ => getList mMediaPath order r.newMediaInfo m := by
  have hcontainer : (d.adMediaInfo.setContainer m (r.newMediaInfo.container m)).container m =
      r.newMediaInfo.container m := by
    rw [AdMediaInfo.setContainer_container, if_pos rfl]
  simp only [downloadFinished, Function.update_self]
  rw [getList_congr hcontainer]

theorem downloadFinished_playlist_of_ne (h : n ≠ m) :
    (d.downloadFinished mMediaPath order m r).1.playlist n = d.playlist n :=
  Function.update_of_ne h _ _

theorem downloadFinished_completes :
    (d.downloadFinished mMediaPath order m r).2 = true ↔
      ∀ id ∈ r.deleteSet m, id ∈ (d.adMediaInfo.container m).keys := by
  simp only [downloadFinished, deleteLoop_completes, order.mem]

theorem mem_downloadFinished_files (h : (d.downloadFinished mMediaPath order m r).2 = true) :
    p ∈ (d.downloadFinished mMediaPath order m r).1.storage.files ↔
      p ∈ d.storage.files ∧
        ∀ id ∈ r.deleteSet m, ¬ FileOf mMediaPath (d.adMediaInfo.container m) id p := by
  refine (mem_deleteLoop_files h).trans (and_congr_right fun _ => ?_)
  simp only [order.mem]

theorem mem_downloadFinished_deleted
    (h : p ∈ (d.downloadFinished mMediaPath order m r).1.storage.deleted) :
    p ∈ d.storage.deleted ∨ ∃ id ∈ r.deleteSet m, FileOf mMediaPath (d.adMediaInfo.container m) id p := by
  rcases mem_deleteLoop_deleted h with hd | ⟨id,hid,hf⟩
  · exact Or.inl hd
  · exact Or.inr ⟨id,(order.mem _ _).mp hid,hf⟩

theorem downloadFinished_deletes (h : (d.downloadFinished mMediaPath order m r).2 = true)
    (hp : p ∈ d.storage.files) {id : NString} (hid : id ∈ r.deleteSet m)
    (hf : FileOf mMediaPath (d.adMediaInfo.container m) id p) :
    p ∈ (d.downloadFinished mMediaPath order m r).1.storage.deleted :=
  deleteLoop_deletes h (Or.inl hp) ((order.mem _ _).mpr hid) hf

end Device
end Device

/-- The receiver updates the one policy to the other, however far it is. -/
structure Receiver.Replaces (r : Receiver) (old new : AdMediaInfo) : Prop where
  newMediaInfo : r.newMediaInfo = new
  downloadSet : r.downloadSet = (process old new).downloadSet
  deleteSet : r.deleteSet = (process old new).deleteSet

theorem process_replaces (old new : AdMediaInfo) : (process old new).Replaces old new := ⟨rfl,rfl,rfl⟩

theorem Receiver.Replaces.onDownloadFinished {r : Receiver} {old new : AdMediaInfo} (hr : r.Replaces old new)
    (m : Media) : (r.onDownloadFinished m).1.Replaces old new :=
  ⟨hr.newMediaInfo,hr.downloadSet,hr.deleteSet⟩

namespace Updates
variable {mMediaPath : String} {order : IterOrder NString} {s : Updates} {d : Download} {r : Receiver}

theorem finish_early (h : ¬ (r.onDownloadFinished d.media).2 = true) :
    s.finish mMediaPath order d r =
      { device := { s.device with storage := s.device.storage.land (mediaFile mMediaPath (r.resName d)) },
        receivers := s.receivers.set d.receiver (r.onDownloadFinished d.media).1,
        downloads := s.downloads.erase d, crashed := false } := by
  simp only [finish, if_neg h, Bool.not_true]

theorem finish_last (h : (r.onDownloadFinished d.media).2 = true) :
    s.finish mMediaPath order d r =
      let done := Device.downloadFinished mMediaPath order
        { s.device with storage := s.device.storage.land (mediaFile mMediaPath (r.resName d)) } d.media r
      { device := done.1, receivers := s.receivers.set d.receiver (r.onDownloadFinished d.media).1,
        downloads := s.downloads.erase d, crashed := !done.2 } := by
  simp only [finish, if_pos h]

theorem mem_files_finish {p : String} (hrun : (s.finish mMediaPath order d r).crashed = false) :
    p ∈ (s.finish mMediaPath order d r).device.storage.files ↔
      (p = mediaFile mMediaPath (r.resName d) ∨ p ∈ s.device.storage.files) ∧
        ((r.onDownloadFinished d.media).2 = true → ∀ id ∈ r.deleteSet d.media,
          ¬ FileOf mMediaPath (s.device.adMediaInfo.container d.media) id p) := by
  by_cases hc : (r.onDownloadFinished d.media).2 = true
  · rw [finish_last hc, Bool.not_eq_false'] at hrun
    rw [finish_last hc, Device.mem_downloadFinished_files hrun, Storage.mem_land]
    exact and_congr_right fun _ => ⟨fun h _ => h,fun h => h hc⟩
  · rw [finish_early hc, Storage.mem_land]
    exact (and_iff_left fun h => absurd h hc).symm

@[simp] theorem finish_resolution :
    (s.finish mMediaPath order d r).device.adMediaInfo.resolution = s.device.adMediaInfo.resolution := by
  by_cases hc : (r.onDownloadFinished d.media).2 = true
  · rw [finish_last hc, Device.downloadFinished_resolution]
  · rw [finish_early hc]

end Updates

/-- The kind has been cut over by a receiver with these downloads left. -/
def Receiver.Adopted (r : Receiver) (downloads : List Download) (m : Media) : Prop :=
  r.downloadSet m ≠ ∅ ∧ (0,m) ∉ downloads.map Download.target

instance (r : Receiver) (downloads : List Download) (m : Media) : Decidable (r.Adopted downloads m) :=
  inferInstanceAs (Decidable (_ ∧ _))

/-- A process in which the update of `start` to the policy of a text goes on. -/
structure Updating (mMediaPath : String) (order : IterOrder NString) (start : Device) (xmlText : String)
    (new : AdMediaInfo) (s : Updates) : Prop where
  receiver : ∃ r, s.receivers = [r] ∧ r.Replaces start.adMediaInfo new
  counted : s.Counted
  running : s.crashed = false
  wanted : ∀ d ∈ s.downloads, d.id ∈ (process start.adMediaInfo new).downloadSet d.media
  saved : s.device.saved = some xmlText
  intervals : ∀ m, s.device.adMediaInfo.intervalContainer m = start.adMediaInfo.intervalContainer m
  held : ∀ m, ¬ (process start.adMediaInfo new).Adopted s.downloads m →
    s.device.adMediaInfo.container m = start.adMediaInfo.container m ∧
      s.device.playlist m = start.playlist m
  adopted : ∀ m, (process start.adMediaInfo new).Adopted s.downloads m →
    s.device.adMediaInfo.container m = new.container m ∧
      s.device.playlist m = (start.playlist m).map fun _ => getList mMediaPath order new m

namespace Updating
variable {mMediaPath : String} {order : IterOrder NString}
  {parse : String → Except Thrown (Option AdMediaInfo)} {start : Device} {xmlText : String}
  {new : AdMediaInfo} {s : Updates}

variable (mMediaPath) in
theorem fetched (h : parse xmlText = .ok (some new)) :
    Updating mMediaPath order start xmlText new ((Updates.ofDevice start).fetched order parse xmlText) where
  receiver := ⟨_,by rw [Updates.fetched_ok h]; rfl,process_replaces start.adMediaInfo new⟩
  counted := (Updates.ofDevice_counted start).fetched order h
  running := by rw [Updates.fetched_ok h]; rfl
  wanted d hd := by
    rw [Updates.fetched_ok h] at hd
    exact (Receiver.mem_downloads.mp hd).2
  saved := by rw [Updates.fetched_ok h]
  intervals _ := by rw [Updates.fetched_ok h]; rfl
  held _ _ := by rw [Updates.fetched_ok h]; exact ⟨rfl,rfl⟩
  adopted m hm := by
    rw [Updates.fetched_ok h] at hm
    obtain ⟨id,hid⟩ := Finset.nonempty_iff_ne_empty.mpr hm.1
    have hd : ⟨0,m,id⟩ ∈ (process start.adMediaInfo new).downloads order 0 :=
      Receiver.mem_downloads.mpr ⟨rfl,hid⟩
    exact absurd (List.mem_map_of_mem hd) hm.2

theorem target_eq (hs : Updating mMediaPath order start xmlText new s) {d : Download}
    (hd : d ∈ s.downloads) : d.target = (0,d.media) := by
  obtain ⟨r,hr,_⟩ := hs.receiver
  have hlt := hs.counted.known d hd
  rw [hr, List.length_singleton, Nat.lt_one_iff] at hlt
  exact Prod.ext hlt rfl

theorem adopted_erase (hs : Updating mMediaPath order start xmlText new s) {d : Download}
    (hd : d ∈ s.downloads) {m : Media} :
    (process start.adMediaInfo new).Adopted (s.downloads.erase d) m ↔
      if m = d.media then d.target ∉ (s.downloads.erase d).map Download.target
      else (process start.adMediaInfo new).Adopted s.downloads m := by
  split_ifs with hm
  · subst hm
    rw [hs.target_eq hd]
    exact and_iff_right (Finset.ne_empty_of_mem (hs.wanted d hd))
  · have hcount := Updates.count_erase_target hd (0,m)
    rw [if_neg (fun h => hm (congrArg Prod.snd h))] at hcount
    simp only [Receiver.Adopted, ← List.count_eq_zero, hcount, Nat.add_zero]

theorem adopted_erase_of_ne (hs : Updating mMediaPath order start xmlText new s) {d : Download}
    (hd : d ∈ s.downloads) {m : Media} (hm : m ≠ d.media) :
    (process start.adMediaInfo new).Adopted (s.downloads.erase d) m ↔
      (process start.adMediaInfo new).Adopted s.downloads m := by
  rw [hs.adopted_erase hd, if_neg hm]

theorem not_adopted (hs : Updating mMediaPath order start xmlText new s) {d : Download}
    (hd : d ∈ s.downloads) : ¬ (process start.adMediaInfo new).Adopted s.downloads d.media :=
  fun h => h.2 (hs.target_eq hd ▸ List.mem_map_of_mem hd)

variable (parse) in
theorem finished (hs : Updating mMediaPath order start xmlText new s) {d : Download}
    (hd : d ∈ s.downloads) :
    ∃ t, s.step mMediaPath order parse (.finished d) = some t ∧
      Updating mMediaPath order start xmlText new t ∧ t.downloads = s.downloads.erase d := by
  obtain ⟨r,hrs,hr⟩ := hs.receiver
  have hzero : d.receiver = 0 := congrArg Prod.fst (hs.target_eq hd)
  have hget : s.receivers[d.receiver]? = some r := by
    rw [hzero, hrs]
    rfl
  have hfires := Updates.cutsOver_iff hs.counted hd hget
  have hcounted := hs.counted.finish mMediaPath order hd hget
  have hreceiver : ∃ q, s.receivers.set d.receiver (r.onDownloadFinished d.media).1 = [q] ∧
      q.Replaces start.adMediaInfo new := by
    rw [hzero, hrs]
    exact ⟨_,rfl,hr.onDownloadFinished d.media⟩
  have hwanted : ∀ e ∈ s.downloads.erase d, e.id ∈ (process start.adMediaInfo new).downloadSet e.media :=
    fun e he => hs.wanted e (List.mem_of_mem_erase he)
  have hold := hs.held d.media (hs.not_adopted hd)
  refine ⟨_,by rw [Updates.step, if_pos ⟨hs.running,hd⟩, hget, Option.map_some],?_,rfl⟩
  by_cases hc : (r.onDownloadFinished d.media).2 = true
  · -- the last download of its kind: only the container and the list of that kind change
    have hlast := hfires.mp hc
    rw [Updates.finish_last hc] at hcounted ⊢
    refine ⟨hreceiver,hcounted,?_,hwanted,hs.saved,?_,?_,?_⟩
    · rw [Bool.not_eq_false', Device.downloadFinished_completes, hr.deleteSet]
      intro id hid
      rw [hold.1]
      exact (mem_getSetDifference.mp hid).1
    · intro m
      rw [Device.downloadFinished_intervalContainer]
      exact hs.intervals m
    · intro m hm
      have hne : m ≠ d.media := by
        rintro rfl
        exact hm ((hs.adopted_erase hd).mpr (by rwa [if_pos rfl]))
      rw [Device.downloadFinished_container, if_neg hne, Device.downloadFinished_playlist_of_ne hne]
      exact hs.held m fun h => hm ((hs.adopted_erase_of_ne hd hne).mpr h)
    · intro m hm
      rcases eq_or_ne m d.media with rfl | hne
      · rw [Device.downloadFinished_container, if_pos rfl, Device.downloadFinished_playlist_self,
          hr.newMediaInfo]
        exact ⟨rfl,by rw [hold.2]⟩
      · rw [Device.downloadFinished_container, if_neg hne, Device.downloadFinished_playlist_of_ne hne]
        exact hs.adopted m ((hs.adopted_erase_of_ne hd hne).mp hm)
  · have hsame : ∀ m, (process start.adMediaInfo new).Adopted (s.downloads.erase d) m ↔
        (process start.adMediaInfo new).Adopted s.downloads m := by
      intro m
      rcases eq_or_ne m d.media with rfl | hne
      · refine iff_of_false (fun h => hc (hfires.mpr ?_)) (hs.not_adopted hd)
        rw [hs.target_eq hd]
        exact h.2
      · exact hs.adopted_erase_of_ne hd hne
    rw [Updates.finish_early hc] at hcounted ⊢
    exact ⟨hreceiver,hcounted,rfl,hwanted,hs.saved,hs.intervals,
      fun m hm => hs.held m fun h => hm ((hsame m).mpr h),fun m hm => hs.adopted m ((hsame m).mp hm)⟩

theorem of_exec_cons (hs : Updating mMediaPath order start xmlText new s) {d : Download}
    {ds rest : List Download} {t : Updates} (hp : s.downloads.Perm (d :: ds ++ rest))
    (he : exec (Updates.step mMediaPath order parse) s ((d :: ds).map .finished) = some t) :
    d ∈ s.downloads ∧ ∃ u, s.step mMediaPath order parse (.finished d) = some u ∧
      Updating mMediaPath order start xmlText new u ∧ u.downloads.Perm (ds ++ rest) ∧
      exec (Updates.step mMediaPath order parse) u (ds.map .finished) = some t := by
  have hd : d ∈ s.downloads := hp.mem_iff.mpr List.mem_cons_self
  obtain ⟨u,hu,he⟩ := (exec_cons_eq_some _).mp he
  obtain ⟨v,hv,hupd,hdown⟩ := hs.finished parse hd
  cases hu.symm.trans hv
  refine ⟨hd,u,hu,hupd,?_,he⟩
  have h := hp.erase d
  rwa [List.cons_append, List.erase_cons_head, ← hdown] at h

variable (parse) in
/-- Any callbacks of downloads in progress can come, in any order. -/
theorem exec_finished (hs : Updating mMediaPath order start xmlText new s) {ds rest : List Download}
    (hp : s.downloads.Perm (ds ++ rest)) :
    ∃ t, exec (Updates.step mMediaPath order parse) s (ds.map .finished) = some t ∧
      Updating mMediaPath order start xmlText new t ∧ t.downloads.Perm rest := by
  induction ds generalizing s with
  | nil => exact ⟨s,rfl,hs,hp⟩
  | cons d ds ih =>
    obtain ⟨u,hu,hupd,hdown⟩ := hs.finished parse (hp.mem_iff.mpr List.mem_cons_self)
    have herase : u.downloads.Perm (ds ++ rest) := by
      have h := hp.erase d
      rwa [List.cons_append, List.erase_cons_head, ← hdown] at h
    obtain ⟨t,ht,h⟩ := ih hupd herase
    exact ⟨t,(exec_cons_eq_some _).mpr ⟨u,hu,ht⟩,h⟩

end Updating

section Complete
variable {mMediaPath : String} {order : IterOrder NString}
  {parse : String → Except Thrown (Option AdMediaInfo)} {start : Device} {xmlText : String}
  {new : AdMediaInfo} {s : Updates} {es : List Download}

theorem Receiver.adopted_of_nil {r : Receiver} {m : Media} : r.Adopted [] m ↔ r.downloadSet m ≠ ∅ :=
  and_iff_left List.not_mem_nil

theorem fetched_downloads (h : parse xmlText = .ok (some new)) :
    ((Updates.ofDevice start).fetched order parse xmlText).downloads =
      (process start.adMediaInfo new).downloads order 0 := by
  rw [Updates.fetched_ok h]
  rfl

variable (h : parse xmlText = .ok (some new))
  (hes : es.Perm ((process start.adMediaInfo new).downloads order 0))
include h hes

variable (mMediaPath) in
/-- Every order of the callbacks completes the update. -/
theorem update_completes :
    ∃ t, exec (Updates.step mMediaPath order parse) ((Updates.ofDevice start).fetched order parse xmlText)
        (es.map .finished) = some t ∧
      Updating mMediaPath order start xmlText new t ∧ t.downloads = [] := by
  have hp : ((Updates.ofDevice start).fetched order parse xmlText).downloads.Perm (es ++ []) := by
    rw [fetched_downloads h, List.append_nil]
    exact hes.symm
  obtain ⟨t,ht,hupd,hnil⟩ := (Updating.fetched mMediaPath h).exec_finished parse hp
  exact ⟨t,ht,hupd,hnil.eq_nil⟩

theorem mem_cutOvers_complete (m : Media) :
    (0,m) ∈ trace (Updates.step mMediaPath order parse) Updates.cutOvers
        ((Updates.ofDevice start).fetched order parse xmlText) (es.map .finished) ↔
      (process start.adMediaInfo new).downloadSet m ≠ ∅ := by
  have hp : ((Updates.ofDevice start).fetched order parse xmlText).downloads.Perm (es ++ []) := by
    rw [fetched_downloads h, List.append_nil]
    exact hes.symm
  obtain ⟨t,ht,_⟩ := update_completes mMediaPath h hes
  rw [(Updates.exec_finished (Updating.fetched mMediaPath h).counted hp ht).1,
    mem_closings, (hes.map Download.target).mem_iff, Receiver.mem_targets]
  constructor
  · rintro ⟨⟨_,hm⟩,_⟩
    exact hm
  · intro hm
    exact ⟨⟨rfl,hm⟩,List.not_mem_nil⟩

end Complete
end AdSystem.Policy
