import AdSystem.Policy.MediaUpdateReceiver

/-! # When the cut-overs run

While a receiver waits, its count and the downloads it still has in progress add up
to its total. So the cut-over of a kind runs when the last of its downloads calls
back, and not at all when there was none.
-/
namespace AdSystem.Policy
open Iteration Transition Batches

section Loop
variable {mMediaPath : String} {container : Container} {storage : Storage} {p : String}

/-- The file of an id of a container. -/
def FileOf (mMediaPath : String) (container : Container) (id : NString) (p : String) : Prop :=
  ∃ entry, container.lookup id = some entry ∧ mediaFile mMediaPath entry.filename = p

/-- A file of an id that is new to the policy. -/
def NewFile (mMediaPath : String) (oldMedia newMedia : AdMediaInfo) (p : String) : Prop :=
  ∃ m, ∃ id ∉ (oldMedia.container m).keys, FileOf mMediaPath (newMedia.container m) id p

/-- The entries of a policy made of entries. -/
def entriesOf (videos images : List AdInfo) : Media → List AdInfo
  | .video => videos
  | .image => images

theorem fileOf_ofEntries {videos images : List AdInfo} {m : Media} {id : NString}
    (h : FileOf mMediaPath ((AdMediaInfo.ofEntries videos images).container m) id p) :
    ∃ entry ∈ entriesOf videos images m, entry.id = id ∧ mediaFile mMediaPath entry.filename = p := by
  obtain ⟨entry,he,hp⟩ := h
  cases m
  · exact ⟨entry,(putAll_id AdInfo.id videos he).2,(putAll_id AdInfo.id videos he).1,hp⟩
  · exact ⟨entry,(putAll_id AdInfo.id images he).2,(putAll_id AdInfo.id images he).1,hp⟩

/-- The loop ends normally exactly when every id has an entry. -/
theorem deleteLoop_completes (ids : List NString) :
    (deleteLoop mMediaPath container ids storage).2 = true ↔ ∀ id ∈ ids, id ∈ container.keys := by
  induction ids generalizing storage with
  | nil => simp [deleteLoop]
  | cons id ids ih =>
    simp only [deleteLoop, List.forall_mem_cons, Finmap.mem_keys]
    cases h : container.lookup id with
    | none =>
      refine iff_of_false (by simp) fun hall => ?_
      exact Finmap.lookup_eq_none.mp h hall.1
    | some entry =>
      simp only [ih, Finmap.mem_keys]
      exact ⟨fun hall => ⟨Finmap.mem_of_lookup_eq_some h,hall⟩,And.right⟩

theorem mem_deleteLoop_files {ids : List NString}
    (h : (deleteLoop mMediaPath container ids storage).2 = true) :
    p ∈ (deleteLoop mMediaPath container ids storage).1.files ↔
      p ∈ storage.files ∧ ∀ id ∈ ids, ¬ FileOf mMediaPath container id p := by
  induction ids generalizing storage with
  | nil => simp [deleteLoop]
  | cons id ids ih =>
    simp only [deleteLoop] at h ⊢
    cases hl : container.lookup id with
    | none =>
      simp only [hl] at h
      cases h
    | some entry =>
      simp only [hl] at h
      simp only [ih h, Storage.mem_delete_files, List.forall_mem_cons, and_assoc]
      refine and_congr_right fun _ => and_congr_left fun _ => ?_
      constructor
      · rintro hne ⟨entry',he,rfl⟩
        cases hl.symm.trans he
        exact hne rfl
      · rintro hno rfl
        exact hno ⟨entry,hl,rfl⟩

theorem mem_deleteLoop_deleted {ids : List NString}
    (h : p ∈ (deleteLoop mMediaPath container ids storage).1.deleted) :
    p ∈ storage.deleted ∨ ∃ id ∈ ids, FileOf mMediaPath container id p := by
  induction ids generalizing storage with
  | nil => exact Or.inl h
  | cons id ids ih =>
    simp only [deleteLoop] at h
    cases hl : container.lookup id with
    | none =>
      simp only [hl] at h
      exact Or.inl h
    | some entry =>
      simp only [hl] at h
      rcases ih h with hd | ⟨id',hid,hf⟩
      · rcases Storage.mem_delete_deleted.mp hd with hd | ⟨rfl,_⟩
        · exact Or.inl hd
        · exact Or.inr ⟨id,List.mem_cons_self,entry,hl,rfl⟩
      · exact Or.inr ⟨id',List.mem_cons_of_mem _ hid,hf⟩

theorem deleteLoop_deleted_mono {ids : List NString} (h : p ∈ storage.deleted) :
    p ∈ (deleteLoop mMediaPath container ids storage).1.deleted := by
  induction ids generalizing storage with
  | nil => exact h
  | cons id ids ih =>
    simp only [deleteLoop]
    cases container.lookup id with
    | none => exact h
    | some entry => exact ih (Storage.mem_delete_deleted.mpr (Or.inl h))

theorem deleteLoop_deletes {ids : List NString}
    (h : (deleteLoop mMediaPath container ids storage).2 = true)
    (hp : p ∈ storage.files ∨ p ∈ storage.deleted) {id : NString} (hid : id ∈ ids)
    (hf : FileOf mMediaPath container id p) :
    p ∈ (deleteLoop mMediaPath container ids storage).1.deleted := by
  induction ids generalizing storage with
  | nil => cases hid
  | cons id' ids ih =>
    simp only [deleteLoop] at h ⊢
    cases hl : container.lookup id' with
    | none =>
      simp only [hl] at h
      cases h
    | some entry =>
      simp only [hl] at h ⊢
      rcases List.mem_cons.mp hid with rfl | hid
      · obtain ⟨entry',he,rfl⟩ := hf
        cases hl.symm.trans he
        apply deleteLoop_deleted_mono
        rw [Storage.mem_delete_deleted]
        rcases hp with hp | hp
        · exact Or.inr ⟨rfl,hp⟩
        · exact Or.inl hp
      · refine ih h ?_ hid
        rw [Storage.mem_delete_files, Storage.mem_delete_deleted]
        rcases hp with hp | hp
        · by_cases he : p = mediaFile mMediaPath entry.filename
          · exact Or.inr (Or.inr ⟨he,hp⟩)
          · exact Or.inl ⟨hp,he⟩
        · exact Or.inr (Or.inl hp)

end Loop

namespace Receiver
variable {order : IterOrder NString} {r : Receiver} {k : ℕ}

theorem mem_downloads {d : Download} :
    d ∈ r.downloads order k ↔ d.receiver = k ∧ d.id ∈ r.downloadSet d.media := by
  simp only [downloads, List.mem_flatMap, List.mem_map, order.mem]
  constructor
  · rintro ⟨m,_,id,hid,rfl⟩
    exact ⟨rfl,hid⟩
  · rintro ⟨rfl,hid⟩
    refine ⟨d.media,?_,d.id,hid,rfl⟩
    cases d.media <;> simp

/-- The files of new ids are those that are downloaded. -/
theorem exists_download_iff {mMediaPath p : String} {oldMedia newMedia : AdMediaInfo} :
    (∃ d ∈ (process oldMedia newMedia).downloads order k,
      mediaFile mMediaPath ((process oldMedia newMedia).resName d) = p) ↔
        NewFile mMediaPath oldMedia newMedia p := by
  constructor
  · rintro ⟨⟨j,m,id⟩,hd,hp⟩
    obtain ⟨hin,hnew⟩ := mem_getSetDifference.mp (mem_downloads.mp hd).2
    obtain ⟨entry,he⟩ := Finmap.mem_iff.mp (Finmap.mem_keys.mp hin)
    refine ⟨m,id,hnew,entry,he,?_⟩
    rwa [resName, show (process oldMedia newMedia).newMediaInfo = newMedia from rfl, he] at hp
  · rintro ⟨m,id,hnew,entry,he,hp⟩
    have hin : id ∈ (newMedia.container m).keys := Finmap.mem_keys.mpr (Finmap.mem_of_lookup_eq_some he)
    refine ⟨⟨k,m,id⟩,mem_downloads.mpr ⟨rfl,mem_getSetDifference.mpr ⟨hin,hnew⟩⟩,?_⟩
    rwa [resName, show (process oldMedia newMedia).newMediaInfo = newMedia from rfl, he]

theorem nodup_downloads : (r.downloads order k).Nodup := by
  have hpart : ∀ m, ((order.list (r.downloadSet m)).map (Download.mk k m)).Nodup := fun m =>
    (order.nodup _).map fun _ _ h => (Download.mk.inj h).2.2
  simp only [downloads, List.flatMap_cons, List.flatMap_nil, List.append_nil]
  refine List.nodup_append.mpr ⟨hpart .video,hpart .image,?_⟩
  intro d hd e he h
  obtain ⟨_,_,rfl⟩ := List.mem_map.mp hd
  obtain ⟨_,_,rfl⟩ := List.mem_map.mp he
  cases h

theorem count_downloads (j : ℕ) (m : Media) :
    ((r.downloads order k).map Download.target).count (j,m) =
      if j = k then (r.downloadSet m).card else 0 := by
  have hpart : ∀ n, (((order.list (r.downloadSet n)).map (Download.mk k n)).map Download.target).count
      (j,m) = if (j,m) = (k,n) then (r.downloadSet n).card else 0 := by
    intro n
    rw [List.map_map, show Download.target ∘ Download.mk k n = fun _ => (k,n) from rfl,
      List.map_const', List.count_replicate, order.length]
    exact if_congr (by rw [beq_iff_eq, eq_comm]) rfl rfl
  simp only [downloads, List.flatMap_cons, List.flatMap_nil, List.append_nil, List.map_append,
    List.count_append]
  apply (congrArg₂ (· + ·) (hpart .video) (hpart .image)).trans
  cases m <;> by_cases h : j = k <;> simp [h]

variable (order) in
theorem mem_targets {j : ℕ} {m : Media} :
    (j,m) ∈ (r.downloads order k).map Download.target ↔ j = k ∧ r.downloadSet m ≠ ∅ := by
  rw [← List.count_pos_iff, count_downloads]
  split_ifs with h
  · rw [Finset.card_pos, Finset.nonempty_iff_ne_empty]
    exact (and_iff_right h).symm
  · exact iff_of_false (Nat.lt_irrefl 0) fun hand => h hand.1

theorem downloads_one_video (id : NString) (hvideo : r.downloadSet .video = {id})
    (himage : r.downloadSet .image = ∅) : r.downloads order k = [⟨k,.video,id⟩] := by
  simp [downloads, hvideo, himage, IterOrder.singleton, (IterOrder.eq_nil order).mpr]

end Receiver

namespace Updates
variable {mMediaPath : String} {order : IterOrder NString}
  {parse : String → Except Thrown (Option AdMediaInfo)}

/-- The downloads in progress are those the counts are short of. -/
structure Counted (s : Updates) : Prop where
  counts : ∀ k r, s.receivers[k]? = some r → ∀ m,
    r.finishedNum m + (s.downloads.map Download.target).count (k,m) = r.totalTaskNum m
  known : ∀ d ∈ s.downloads, d.receiver < s.receivers.length

theorem ofDevice_counted (device : Device) : (ofDevice device).Counted :=
  ⟨fun _ _ h => (nomatch h),fun _ h => nomatch h⟩

theorem fetched_ok {s : Updates} {xmlText : String} {new : AdMediaInfo} (h : parse xmlText = .ok (some new)) :
    s.fetched order parse xmlText =
      { s with
        device := { s.device with saved := some xmlText },
        receivers := s.receivers ++ [process s.device.adMediaInfo new],
        downloads := s.downloads ++ (process s.device.adMediaInfo new).downloads order s.receivers.length } := by
  rw [fetched, h]

variable (order) in
theorem Counted.fetched {s : Updates} (hs : s.Counted) {xmlText : String} {new : AdMediaInfo}
    (h : parse xmlText = .ok (some new)) : (s.fetched order parse xmlText).Counted := by
  rw [fetched_ok h]
  constructor
  · intro k r hk m
    simp only [List.map_append, List.count_append, Receiver.count_downloads]
    rcases Nat.lt_trichotomy k s.receivers.length with hlt | rfl | hgt
    · rw [List.getElem?_append_left hlt] at hk
      rw [if_neg hlt.ne, Nat.add_zero]
      exact hs.counts k r hk m
    · rw [List.getElem?_concat_length] at hk
      cases hk
      have hnone : (s.downloads.map Download.target).count (s.receivers.length,m) = 0 := by
        rw [List.count_eq_zero]
        intro hm
        obtain ⟨d,hd,ht⟩ := List.mem_map.mp hm
        exact (hs.known d hd).ne (congrArg Prod.fst ht)
      rw [hnone, if_pos rfl, Nat.zero_add]
      exact Nat.zero_add _
    · rw [List.getElem?_eq_none (by rw [List.length_append]; exact hgt)] at hk
      cases hk
  · intro d hd
    rw [List.length_append]
    rcases List.mem_append.mp hd with hd | hd
    · exact Nat.lt_add_right _ (hs.known d hd)
    · rw [(Receiver.mem_downloads.mp hd).1]
      exact Nat.lt_succ_self _

section Finished
variable {s u : Updates} {d : Download} {r : Receiver}

theorem finished_eq (h : s.step mMediaPath order parse (.finished d) = some u) :
    s.crashed = false ∧ d ∈ s.downloads ∧ ∃ r, s.receivers[d.receiver]? = some r ∧
      u = s.finish mMediaPath order d r := by
  simp only [step] at h
  split_ifs at h with hc
  obtain ⟨r,hr,rfl⟩ := Option.map_eq_some_iff.mp h
  exact ⟨hc.1,hc.2,r,hr,rfl⟩

theorem count_erase_target (hd : d ∈ s.downloads) (l : ℕ × Media) :
    (s.downloads.map Download.target).count l =
      ((s.downloads.erase d).map Download.target).count l + if l = d.target then 1 else 0 := by
  have hp : (s.downloads.map Download.target).Perm
      (d.target :: (s.downloads.erase d).map Download.target) :=
    (List.perm_cons_erase hd).map _
  rw [hp.count_eq, List.count_cons]
  congr 1
  by_cases h : l = d.target
  · simp [h]
  · simp [h, Ne.symm h]

/-- A callback cuts over exactly when no other download of its target is in progress. -/
theorem cutsOver_iff (hs : s.Counted) (hd : d ∈ s.downloads) (hr : s.receivers[d.receiver]? = some r) :
    (r.onDownloadFinished d.media).2 = true ↔ d.target ∉ (s.downloads.erase d).map Download.target := by
  have hcount := hs.counts d.receiver r hr d.media
  have herase := count_erase_target hd d.target
  rw [if_pos rfl] at herase
  have htarget : d.target = (d.receiver,d.media) := rfl
  rw [← htarget] at hcount
  simp only [Receiver.onDownloadFinished, decide_eq_true_eq, ← List.count_eq_zero]
  omega

variable (mMediaPath order) in
theorem Counted.finish (hs : s.Counted) (hd : d ∈ s.downloads)
    (hr : s.receivers[d.receiver]? = some r) : (s.finish mMediaPath order d r).Counted := by
  constructor
  · intro k r' hk m
    have herase := count_erase_target hd (k,m)
    simp only [Updates.finish] at hk ⊢
    rcases eq_or_ne d.receiver k with rfl | hne
    · obtain ⟨hi,_⟩ := List.getElem?_eq_some_iff.mp hr
      rw [List.getElem?_set_self hi] at hk
      cases hk
      have hcount := hs.counts d.receiver r hr m
      simp only [Receiver.onDownloadFinished]
      rcases eq_or_ne m d.media with rfl | hm
      · rw [Function.update_self]
        rw [if_pos (show (d.receiver,d.media) = d.target from rfl)] at herase
        omega
      · rw [Function.update_of_ne hm]
        rw [if_neg (fun h => hm (congrArg Prod.snd h))] at herase
        omega
    · rw [List.getElem?_set_ne hne] at hk
      have hcount := hs.counts k r' hk m
      rw [if_neg (fun h => hne (congrArg Prod.fst h).symm)] at herase
      omega
  · intro e he
    simp only [Updates.finish, List.length_set]
    exact hs.known e (List.mem_of_mem_erase he)

/-- The cut-overs of a run of callbacks are the targets it completes. -/
theorem exec_finished {rest ds : List Download} {t : Updates} (hs : s.Counted)
    (hp : s.downloads.Perm (ds ++ rest))
    (he : exec (step mMediaPath order parse) s (ds.map .finished) = some t) :
    trace (step mMediaPath order parse) cutOvers s (ds.map .finished) = closings Download.target rest ds ∧
      t.downloads.Perm rest ∧ t.Counted := by
  induction ds generalizing s with
  | nil =>
    cases he
    exact ⟨rfl,hp,hs⟩
  | cons d ds ih =>
    obtain ⟨u,hu,he⟩ := (exec_cons_eq_some _).mp he
    obtain ⟨hcr,hd,r,hr,rfl⟩ := finished_eq hu
    have herase : (s.downloads.erase d).Perm (ds ++ rest) := by
      have h := hp.erase d
      rwa [List.cons_append, List.erase_cons_head] at h
    obtain ⟨htrace,hrest,hcounted⟩ := ih (hs.finish mMediaPath order hd hr) herase he
    refine ⟨?_,hrest,hcounted⟩
    have hfires := cutsOver_iff hs hd hr
    have hmem : d.target ∈ (s.downloads.erase d).map Download.target ↔
        d.target ∈ (ds ++ rest).map Download.target := (herase.map _).mem_iff
    simp only [List.map_cons, trace, hu, Option.elim_some, htrace, cutOvers, hr, closings]
    by_cases hc : (r.onDownloadFinished d.media).2 = true
    · rw [if_pos hc, if_neg (fun h => hfires.mp hc (hmem.mpr h))]
      rfl
    · rw [if_neg hc, if_pos (by_contra fun h => hc (hfires.mpr fun hm => h (hmem.mp hm)))]
      rfl

end Finished

end Updates
end AdSystem.Policy
