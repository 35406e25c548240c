import AdSystem.Policy.OneUpdate

/-! # The files of an adopted policy

Downloads and deletions go by ids, but the files of both kinds lie in one
directory under their names. A file is missing after an update when nobody
brought it, or when a cut-over deleted it as the file of a dropped id.
-/
namespace AdSystem.Policy
open Iteration Transition Batches
variable {mMediaPath : String} {order : IterOrder NString}
  {parse : String → Except Thrown (Option AdMediaInfo)} {start : Device} {xmlText : String}
  {new : AdMediaInfo} {s t : Updates} {d : Download} {p : String}

theorem Receiver.Replaces.resName {r : Receiver} {old new : AdMediaInfo} (h : r.Replaces old new)
    (d : Download) : r.resName d = (process old new).resName d := by
  rw [Receiver.resName, h.newMediaInfo]
  rfl

namespace Updating

theorem mem_files_finished (hs : Updating mMediaPath order start xmlText new s) (hd : d ∈ s.downloads)
    (ht : s.step mMediaPath order parse (.finished d) = some t) :
    p ∈ t.device.storage.files ↔
      (p = mediaFile mMediaPath ((process start.adMediaInfo new).resName d) ∨ p ∈ s.device.storage.files) ∧
        (d.target ∉ (s.downloads.erase d).map Download.target →
          ∀ id ∈ (process start.adMediaInfo new).deleteSet d.media,
            ¬ FileOf mMediaPath (start.adMediaInfo.container d.media) id p) := by
  obtain ⟨u,hu,hupd,_⟩ := hs.finished parse hd
  cases ht.symm.trans hu
  obtain ⟨_,_,q,hq,rfl⟩ := Updates.finished_eq ht
  obtain ⟨r,hrs,hr⟩ := hs.receiver
  have hzero : d.receiver = 0 := congrArg Prod.fst (hs.target_eq hd)
  rw [hzero, hrs] at hq
  obtain rfl : q = r := (Option.some.inj hq).symm
  have hget : s.receivers[d.receiver]? = some q := by
    rw [hzero, hrs]
    rfl
  have hfires := Updates.cutsOver_iff hs.counted hd hget
  have hold := (hs.held d.media (hs.not_adopted hd)).1
  rw [Updates.mem_files_finish hupd.running, hr.resName, hr.deleteSet, hold, hfires]

theorem mem_files_of_exec (hs : Updating mMediaPath order start xmlText new s) {ds rest : List Download}
    (hp : s.downloads.Perm (ds ++ rest))
    (he : exec (Updates.step mMediaPath order parse) s (ds.map .finished) = some t)
    (h : p ∈ t.device.storage.files) :
    p ∈ s.device.storage.files ∨
      ∃ d ∈ ds, p = mediaFile mMediaPath ((process start.adMediaInfo new).resName d) := by
  induction ds generalizing s with
  | nil =>
    cases he
    exact Or.inl h
  | cons d ds ih =>
    obtain ⟨hd,u,hu,hupd,hperm,he⟩ := hs.of_exec_cons hp he
    rcases ih hupd hperm he with hfile | ⟨e,hmem,hfile⟩
    · rcases ((hs.mem_files_finished hd hu).mp hfile).1 with hland | hfile
      · exact Or.inr ⟨d,List.mem_cons_self,hland⟩
      · exact Or.inl hfile
    · exact Or.inr ⟨e,List.mem_cons_of_mem _ hmem,hfile⟩

/-- A file that no dropped id has stays, and those downloaded come to it. -/
theorem mem_files_of_spared (hs : Updating mMediaPath order start xmlText new s) {ds rest : List Download}
    (hp : s.downloads.Perm (ds ++ rest))
    (he : exec (Updates.step mMediaPath order parse) s (ds.map .finished) = some t)
    (hspared : ∀ m, (process start.adMediaInfo new).downloadSet m ≠ ∅ →
      ∀ id ∈ (process start.adMediaInfo new).deleteSet m,
        ¬ FileOf mMediaPath (start.adMediaInfo.container m) id p)
    (h : p ∈ s.device.storage.files ∨
      ∃ d ∈ ds, p = mediaFile mMediaPath ((process start.adMediaInfo new).resName d)) :
    p ∈ t.device.storage.files := by
  induction ds generalizing s with
  | nil =>
    cases he
    exact h.resolve_right fun ⟨_,hd,_⟩ => nomatch hd
  | cons d ds ih =>
    obtain ⟨hd,u,hu,hupd,hperm,he⟩ := hs.of_exec_cons hp he
    have hkeeps := (hs.mem_files_finished (p := p) hd hu).mpr
    have hnot := hspared d.media (Finset.ne_empty_of_mem (hs.wanted d hd))
    apply ih hupd hperm he
    rcases h with hfile | ⟨e,hmem,hfile⟩
    · exact Or.inl (hkeeps ⟨Or.inr hfile,fun _ => hnot⟩)
    · rcases List.mem_cons.mp hmem with rfl | hmem
      · exact Or.inl (hkeeps ⟨Or.inl hfile,fun _ => hnot⟩)
      · exact Or.inr ⟨e,hmem,hfile⟩

end Updating

/-- Every file the policy refers to is there. -/
def Device.AllFilesExist (mMediaPath : String) (d : Device) (m : Media) : Prop :=
  ∀ filename, d.adMediaInfo.Refers m filename → mediaFile mMediaPath filename ∈ d.storage.files

/-- However the downloads of the update call back, the containers it has cut over to
refer to files that are there. -/
def NoFileMissing (mMediaPath : String) (order : IterOrder NString)
    (parse : String → Except Thrown (Option AdMediaInfo)) (start : Device) (xmlText : String)
    (new : AdMediaInfo) : Prop :=
  ∀ (es : List Download) (t : Updates), es.Perm ((process start.adMediaInfo new).downloads order 0) →
    exec (Updates.step mMediaPath order parse) ((Updates.ofDevice start).fetched order parse xmlText)
      (es.map .finished) = some t →
    ∀ m, (0,m) ∈ trace (Updates.step mMediaPath order parse) Updates.cutOvers
      ((Updates.ofDevice start).fetched order parse xmlText) (es.map .finished) →
    t.device.AllFilesExist mMediaPath m

/-- The files of retained ids are there or on their way. -/
def RetainedFilesCome (mMediaPath : String) (start : Device) (new : AdMediaInfo) : Prop :=
  ∀ m, (process start.adMediaInfo new).downloadSet m ≠ ∅ →
    ∀ id ∈ (start.adMediaInfo.container m).keys, ∀ p, FileOf mMediaPath (new.container m) id p →
      p ∈ start.storage.files ∨ NewFile mMediaPath start.adMediaInfo new p

/-- No file of a dropped id is a file of the new policy. -/
def DroppedFilesUnused (mMediaPath : String) (start : Device) (new : AdMediaInfo) : Prop :=
  ∀ m, (process start.adMediaInfo new).downloadSet m ≠ ∅ →
    ∀ id ∈ (process start.adMediaInfo new).deleteSet m, ∀ p,
      FileOf mMediaPath (start.adMediaInfo.container m) id p →
      ∀ n, (process start.adMediaInfo new).downloadSet n ≠ ∅ →
        ∀ id', ¬ FileOf mMediaPath (new.container n) id' p

theorem Device.allFilesExist_iff {d : Device} {m : Media} :
    d.AllFilesExist mMediaPath m ↔
      ∀ id p, FileOf mMediaPath (d.adMediaInfo.container m) id p → p ∈ d.storage.files := by
  constructor
  · rintro h id p ⟨entry,he,rfl⟩
    exact h entry.filename ⟨id,entry,he,rfl⟩
  · rintro h _ ⟨id,entry,he,rfl⟩
    exact h id _ ⟨entry,he,rfl⟩

section Update
variable (h : parse xmlText = .ok (some new))
include h

theorem NoFileMissing.retained (hno : NoFileMissing mMediaPath order parse start xmlText new) :
    RetainedFilesCome mMediaPath start new := by
  intro m hm id _ p hf
  have hes := List.Perm.refl ((process start.adMediaInfo new).downloads order 0)
  obtain ⟨t,ht,hupd,hnil⟩ := update_completes mMediaPath h hes
  have hall := hno _ t hes ht m ((mem_cutOvers_complete h hes m).mpr hm)
  rw [Device.allFilesExist_iff, (hupd.adopted m (hnil ▸ Receiver.adopted_of_nil.mpr hm)).1] at hall
  have hp : ((Updates.ofDevice start).fetched order parse xmlText).downloads.Perm
      ((process start.adMediaInfo new).downloads order 0 ++ []) := by
    rw [fetched_downloads h, List.append_nil]
  have hfile := (Updating.fetched mMediaPath h).mem_files_of_exec hp ht (hall id p hf)
  rw [Updates.fetched_ok h] at hfile
  exact hfile.imp_right fun ⟨d,hd,hp⟩ => Receiver.exists_download_iff.mp ⟨d,hd,hp.symm⟩

/-- The dropped file is gone when a download of its kind is the last of all. -/
theorem NoFileMissing.dropped (hno : NoFileMissing mMediaPath order parse start xmlText new) :
    DroppedFilesUnused mMediaPath start new := by
  intro m hm id hid p hf n hn id' hf'
  obtain ⟨x,hx⟩ := Finset.nonempty_iff_ne_empty.mpr hm
  have hd : ⟨0,m,x⟩ ∈ (process start.adMediaInfo new).downloads order 0 :=
    Receiver.mem_downloads.mpr ⟨rfl,hx⟩
  have hlast : ((process start.adMediaInfo new).downloads order 0).Perm
      (((process start.adMediaInfo new).downloads order 0).erase ⟨0,m,x⟩ ++ [⟨0,m,x⟩]) :=
    (List.perm_cons_erase hd).trans (List.perm_append_singleton _ _).symm
  obtain ⟨t,ht,hupd,hnil⟩ := update_completes mMediaPath h hlast.symm
  have hall := hno _ t hlast.symm ht n ((mem_cutOvers_complete h hlast.symm n).mpr hn)
  rw [Device.allFilesExist_iff, (hupd.adopted n (hnil ▸ Receiver.adopted_of_nil.mpr hn)).1] at hall
  have hp : ((Updates.ofDevice start).fetched order parse xmlText).downloads.Perm
      (((process start.adMediaInfo new).downloads order 0).erase ⟨0,m,x⟩ ++ [⟨0,m,x⟩]) := by
    rw [fetched_downloads h]
    exact hlast
  obtain ⟨u,hu,huupd,hrest⟩ := (Updating.fetched mMediaPath h).exec_finished parse hp
  rw [List.map_append, exec_append, hu] at ht
  obtain ⟨v,hv,hend⟩ := (exec_cons_eq_some _).mp ht
  cases hend
  rw [List.perm_singleton] at hrest
  have hmem : ⟨0,m,x⟩ ∈ u.downloads := hrest ▸ List.mem_singleton_self _
  refine ((huupd.mem_files_finished hmem hv).mp (hall id' p hf')).2 ?_ id hid hf
  simp [hrest]

theorem noFileMissing_of_spared
    (hkept : RetainedFilesCome mMediaPath start new) (hdropped : DroppedFilesUnused mMediaPath start new) :
    NoFileMissing mMediaPath order parse start xmlText new := by
  intro es t hes ht n hn
  have hp : ((Updates.ofDevice start).fetched order parse xmlText).downloads.Perm (es ++ []) := by
    rw [fetched_downloads h, List.append_nil]
    exact hes.symm
  rw [mem_cutOvers_complete h hes] at hn
  obtain ⟨v,hv,hupd,hnil⟩ := update_completes mMediaPath h hes
  cases ht.symm.trans hv
  rw [Device.allFilesExist_iff, (hupd.adopted n (hnil ▸ Receiver.adopted_of_nil.mpr hn)).1]
  intro id p hf
  refine (Updating.fetched mMediaPath h).mem_files_of_spared hp ht
    (fun m hm i hi hold => hdropped m hm i hi p hold n hn id hf) ?_
  have hstart : ((Updates.ofDevice start).fetched order parse xmlText).device.storage = start.storage := by
    rw [Updates.fetched_ok h]
    rfl
  rw [hstart]
  have hcomes : p ∈ start.storage.files ∨ NewFile mMediaPath start.adMediaInfo new p := by
    by_cases hid : id ∈ (start.adMediaInfo.container n).keys
    · exact hkept n hn id hid p hf
    · exact Or.inr ⟨n,id,hid,hf⟩
  refine hcomes.imp_right fun hnew => ?_
  obtain ⟨d,hd,hfile⟩ := Receiver.exists_download_iff.mpr hnew
  exact ⟨d,hes.mem_iff.mpr hd,hfile.symm⟩

/-- No file of the new policy is missing iff the retained ids get theirs and no dropped id
has one. -/
theorem noFileMissing_iff :
    NoFileMissing mMediaPath order parse start xmlText new ↔
      RetainedFilesCome mMediaPath start new ∧ DroppedFilesUnused mMediaPath start new := by
  constructor
  · intro hno
    exact ⟨hno.retained h,hno.dropped h⟩
  · rintro ⟨hkept,hdropped⟩
    exact noFileMissing_of_spared h hkept hdropped

end Update

theorem fileOf_one_video {a file p : String} {id : NString} {m : Media}
    (h : FileOf "" ((AdMediaInfo.ofEntries [.ofFile a file] []).container m) id p) :
    m = .video ∧ id = some a ∧ p = "" ++ file := by
  obtain ⟨entry,he,rfl,rfl⟩ := fileOf_ofEntries h
  cases m with
  | image => cases he
  | video =>
    cases List.mem_singleton.mp he
    exact ⟨rfl,rfl,rfl⟩

theorem noFileMissing_replaced_video :
    NoFileMissing "" .some (fun _ => .ok (some (.ofEntries [.ofFile "2" "b.mp4"] [])))
      (.unplayed (.ofEntries [.ofFile "1" "a.mp4"] []) {"a.mp4"}) "" (.ofEntries [.ofFile "2" "b.mp4"] []) := by
  refine (noFileMissing_iff rfl).mpr ⟨?_,?_⟩
  · intro m _ id hid p hf
    obtain ⟨rfl,rfl,_⟩ := fileOf_one_video hf
    exact absurd hid (by decide)
  · intro m _ id _ p hf n _ id' hf'
    have hp := (fileOf_one_video hf).2.2
    rw [(fileOf_one_video hf').2.2] at hp
    exact absurd hp (by decide)

/-- A video that keeps its id and changes its file is not downloaded. -/
theorem not_noFileMissing_renamed_video :
    ¬ ∀ (mMediaPath : String) (order : IterOrder NString)
      (parse : String → Except Thrown (Option AdMediaInfo)) (start : Device) (xmlText : String)
      (new : AdMediaInfo), (∀ m, start.AllFilesExist mMediaPath m) → parse xmlText = .ok (some new) →
      NoFileMissing mMediaPath order parse start xmlText new := by
  intro hall
  have hno := hall "" .some
    (fun _ => .ok (some (.ofEntries [.ofFile "1" "b.mp4",.ofFile "2" "c.mp4"] [])))
    (.unplayed (.ofEntries [.ofFile "1" "a.mp4"] []) {"a.mp4"}) ""
    (.ofEntries [.ofFile "1" "b.mp4",.ofFile "2" "c.mp4"] []) ?_ rfl
  · have hb : FileOf "" ((AdMediaInfo.ofEntries [.ofFile "1" "b.mp4",.ofFile "2" "c.mp4"] []).container
        .video) (some "1") "b.mp4" := ⟨.ofFile "1" "b.mp4",by decide,by decide⟩
    rcases hno.retained rfl .video (by decide) (some "1") (by decide) "b.mp4" hb with hfile | ⟨m,id,hnew,hf⟩
    · exact absurd hfile (by decide)
    · -- the one new id is that of video 2
      obtain ⟨entry,he,rfl,hfile⟩ := fileOf_ofEntries hf
      cases m with
      | image => cases he
      | video =>
        rcases List.mem_pair.mp he with rfl | rfl
        · exact absurd hnew (by decide)
        · exact absurd hfile (by decide)
  · intro m
    rw [Device.allFilesExist_iff]
    intro id p hf
    obtain ⟨_,_,rfl⟩ := fileOf_one_video hf
    decide

end AdSystem.Policy
