import AdSystem.Policy.OneUpdate

/-! # Cut-overs and complete files

The download service ignores a request for a link it already has, so a file that
several ids share is called back once. The counts of a receiver are of ids, and
they are only looked at in callbacks.
-/
namespace AdSystem.Policy
open Iteration Transition Batches
variable {mMediaPath : String} {order : IterOrder NString}
  {parse : String → Except Thrown (Option AdMediaInfo)} {start : Device} {xmlText : String}
  {new : AdMediaInfo} {es : List Download}

namespace Receiver

/-- The downloads of a receiver that the service takes. -/
def requested (order : IterOrder NString) (r : Receiver) : List Download :=
  firstRequests r.resUrl (r.downloads order 0)

/-- Every file of the download set of a kind is among those of the finished downloads. -/
def FilesComplete (order : IterOrder NString) (r : Receiver) (m : Media) (done : List Download) : Prop :=
  ∀ d ∈ r.downloads order 0, d.media = m → r.resUrl d ∈ done.map r.resUrl

instance (order : IterOrder NString) (r : Receiver) (m : Media) (done : List Download) :
    Decidable (r.FilesComplete order m done) :=
  inferInstanceAs (Decidable (∀ d ∈ r.downloads order 0, d.media = m → r.resUrl d ∈ done.map r.resUrl))

theorem resUrl_eq {r : Receiver} {d e : Download} :
    r.resUrl d = r.resUrl e ↔ text (r.resName d) = text (r.resName e) :=
  mediaFile_eq fileServer

end Receiver

/-- At every moment of the callbacks, a kind has been cut over once if its files are
complete, and not at all if they are not. -/
def CutsOverExactly (mMediaPath : String) (order : IterOrder NString)
    (parse : String → Except Thrown (Option AdMediaInfo)) (start : Device) (xmlText : String)
    (new : AdMediaInfo) (es : List Download) : Prop :=
  ∀ done rest, es = done ++ rest → ∀ m,
    (trace (Updates.step mMediaPath order parse) Updates.cutOvers
      ((Updates.ofDevice start).fetched order parse xmlText) (done.map .finished)).count (0,m) =
      if (process start.adMediaInfo new).FilesComplete order m done then 1 else 0

/-- The cut-overs while some of the downloads call back and others are left. -/
theorem count_cutOvers (h : parse xmlText = .ok (some new)) {done rest : List Download}
    (hp : ((process start.adMediaInfo new).downloads order 0).Perm (done ++ rest)) (m : Media) :
    (trace (Updates.step mMediaPath order parse) Updates.cutOvers
      ((Updates.ofDevice start).fetched order parse xmlText) (done.map .finished)).count (0,m) =
      if (0,m) ∈ done.map Download.target ∧ (0,m) ∉ rest.map Download.target then 1 else 0 := by
  have hupd : Updating mMediaPath order start xmlText new
      ((Updates.ofDevice start).fetched order parse xmlText) := .fetched mMediaPath h
  have hdown : ((Updates.ofDevice start).fetched order parse xmlText).downloads.Perm (done ++ rest) := by
    rw [Updates.fetched_ok h]
    exact hp
  obtain ⟨t,ht,_⟩ := hupd.exec_finished parse hdown
  rw [(Updates.exec_finished hupd.counted hdown ht).1, count_closings]

theorem CutsOverExactly.downloads_both
    (hc : CutsOverExactly mMediaPath order parse start xmlText new es) (m : Media) :
    (process start.adMediaInfo new).downloadSet m ≠ ∅ := by
  intro hempty
  have hnow := hc [] es rfl m
  have hall : (process start.adMediaInfo new).FilesComplete order m [] := by
    intro d hd hm
    have hid := (Receiver.mem_downloads.mp hd).2
    rw [hm, hempty] at hid
    cases hid
  rw [if_pos hall] at hnow
  exact absurd hnow (by simp [trace])

section Requested
variable (hes : es.Perm ((process start.adMediaInfo new).requested order))
include hes

theorem requested_rest : ∃ ignored,
    ((process start.adMediaInfo new).downloads order 0).Perm (es ++ ignored) := by
  have hsub : ((process start.adMediaInfo new).requested order).Sublist
      ((process start.adMediaInfo new).downloads order 0) := firstRequests_sublist
  obtain ⟨ignored,h⟩ := hsub.exists_perm_append
  exact ⟨ignored,h.trans (hes.symm.append_right ignored)⟩

theorem filesComplete_requested (m : Media) :
    (process start.adMediaInfo new).FilesComplete order m es := by
  intro d hd _
  rw [(hes.map _).mem_iff, Receiver.requested, mem_map_firstRequests]
  exact List.mem_map_of_mem hd

theorem CutsOverExactly.all_requested (h : parse xmlText = .ok (some new))
    (hc : CutsOverExactly mMediaPath order parse start xmlText new es) {d : Download}
    (hd : d ∈ (process start.adMediaInfo new).downloads order 0) :
    d ∈ (process start.adMediaInfo new).requested order := by
  obtain ⟨ignored,hp⟩ := requested_rest hes
  have hend := hc es [] (List.append_nil es).symm d.media
  rw [if_pos (filesComplete_requested hes d.media), count_cutOvers h hp] at hend
  have hnot : (0,d.media) ∉ ignored.map Download.target := by
    by_contra hm
    rw [if_neg fun hand => hand.2 hm] at hend
    cases hend
  have htarget : d.target = (0,d.media) := Prod.ext (Receiver.mem_downloads.mp hd).1 rfl
  rcases List.mem_append.mp (hp.mem_iff.mp hd) with he | he
  · exact hes.mem_iff.mp he
  · exact absurd (htarget ▸ List.mem_map_of_mem he) hnot

theorem cutsOverExactly_of_distinct (h : parse xmlText = .ok (some new))
    (hboth : ∀ m, (process start.adMediaInfo new).downloadSet m ≠ ∅)
    (hinj : ∀ d ∈ (process start.adMediaInfo new).downloads order 0,
      ∀ e ∈ (process start.adMediaInfo new).downloads order 0,
        (process start.adMediaInfo new).resUrl d = (process start.adMediaInfo new).resUrl e → d = e) :
    CutsOverExactly mMediaPath order parse start xmlText new es := by
  have hnodup : (((process start.adMediaInfo new).downloads order 0).map
      (process start.adMediaInfo new).resUrl).Nodup :=
    Receiver.nodup_downloads.map_on fun d hd e he => hinj d hd e he
  have hp : ((process start.adMediaInfo new).downloads order 0).Perm es := by
    rw [Receiver.requested, firstRequests_eq_self hnodup] at hes
    exact hes.symm
  rintro done rest rfl m
  rw [count_cutOvers h hp]
  refine if_congr ?_ rfl rfl
  have htarget : ∀ d ∈ (process start.adMediaInfo new).downloads order 0, d.target = (0,d.media) :=
    fun d hd => Prod.ext (Receiver.mem_downloads.mp hd).1 rfl
  have hdisjoint := List.disjoint_of_nodup_append (hp.nodup_iff.mp Receiver.nodup_downloads)
  constructor
  · rintro ⟨_,hrest⟩ d hd rfl
    rcases List.mem_append.mp (hp.mem_iff.mp hd) with he | he
    · exact List.mem_map_of_mem he
    · exact absurd (htarget d hd ▸ List.mem_map_of_mem he) hrest
  · intro hall
    have hin : ∀ d ∈ (process start.adMediaInfo new).downloads order 0, d.media = m → d ∈ done := by
      intro d hd hm
      obtain ⟨e,he,hurl⟩ := List.mem_map.mp (hall d hd hm)
      rwa [← hinj e (hp.mem_iff.mpr (List.mem_append_left _ he)) d hd hurl]
    constructor
    · obtain ⟨id,hid⟩ := Finset.nonempty_iff_ne_empty.mpr (hboth m)
      exact List.mem_map_of_mem (f := Download.target)
        (hin ⟨0,m,id⟩ (Receiver.mem_downloads.mpr ⟨rfl,hid⟩) rfl)
    · intro hm
      obtain ⟨d,hd,ht⟩ := List.mem_map.mp hm
      have hmem := hp.mem_iff.mpr (List.mem_append_right done hd)
      exact hdisjoint (hin d hmem (congrArg Prod.snd ht)) hd

end Requested

/-- Both kinds are cut over exactly when their files are complete iff there is something
to download for both and no two downloads are of one file. -/
theorem cutsOverExactly_iff (h : parse xmlText = .ok (some new))
    (hes : es.Perm ((process start.adMediaInfo new).requested order)) :
    CutsOverExactly mMediaPath order parse start xmlText new es ↔
      (∀ m, (process start.adMediaInfo new).downloadSet m ≠ ∅) ∧
      ∀ d ∈ (process start.adMediaInfo new).downloads order 0,
        ∀ e ∈ (process start.adMediaInfo new).downloads order 0,
          text ((process start.adMediaInfo new).resName d) =
            text ((process start.adMediaInfo new).resName e) → d = e := by
  simp only [← Receiver.resUrl_eq]
  constructor
  · intro hc
    refine ⟨hc.downloads_both,fun d hd e he hurl => ?_⟩
    exact List.inj_on_of_nodup_map nodup_map_firstRequests (hc.all_requested hes h hd)
      (hc.all_requested hes h he) hurl
  · rintro ⟨hboth,hinj⟩
    exact cutsOverExactly_of_distinct hes h hboth hinj

theorem cutsOverExactly_video_image :
    CutsOverExactly "" .some (fun _ => .ok (some (.ofEntries [.ofFile "1" "a.mp4"] [.ofFile "2" "b.png"])))
      (.unplayed .empty ∅) "" (.ofEntries [.ofFile "1" "a.mp4"] [.ofFile "2" "b.png"])
      ((process .empty (.ofEntries [.ofFile "1" "a.mp4"] [.ofFile "2" "b.png"])).requested .some) := by
  have hids : ∀ m, (process .empty (.ofEntries [.ofFile "1" "a.mp4"] [.ofFile "2" "b.png"])).downloadSet m =
      {if m = .video then some "1" else some "2"} := by
    intro m
    cases m <;> decide
  refine (cutsOverExactly_iff rfl (List.Perm.refl _)).mpr ⟨fun m => ?_,?_⟩
  · rw [show ((Device.unplayed .empty ∅).adMediaInfo) = AdMediaInfo.empty from rfl, hids]
    exact Finset.singleton_ne_empty _
  · intro d hd e he htext
    obtain ⟨hd0,hdid⟩ := Receiver.mem_downloads.mp hd
    obtain ⟨he0,heid⟩ := Receiver.mem_downloads.mp he
    rw [show ((Device.unplayed .empty ∅).adMediaInfo) = AdMediaInfo.empty from rfl, hids, Finset.mem_singleton] at hdid heid
    obtain ⟨_,m,_⟩ := d
    obtain ⟨_,n,_⟩ := e
    cases hd0
    cases he0
    cases m <;> cases n <;> cases hdid <;> cases heid <;>
      first | rfl | exact absurd htext (by decide)

/-- With no image to download, the images are never cut over. -/
theorem not_cutsOverExactly_one_video :
    ¬ ∀ (mMediaPath : String) (order : IterOrder NString)
      (parse : String → Except Thrown (Option AdMediaInfo)) (start : Device) (xmlText : String)
      (new : AdMediaInfo) (es : List Download), parse xmlText = .ok (some new) →
      es.Perm ((process start.adMediaInfo new).requested order) →
      CutsOverExactly mMediaPath order parse start xmlText new es := by
  intro hall
  have hc := hall "" .some (fun _ => .ok (some (.ofEntries [.ofFile "1" "a.mp4"] []))) (.unplayed .empty ∅) ""
    (.ofEntries [.ofFile "1" "a.mp4"] []) _ rfl (List.Perm.refl _)
  exact hc.downloads_both .image (by decide)

end AdSystem.Policy
