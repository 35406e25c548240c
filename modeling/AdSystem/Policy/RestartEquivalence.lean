import AdSystem.Policy.OneUpdate

/-! # The running process and a restarted one

A restart builds the active policy and the lists of the players from the saved
text. The running process patches them: a container and a list at a cut-over, the
saved text at once, the intervals never.
-/
namespace AdSystem.Policy
open Iteration Transition
variable (mMediaPath : String) (order : IterOrder NString)
  (parse : String → Except Thrown (Option AdMediaInfo))

/-- A started process with both players, when no constructor throws. -/
def restart (saved : Option String) (storage : Storage) (now : String) : Option Device :=
  match loadPolicy parse saved with
  | .ok (some adMediaInfo) =>
    match startList mMediaPath order adMediaInfo now .video,
      startList mMediaPath order adMediaInfo now .image with
    | .ok videos, .ok images =>
      some { adMediaInfo, playlist := fun | .video => some videos | .image => some images, saved, storage }
    | _, _ => none
  | _ => none

/-- An update: its text, the order in which its downloads call back, and the time after it. -/
structure PolicyUpdate where
  xmlText : String
  done : List Download
  now : String

/-- An update handled from its text to the callback of its last download. -/
def Device.update (d : Device) (u : PolicyUpdate) : Option Device :=
  (exec (Updates.step mMediaPath order parse) (Updates.ofDevice d)
    (.fetched u.xmlText :: u.done.map .finished)).bind fun s =>
      if s.crashed = false ∧ s.downloads = [] then some s.device else none

/-- A restart now would give the same containers and, as sets, the same lists. -/
def RestartEquivalent (now : String) (d : Device) : Prop :=
  ∃ fresh, restart mMediaPath order parse d.saved d.storage now = some fresh ∧
    (∀ m, d.adMediaInfo.container m = fresh.adMediaInfo.container m) ∧
    (∀ m, d.adMediaInfo.intervalContainer m = fresh.adMediaInfo.intervalContainer m) ∧
    ∀ m, ∃ held list, d.playlist m = some held ∧ fresh.playlist m = some list ∧ ∀ p, p ∈ held ↔ p ∈ list

def videosAfter (d : Device) (new : AdMediaInfo) : Option (List String) :=
  if (process d.adMediaInfo new).downloadSet .video ≠ ∅ then
    (d.playlist .video).map fun _ => getList mMediaPath order new .video
  else d.playlist .video

/-- A kind with nothing to download is the same already, the intervals are the same, and
the intervals of the moment select the videos that the player then has. -/
def NothingLost (d : Device) (u : PolicyUpdate) : Prop :=
  ∃ new, parse u.xmlText = .ok (some new) ∧
    (∀ m, (process d.adMediaInfo new).downloadSet m = ∅ →
      d.adMediaInfo.container m = new.container m) ∧
    (∀ m, d.adMediaInfo.intervalContainer m = new.intervalContainer m) ∧
    ∃ list held, getListWithIntervalCheck mMediaPath order new .video u.now = .ok list ∧
      videosAfter mMediaPath order d new = some held ∧ ∀ p, p ∈ held ↔ p ∈ list

variable {mMediaPath} {order} {parse} {d d' : Device} {u : PolicyUpdate} {saved : Option String}
  {storage : Storage} {now : String} {fresh : Device}

theorem restart_eq_some :
    restart mMediaPath order parse saved storage now = some fresh ↔
      ∃ info list, loadPolicy parse saved = .ok (some info) ∧
        getListWithIntervalCheck mMediaPath order info .video now = .ok list ∧
        fresh = { adMediaInfo := info, saved, storage, playlist := fun
          | .video => some list
          | .image => some (getList mMediaPath order info .image) } := by
  unfold restart
  cases hl : loadPolicy parse saved with
  | error e => simp
  | ok policy =>
    cases policy with
    | none => simp
    | some info =>
      simp only [startList]
      cases hv : getListWithIntervalCheck mMediaPath order info .video now with
      | error e => simp [hv]
      | ok list => simp [hv, eq_comm]

/-- The image player always has the images of the active policy. -/
def PlaysImages (mMediaPath : String) (order : IterOrder NString) (d : Device) : Prop :=
  ∃ images, d.playlist .image = some images ∧ ∀ p, p ∈ images ↔ p ∈ getList mMediaPath order d.adMediaInfo .image

theorem restart_playsImages (h : restart mMediaPath order parse saved storage now = some fresh) :
    PlaysImages mMediaPath order fresh := by
  obtain ⟨info,list,_,_,rfl⟩ := restart_eq_some.mp h
  exact ⟨_,rfl,fun _ => Iff.rfl⟩

theorem perm_of_exec_finished {s t : Updates} {ds : List Download}
    (he : exec (Updates.step mMediaPath order parse) s (ds.map .finished) = some t) :
    s.downloads.Perm (ds ++ t.downloads) := by
  induction ds generalizing s with
  | nil =>
    cases he
    exact List.Perm.refl _
  | cons d ds ih =>
    obtain ⟨v,hv,he⟩ := (exec_cons_eq_some _).mp he
    obtain ⟨_,hd,r,_,rfl⟩ := Updates.finished_eq hv
    exact (List.perm_cons_erase hd).trans ((ih he).cons d)

/-- What an update leaves. -/
structure Updated (mMediaPath : String) (order : IterOrder NString) (d : Device) (xmlText : String)
    (new : AdMediaInfo) (d' : Device) : Prop where
  saved : d'.saved = some xmlText
  intervals : ∀ m, d'.adMediaInfo.intervalContainer m = d.adMediaInfo.intervalContainer m
  held : ∀ m, (process d.adMediaInfo new).downloadSet m = ∅ →
    d'.adMediaInfo.container m = d.adMediaInfo.container m ∧ d'.playlist m = d.playlist m
  adopted : ∀ m, (process d.adMediaInfo new).downloadSet m ≠ ∅ →
    d'.adMediaInfo.container m = new.container m ∧
      d'.playlist m = (d.playlist m).map fun _ => getList mMediaPath order new m

theorem Updating.complete {start : Device} {xmlText : String} {new : AdMediaInfo} {s : Updates}
    (hs : Updating mMediaPath order start xmlText new s) (hnil : s.downloads = []) :
    Updated mMediaPath order start xmlText new s.device where
  saved := hs.saved
  intervals := hs.intervals
  held m hm := hs.held m fun h => (hnil ▸ h).1 hm
  adopted m hm := hs.adopted m (hnil ▸ Receiver.adopted_of_nil.mpr hm)

variable (mMediaPath) in
/-- An update whose downloads all call back can be handled, whatever their order. -/
theorem Device.update_of_perm {new : AdMediaInfo} (hparse : parse u.xmlText = .ok (some new))
    (hdone : u.done.Perm ((process d.adMediaInfo new).downloads order 0)) :
    ∃ d', d.update mMediaPath order parse u = some d' ∧ Updated mMediaPath order d u.xmlText new d' := by
  obtain ⟨t,ht,hupd,hnil⟩ := update_completes mMediaPath hparse hdone
  refine ⟨t.device,?_,hupd.complete hnil⟩
  have hstep : (Updates.ofDevice d).step mMediaPath order parse (.fetched u.xmlText) =
      some ((Updates.ofDevice d).fetched order parse u.xmlText) := rfl
  rw [Device.update, exec_cons, hstep, Option.bind_some, ht, Option.bind_some,
    if_pos ⟨hupd.running,hnil⟩]

theorem Device.update_eq_some (h : d.update mMediaPath order parse u = some d') :
    ∃ new, parse u.xmlText = .ok (some new) ∧ Updated mMediaPath order d u.xmlText new d' := by
  obtain ⟨t,ht,hend⟩ := Option.bind_eq_some_iff.mp h
  split_ifs at hend with hc
  obtain ⟨v,hv,he⟩ := (exec_cons_eq_some _).mp ht
  cases hv
  have hparse : ∃ new, parse u.xmlText = .ok (some new) := by
    by_contra hno
    have hcrashed : ((Updates.ofDevice d).fetched order parse u.xmlText).crashed = true := by
      unfold Updates.fetched
      split
      · exact absurd ⟨_,‹_›⟩ hno
      · rfl
    cases hdone : u.done with
    | nil =>
      rw [hdone] at he
      cases he
      rw [hcrashed] at hc
      exact absurd hc.1 (by decide)
    | cons e es =>
      rw [hdone] at he
      obtain ⟨w,hw,_⟩ := (exec_cons_eq_some _).mp he
      have hrun := (Updates.finished_eq hw).1
      rw [hcrashed] at hrun
      cases hrun
  obtain ⟨new,hnew⟩ := hparse
  have hperm := perm_of_exec_finished he
  rw [hc.2, List.append_nil, fetched_downloads hnew] at hperm
  obtain ⟨d'',hd'',hupd⟩ := Device.update_of_perm mMediaPath hnew hperm.symm
  cases h.symm.trans hd''
  exact ⟨new,hnew,hupd⟩

theorem Updated.videos {xmlText : String} {new : AdMediaInfo}
    (h : Updated mMediaPath order d xmlText new d') :
    d'.playlist .video = videosAfter mMediaPath order d new := by
  unfold videosAfter
  split_ifs with hm
  · exact (h.adopted .video hm).2
  · exact (h.held .video (not_not.mp hm)).2

theorem PlaysImages.update (hd : PlaysImages mMediaPath order d)
    (h : d.update mMediaPath order parse u = some d') : PlaysImages mMediaPath order d' := by
  obtain ⟨new,_,hupd⟩ := Device.update_eq_some h
  obtain ⟨images,himages,hsame⟩ := hd
  by_cases hm : (process d.adMediaInfo new).downloadSet .image = ∅
  · obtain ⟨hcontainer,hlist⟩ := hupd.held .image hm
    exact ⟨images,hlist.trans himages,by rwa [getList_congr hcontainer]⟩
  · obtain ⟨hcontainer,hlist⟩ := hupd.adopted .image hm
    rw [himages] at hlist
    exact ⟨_,hlist,by rw [getList_congr hcontainer]; exact fun _ => Iff.rfl⟩

/-- One update is restart equivalent exactly when it loses nothing. -/
theorem restartEquivalent_update_iff (hd : PlaysImages mMediaPath order d)
    (h : d.update mMediaPath order parse u = some d') :
    RestartEquivalent mMediaPath order parse u.now d' ↔ NothingLost mMediaPath order parse d u := by
  obtain ⟨new,hparse,hupd⟩ := Device.update_eq_some h
  have hload : loadPolicy parse d'.saved = .ok (some new) := by
    rw [hupd.saved]
    exact hparse
  constructor
  · rintro ⟨fresh,hfresh,hcontainers,hintervals,hlists⟩
    obtain ⟨info,list,hinfo,hlist,rfl⟩ := restart_eq_some.mp hfresh
    cases hload.symm.trans hinfo
    refine ⟨new,hparse,fun m hm => ?_,fun m => ?_,list,?_⟩
    · rw [← (hupd.held m hm).1]
      exact hcontainers m
    · rw [← hupd.intervals m]
      exact hintervals m
    · obtain ⟨held,_,hheld,heq,hsame⟩ := hlists .video
      cases heq
      exact ⟨held,hlist,hupd.videos ▸ hheld,hsame⟩
  · rintro ⟨_,hnew,hcontainers,hintervals,list,held,hlist,hheld,hsame⟩
    cases hparse.symm.trans hnew
    refine ⟨_,restart_eq_some.mpr ⟨new,list,hload,hlist,rfl⟩,fun m => ?_,fun m => ?_,fun m => ?_⟩
    · by_cases hm : (process d.adMediaInfo new).downloadSet m = ∅
      · exact (hupd.held m hm).1.trans (hcontainers m hm)
      · exact (hupd.adopted m hm).1
    · exact (hupd.intervals m).trans (hintervals m)
    · cases m with
      | video => exact ⟨held,list,hupd.videos.trans hheld,rfl,hsame⟩
      | image =>
        obtain ⟨images,himages,hall⟩ := hd
        by_cases hm : (process d.adMediaInfo new).downloadSet .image = ∅
        · refine ⟨images,_,(hupd.held .image hm).2.trans himages,rfl,?_⟩
          rwa [← getList_congr (hcontainers .image hm)]
        · have hadopted := (hupd.adopted .image hm).2
          rw [himages] at hadopted
          exact ⟨_,_,hadopted,rfl,fun _ => Iff.rfl⟩

/-- From a start on, every update is restart equivalent iff none loses anything. -/
theorem restartEquivalent_iff {parseText : String → Option Element} {began : String}
    {us : List PolicyUpdate}
    (h0 : restart mMediaPath order (parseXmlFromText parseText) saved storage began = some d)
    (he : exec (Device.update mMediaPath order (parseXmlFromText parseText)) d us = some d') :
    Along (Device.update mMediaPath order (parseXmlFromText parseText))
        (fun d u => ∀ d', d.update mMediaPath order (parseXmlFromText parseText) u = some d' →
          RestartEquivalent mMediaPath order (parseXmlFromText parseText) u.now d') d us ↔
      Along (Device.update mMediaPath order (parseXmlFromText parseText))
        (NothingLost mMediaPath order (parseXmlFromText parseText)) d us := by
  refine along_congr (I := PlaysImages mMediaPath order) (fun _ _ _ hd h => hd.update h)
    (fun d u d' hd h => ?_) (restart_playsImages h0) he
  constructor
  · intro hall
    exact (restartEquivalent_update_iff hd h).mp (hall d' h)
  · intro hlost e hstep
    cases h.symm.trans hstep
    exact (restartEquivalent_update_iff hd h).mpr hlost

section Documents

def fileElement (id file : String) : Element := .mk "file" [("id",id),("file",file)] []

def document (videos images intervals : List Element) : Element :=
  .mk "policy" [] [.mk "files" [] [.mk "media" [] videos,.mk "pic" [] images],
    .mk "media_play" [] intervals,.mk "pic_play" [] []]

def Device.started : Device := ⟨.empty,fun _ => some [],none,⟨∅,∅⟩⟩

theorem restart_nothing (parse : String → Except Thrown (Option AdMediaInfo)) (now : String) :
    restart "" .some parse none ⟨∅,∅⟩ now = some .started := by
  have hnil : (IterOrder.some : IterOrder NString).list ∅ = [] := (IterOrder.eq_nil _).mpr rfl
  refine restart_eq_some.mpr ⟨.empty,[],rfl,?_,?_⟩
  · simp [getListWithIntervalCheck, AdMediaInfo.intervalContainer, AdMediaInfo.empty, hnil, intervalLoop,
      getList, AdMediaInfo.container]
  · unfold Device.started
    congr 1
    funext m
    cases m
    · rfl
    · simp [AdMediaInfo.empty, hnil, getList, AdMediaInfo.container]

theorem update_first_video {parseText : String → Option Element} {new : AdMediaInfo}
    (hparse : parseXmlFromText parseText "policy" = .ok (some new))
    (hvideos : new.videoContainer = putAll AdInfo.id [.ofFile "1" "a.mp4"]) (himages : new.imageContainer = ∅) :
    ∃ d, Device.started.update "" .some (parseXmlFromText parseText)
      ⟨"policy",[⟨0,.video,some "1"⟩],"08:00"⟩ = some d := by
  have hv : (process .empty new).downloadSet .video = {some "1"} := by
    simp only [process, AdMediaInfo.container, hvideos]
    decide
  have hi : (process .empty new).downloadSet .image = ∅ := by
    simp only [process, AdMediaInfo.container, himages]
    decide
  obtain ⟨d,hd,_⟩ := @Device.update_of_perm "" .some _ .started
    ⟨"policy",[⟨0,.video,some "1"⟩],"08:00"⟩ new hparse
    (.of_eq (Receiver.downloads_one_video _ hv hi).symm)
  exact ⟨d,hd⟩

theorem restartEquivalent_first_video :
    Along (Device.update "" .some (parseXmlFromText fun _ =>
        some (document [fileElement "1" "a.mp4"] [] [])))
      (fun d u => ∀ d', d.update "" .some (parseXmlFromText fun _ =>
          some (document [fileElement "1" "a.mp4"] [] [])) u = some d' →
        RestartEquivalent "" .some (parseXmlFromText fun _ =>
          some (document [fileElement "1" "a.mp4"] [] [])) u.now d')
      .started [⟨"policy",[⟨0,.video,some "1"⟩],"08:00"⟩] := by
  have hparse : parseXmlFromText (fun _ => some (document [fileElement "1" "a.mp4"] [] [])) "policy" =
      .ok (some (.ofEntries [.ofFile "1" "a.mp4"] [])) := rfl
  have hnil : (IterOrder.some : IterOrder NString).list ∅ = [] := (IterOrder.eq_nil _).mpr rfl
  have hv : (process .empty (.ofEntries [.ofFile "1" "a.mp4"] [])).downloadSet .video ≠ ∅ := by decide
  obtain ⟨d,hd⟩ := update_first_video hparse rfl rfl
  refine (restartEquivalent_iff (restart_nothing _ "") ((exec_cons_eq_some _).mpr ⟨d,hd,rfl⟩)).mpr
    ⟨⟨_,hparse,fun m hm => ?_,fun m => ?_,_,_,?_,if_pos hv,fun _ => Iff.rfl⟩,fun _ _ => trivial⟩
  · cases m
    · exact absurd hm hv
    · rfl
  · cases m <;> rfl
  · simp [getListWithIntervalCheck, AdMediaInfo.intervalContainer, AdMediaInfo.ofEntries, AdMediaInfo.empty,
      hnil, intervalLoop, getList, AdMediaInfo.container]

/-- The intervals of a policy are not adopted. -/
theorem not_restartEquivalent_interval :
    ¬ ∀ (mMediaPath : String) (order : IterOrder NString) (parseText : String → Option Element)
      (saved : Option String) (storage : Storage) (began : String) (d d' : Device) (us : List PolicyUpdate),
      restart mMediaPath order (parseXmlFromText parseText) saved storage began = some d →
      exec (Device.update mMediaPath order (parseXmlFromText parseText)) d us = some d' →
      Along (Device.update mMediaPath order (parseXmlFromText parseText))
        (fun d u => ∀ d', d.update mMediaPath order (parseXmlFromText parseText) u = some d' →
          RestartEquivalent mMediaPath order (parseXmlFromText parseText) u.now d') d us := by
  intro hall
  have hparse : parseXmlFromText (fun _ => some (document [fileElement "1" "a.mp4"] []
      [.mk "interval" [("ID","9"),("begin","07:00"),("end","20:00")] [.mk "id" [("file","1")] []]])) "policy" =
      .ok (some { AdMediaInfo.ofEntries [.ofFile "1" "a.mp4"] [] with
        videoIntervalContainer := putAll OneInterval.id
          [⟨some "9",some "07:00",some "20:00",none,{some "1"}⟩] }) := rfl
  obtain ⟨d,hd⟩ := update_first_video hparse rfl rfl
  have halong := hall "" .some _ none ⟨∅,∅⟩ "" .started d [⟨"policy",[⟨0,.video,some "1"⟩],"08:00"⟩]
    (restart_nothing _ "") ((exec_cons_eq_some _).mpr ⟨d,hd,rfl⟩)
  have hplays := restart_playsImages (restart_nothing (fun _ => .ok none) "")
  obtain ⟨new,hnew,_,hintervals,_⟩ := (restartEquivalent_update_iff hplays hd).mp (halong.1 d hd)
  cases hparse.symm.trans hnew
  exact absurd (congrArg Finmap.keys (hintervals .video)) (by decide)

end Documents

end AdSystem.Policy
