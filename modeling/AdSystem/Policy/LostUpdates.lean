import AdSystem.Policy.ServerRequest

/-! # Updates that are not lost

The mark is set before the fetch and decides alone whether a schedule is fetched
again. So nothing is lost as long as the last schedule polled, while it is the mark,
has a fetch under way, or has been fetched with each of its files there or coming.
-/
namespace AdSystem.Policy
open Iteration Transition
namespace Process
variable (w : World)

/-- The schedule was polled last and is the mark, so that polls of it are ignored. -/
def Marked (s : Process) (scheduleId : String) : Prop :=
  s.polled = some scheduleId ∧ s.updates.device.adMediaInfo.resolution = some scheduleId

/-- The policy was fetched, and each of its files is there or being downloaded for it. -/
def FilesCome (s : Process) (scheduleId : String) : Prop :=
  scheduleId ∈ s.fetched ∧ ∀ p, RefersTo w scheduleId p → p ∈ s.updates.device.storage.files ∨
    ∃ d ∈ s.updates.downloads, s.scheduleId d.receiver = scheduleId ∧ s.fileOf w d = some p

def Covered (s : Process) (scheduleId : String) : Prop :=
  scheduleId ∈ s.fetching ∨ s.FilesCome w scheduleId

/-- The entries of a policy whose ids are active already have their files there, or have those of new ids. -/
def RetainedFilesCome (s : Process) (info : AdMediaInfo) : Prop :=
  ∀ m, ∀ id ∈ (s.updates.device.adMediaInfo.container m).keys, ∀ p,
    FileOf w.mMediaPath (info.container m) id p → p ∈ s.updates.device.storage.files ∨
      NewFile w.mMediaPath s.updates.device.adMediaInfo info p

/-- The condition on each step. -/
def Keeps (s : Process) : ProcessAction → Prop
  | .poll scheduleId =>
    s.updates.device.adMediaInfo.resolution = some scheduleId →
      s.polled = some scheduleId ∨ s.Covered w scheduleId
  | .fetchEnds i connection =>
    ∀ scheduleId, s.fetching[i]? = some scheduleId →
      (connection ≠ .response 200 → s.Marked scheduleId →
        scheduleId ∈ s.fetching.eraseIdx i ∨ s.FilesCome w scheduleId) ∧
      (connection = .response 200 → ∀ info, w.parse (w.policyText scheduleId) = .ok (some info) →
        s.RetainedFilesCome w info)
  | .downloadFinished d =>
    ∀ scheduleId info r, s.Marked scheduleId → w.parse (w.policyText scheduleId) = .ok (some info) →
      s.updates.receivers[d.receiver]? = some r → (r.onDownloadFinished d.media).2 = true →
      Spares w.mMediaPath info (s.updates.device.adMediaInfo.container d.media) (r.deleteSet d.media)
  | .die _ =>
    ∀ scheduleId info, s.polled = some scheduleId →
      loadPolicy w.parse s.updates.device.saved = .ok (some info) → info.resolution = some scheduleId →
      s.Applied w scheduleId

/-- What the guarded steps keep. -/
structure Kept (s : Process) : Prop where
  counted : s.updates.Counted
  covered : s.updates.crashed = false → ∀ scheduleId, s.Marked scheduleId → s.Covered w scheduleId

variable {w} {s t : Process} {scheduleId p : String} {i : ℕ} {connection : Connection} {d : Download}
  {info : AdMediaInfo}

theorem start_kept (device : Device) (fetched : List String) : (start device fetched).Kept w :=
  ⟨Updates.ofDevice_counted device,fun _ _ h => nomatch h.1⟩

theorem RetainedFilesCome.requested (h : s.RetainedFilesCome w info) (hp : FileIn w.mMediaPath info p) :
    p ∈ s.updates.device.storage.files ∨
      ∃ d ∈ (process s.updates.device.adMediaInfo info).downloads w.order s.updates.receivers.length,
        mediaFile w.mMediaPath ((process s.updates.device.adMediaInfo info).resName d) = p := by
  rw [Receiver.exists_download_iff]
  obtain ⟨m,id,hf⟩ := hp
  by_cases hid : id ∈ (s.updates.device.adMediaInfo.container m).keys
  · exact h m id hid p hf
  · exact Or.inr ⟨m,id,hid,hf⟩

theorem Kept.poll (hs : s.Kept w) (hrun : s.updates.crashed = false) (hg : s.Keeps w (.poll scheduleId)) :
    (s.poll scheduleId).Kept w := by
  unfold Process.poll
  dsimp only
  split_ifs with h
  · refine ⟨⟨hs.counted.counts,hs.counted.known⟩,fun _ S hm => Or.inl ?_⟩
    cases hm.1
    exact List.mem_append_right _ (List.mem_singleton_self _)
  · refine ⟨hs.counted,fun _ S hm => ?_⟩
    obtain ⟨hpolled,hmark⟩ := hm
    cases hpolled
    rcases hg hmark with hp | hc
    · exact hs.covered hrun scheduleId ⟨hp,hmark⟩
    · exact hc

theorem mem_eraseIdx_of_ne {l : List String} {S S' : String} (hi : l[i]? = some S') (hS : S ∈ l)
    (hne : S ≠ S') : S ∈ l.eraseIdx i := by
  obtain ⟨j,hj⟩ := List.mem_iff_getElem?.mp hS
  refine List.mem_eraseIdx_iff_getElem?.mpr ⟨j,fun h => ?_,hj⟩
  rw [h, hi] at hj
  exact hne (Option.some.inj hj).symm

theorem Kept.fetch_fails (hs : s.Kept w) (hrun : s.updates.crashed = false)
    (hi : s.fetching[i]? = some scheduleId)
    (hg : s.Marked scheduleId → scheduleId ∈ s.fetching.eraseIdx i ∨ s.FilesCome w scheduleId) :
    Kept w { s with fetching := s.fetching.eraseIdx i } := by
  refine ⟨hs.counted,fun _ S hm => ?_⟩
  by_cases hS : S = scheduleId
  · subst hS
    exact hg hm
  · rcases hs.covered hrun S hm with hf | hf
    · exact Or.inl (mem_eraseIdx_of_ne hi hf hS)
    · exact Or.inr hf

theorem Kept.fetch_succeeds (hs : s.Kept w) (hrun : s.updates.crashed = false)
    (hi : s.fetching[i]? = some scheduleId)
    (hg : ∀ info, w.parse (w.policyText scheduleId) = .ok (some info) → s.RetainedFilesCome w info) :
    Kept w { s with
      updates := s.updates.fetched w.order w.parse (w.policyText scheduleId),
      scheduleId := Function.update s.scheduleId s.updates.receivers.length scheduleId,
      fetching := s.fetching.eraseIdx i,
      fetched := scheduleId :: s.fetched } := by
  by_cases hparse : ∃ new, w.parse (w.policyText scheduleId) = .ok (some new)
  · obtain ⟨new,hnew⟩ := hparse
    have hcounted := hs.counted.fetched w.order hnew
    refine ⟨hcounted,fun _ S hm => ?_⟩
    simp only [Marked, Covered, FilesCome, fileOf, Updates.fetched_ok hnew] at hm ⊢
    by_cases hS : S = scheduleId
    · -- the receiver that was waiting for this text has just requested what is missing
      subst hS
      refine Or.inr ⟨List.mem_cons_self,fun p hp => ?_⟩
      obtain ⟨info,hinfo,hfile⟩ := hp
      cases hnew.symm.trans hinfo
      rcases (hg new hnew).requested hfile with hp | ⟨d,hd,hp⟩
      · exact Or.inl hp
      · have hk := (Receiver.mem_downloads.mp hd).1
        refine Or.inr ⟨d,List.mem_append_right _ hd,?_,?_⟩
        · rw [hk, Function.update_self]
        · rw [hk, List.getElem?_concat_length, Option.map_some, hp]
    · rcases hs.covered hrun S hm with hf | ⟨hf,hall⟩
      · exact Or.inl (mem_eraseIdx_of_ne hi hf hS)
      · refine Or.inr ⟨List.mem_cons_of_mem _ hf,fun p hp => ?_⟩
        rcases hall p hp with hp | ⟨d,hd,hsched,hfile⟩
        · exact Or.inl hp
        · have hlt := hs.counted.known d hd
          refine Or.inr ⟨d,List.mem_append_left _ hd,?_,?_⟩
          · rw [Function.update_of_ne hlt.ne]
            exact hsched
          · rw [List.getElem?_append_left hlt]
            exact hfile
  · have hcrashed : s.updates.fetched w.order w.parse (w.policyText scheduleId) =
        { s.updates with crashed := true } := by
      unfold Updates.fetched
      split
      · exact absurd ⟨_,‹_›⟩ hparse
      · rfl
    rw [hcrashed]
    exact ⟨⟨hs.counted.counts,hs.counted.known⟩,fun h => nomatch h⟩

theorem fileOf_finish {r : Receiver} (hr : s.updates.receivers[d.receiver]? = some r) (e : Download) :
    fileOf w { s with updates := s.updates.finish w.mMediaPath w.order d r } e = s.fileOf w e := by
  simp only [fileOf, Updates.finish]
  rcases eq_or_ne d.receiver e.receiver with h | h
  · rw [← h, List.getElem?_set_self (List.getElem?_eq_some_iff.mp hr).1, hr]
    rfl
  · rw [List.getElem?_set_ne h]

theorem Kept.downloadFinished (hs : s.Kept w) (hg : s.Keeps w (.downloadFinished d)) {u : Updates}
    (hu : s.updates.step w.mMediaPath w.order w.parse (.finished d) = some u) :
    Kept w { s with updates := u } := by
  obtain ⟨hrun,hd,r,hr,rfl⟩ := Updates.finished_eq hu
  have hcounted := hs.counted.finish w.mMediaPath w.order hd hr
  refine ⟨hcounted,fun hok S hm => ?_⟩
  have hmark : s.Marked S := by
    refine ⟨hm.1,?_⟩
    rw [← hm.2, Updates.finish_resolution]
  rcases hs.covered hrun S hmark with hf | ⟨hf,hall⟩
  · exact Or.inl hf
  · refine Or.inr ⟨hf,fun p hp => ?_⟩
    have hstays : p = mediaFile w.mMediaPath (r.resName d) ∨ p ∈ s.updates.device.storage.files →
        p ∈ (s.updates.finish w.mMediaPath w.order d r).device.storage.files := by
      intro hthere
      refine (Updates.mem_files_finish hok).mpr ⟨hthere,fun hlast id hid hfile => ?_⟩
      obtain ⟨info,hinfo,hin⟩ := hp
      exact hg S info r hmark hinfo hr hlast id hid p hfile hin
    rcases hall p hp with hp | ⟨e,he,hsched,hfile⟩
    · exact Or.inl (hstays (Or.inr hp))
    · by_cases hed : e = d
      · subst hed
        rw [fileOf, hr, Option.map_some, Option.some.injEq] at hfile
        exact Or.inl (hstays (Or.inl hfile.symm))
      · exact Or.inr ⟨e,(List.mem_erase_of_ne hed).mpr he,hsched,(fileOf_finish hr e).trans hfile⟩

theorem Kept.die (hg : ∀ scheduleId info, s.polled = some scheduleId →
      loadPolicy w.parse s.updates.device.saved = .ok (some info) → info.resolution = some scheduleId →
      s.Applied w scheduleId) {now : String} {device : Device}
    (hd : restart w.mMediaPath w.order w.parse s.updates.device.saved s.updates.device.storage now =
      some device) :
    Kept w { s with updates := Updates.ofDevice device, scheduleId := fun _ => "", fetching := [] } := by
  refine ⟨Updates.ofDevice_counted device,fun _ S hm => ?_⟩
  obtain ⟨info,list,hinfo,_,rfl⟩ := restart_eq_some.mp hd
  obtain ⟨hf,hall⟩ := hg S info hm.1 hinfo hm.2
  exact Or.inr ⟨hf,fun p hp => Or.inl (hall p hp)⟩

theorem Kept.step (hs : s.Kept w) {a : ProcessAction} (hg : s.Keeps w a) (h : s.step w a = some t) :
    t.Kept w := by
  cases a with
  | poll scheduleId =>
    simp only [Process.step] at h
    split_ifs at h with hc
    cases h
    exact hs.poll (Bool.not_eq_true _ ▸ hc) hg
  | fetchEnds i connection =>
    simp only [Process.step] at h
    split_ifs at h with hc
    obtain ⟨scheduleId,hi,rfl⟩ := Option.map_eq_some_iff.mp h
    have hrun : s.updates.crashed = false := Bool.not_eq_true _ ▸ hc
    obtain ⟨hfails,hsucceeds⟩ := hg scheduleId hi
    by_cases hok : connection = .response 200
    · subst hok
      exact hs.fetch_succeeds hrun hi (hsucceeds rfl)
    · have hkept := hs.fetch_fails hrun hi (hfails hok)
      cases connection with
      | response code =>
        rw [getRequestTextFile, if_neg fun h200 => hok (congrArg Connection.response h200)]
        exact hkept
      | malformedUrl => exact hkept
      | ioException => exact hkept
  | downloadFinished d =>
    obtain ⟨u,hu,rfl⟩ := Option.map_eq_some_iff.mp h
    exact hs.downloadFinished hg hu
  | die now =>
    obtain ⟨device,hd,rfl⟩ := Option.map_eq_some_iff.mp h
    exact Kept.die hg hd

theorem Kept.applied (hs : s.Kept w) (hrun : s.updates.crashed = false) (hm : s.Marked scheduleId)
    (hidle : ¬ s.InProgress scheduleId) : s.Applied w scheduleId := by
  rcases hs.covered hrun scheduleId hm with hf | ⟨hf,hall⟩
  · exact absurd (Or.inl hf) hidle
  · refine ⟨hf,fun p hp => ?_⟩
    rcases hall p hp with hp | ⟨d,hd,hsched,_⟩
    · exact hp
    · exact absurd (Or.inr ⟨d,hd,hsched⟩) hidle

theorem step_poll (hrun : s.updates.crashed = false)
    (hmark : s.updates.device.adMediaInfo.resolution ≠ some scheduleId) :
    ∃ t, s.step w (.poll scheduleId) = some t ∧ t.fetching = s.fetching ++ [scheduleId] := by
  refine ⟨s.poll scheduleId,?_,?_⟩
  · rw [Process.step, hrun]
    rfl
  · rw [Process.poll, if_pos (Or.inr hmark)]

theorem fetchEnds_requests (hg : s.Keeps w (.fetchEnds i (.response 200)))
    (hi : s.fetching[i]? = some scheduleId) (h : s.step w (.fetchEnds i (.response 200)) = some t)
    (hp : RefersTo w scheduleId p) (hnot : p ∉ s.updates.device.storage.files) :
    ∃ d ∈ t.updates.downloads, d.receiver = s.updates.receivers.length ∧
      t.scheduleId d.receiver = scheduleId ∧ t.fileOf w d = some p := by
  simp only [Process.step] at h
  split_ifs at h
  rw [hi] at h
  cases h
  obtain ⟨info,hinfo,hfile⟩ := hp
  obtain ⟨d,hd,hp⟩ := (((hg scheduleId hi).2 rfl info hinfo).requested hfile).resolve_left hnot
  have hk := (Receiver.mem_downloads.mp hd).1
  simp only [getRequestTextFile, if_true, dispatchMessage, fileOf, Updates.fetched_ok hinfo]
  refine ⟨d,List.mem_append_right _ hd,hk,?_,?_⟩
  · rw [hk, Function.update_self]
  · rw [hk, List.getElem?_concat_length, Option.map_some, hp]

/-- The last schedule polled is not applied and nothing is under way for it. -/
def Lost (w : World) (s : Process) (scheduleId : String) : Prop :=
  s.polled = some scheduleId ∧ ¬ s.Applied w scheduleId ∧ ¬ s.InProgress scheduleId

/-- The next poll of the schedule starts a receiver; and when, after further steps, a fetch
for the schedule gets its text, it starts a download for every file that is not there. -/
def Recovers (w : World) (allowed : Process → ProcessAction → Prop) (s : Process) (scheduleId : String) :
    Prop :=
  ∃ t, s.step w (.poll scheduleId) = some t ∧ t.fetching = s.fetching ++ [scheduleId] ∧
    ∀ (bs : List ProcessAction) (i : ℕ) (u v : Process), exec (Process.step w) t bs = some u →
      Along (Process.step w) allowed t (bs ++ [.fetchEnds i (.response 200)]) →
      u.fetching[i]? = some scheduleId → u.step w (.fetchEnds i (.response 200)) = some v →
      ∀ p, RefersTo w scheduleId p → p ∉ u.updates.device.storage.files →
        ∃ d ∈ v.updates.downloads, d.receiver = u.updates.receivers.length ∧
          v.scheduleId d.receiver = scheduleId ∧ v.fileOf w d = some p

/-- In a run whose steps all meet the condition, no update is lost. -/
theorem recovers_of_keeps {device : Device} {fetched : List String} {as : List ProcessAction}
    (he : exec (Process.step w) (start device fetched) as = some s)
    (hg : Along (Process.step w) (fun s a => s.Keeps w a) (start device fetched) as)
    (hrun : s.updates.crashed = false) (hlost : s.Lost w scheduleId) :
    s.Recovers w (fun s a => s.Keeps w a) scheduleId := by
  have hkept : s.Kept w := exec_invariant (I := Kept w) (P := fun s a => s.Keeps w a)
    (fun _ _ _ hs hg h => hs.step hg h) (start_kept device fetched) hg he
  obtain ⟨hpolled,hnot,hidle⟩ := hlost
  obtain ⟨t,ht,hfetching⟩ := step_poll (w := w) hrun
    (fun hmark => hnot (hkept.applied hrun ⟨hpolled,hmark⟩ hidle))
  refine ⟨t,ht,hfetching,fun bs i u v hu halong hi hv p hp hmissing => ?_⟩
  exact fetchEnds_requests ((along_append_singleton hu).mp halong).2 hi hv hp hmissing

section Example

/-- A world with one policy, of one video. -/
def oneVideoWorld (order : IterOrder NString) : World :=
  ⟨"",order,fun _ => .ok (some (.ofEntries [.ofFile "1" "a.mp4"] [])),fun _ => ""⟩

/-- The process dies while it fetches the policy. The next poll starts a fetch, and the text a download. -/
theorem recovers_after_death :
    ∃ s t v, exec (Process.step (oneVideoWorld .some)) (start .started []) [.poll "S",.die "08:00"] = some s ∧
      s.step (oneVideoWorld .some) (.poll "S") = some t ∧
      t.step (oneVideoWorld .some) (.fetchEnds 0 (.response 200)) = some v ∧
      ∃ d ∈ v.updates.downloads, v.fileOf (oneVideoWorld .some) d = some "a.mp4" := by
  have hpoll : (start .started []).step (oneVideoWorld .some) (.poll "S") = some ((start .started []).poll "S") := rfl
  have hdie : ((start .started []).poll "S").step (oneVideoWorld .some) (.die "08:00") =
      some { start .started [] with polled := some "S" } :=
    congrArg (Option.map _) (restart_nothing _ "08:00")
  have hrun : exec (Process.step (oneVideoWorld .some)) (start .started []) [.poll "S",.die "08:00"] =
      some { start .started [] with polled := some "S" } :=
    (exec_cons_eq_some _).mpr ⟨_,hpoll,(exec_cons_eq_some _).mpr ⟨_,hdie,rfl⟩⟩
  have hkeeps : Along (Process.step (oneVideoWorld .some)) (fun s a => s.Keeps (oneVideoWorld .some) a)
      (start .started []) [.poll "S",.die "08:00"] := by
    rw [along_cons hpoll, along_cons hdie]
    refine ⟨fun h => (nomatch h),fun S info _ hinfo hS => ?_,trivial⟩
    cases hinfo
    cases hS
  have hidle : ¬ InProgress { start .started [] with polled := some "S" } "S" := by
    rintro (h | ⟨_,h,_⟩)
    · cases h
    · cases h
  obtain ⟨t,ht,_,hfetch⟩ := recovers_of_keeps hrun hkeeps rfl ⟨rfl,fun h => (nomatch h.1),hidle⟩
  cases ht
  have hnew : Along (Process.step (oneVideoWorld .some)) (fun s a => s.Keeps (oneVideoWorld .some) a)
      (Process.poll { start .started [] with polled := some "S" } "S") [.fetchEnds 0 (.response 200)] := by
    refine (along_cons rfl).mpr ⟨fun S _ => ⟨fun hne => absurd rfl hne,fun _ info _ m id hid => ?_⟩,trivial⟩
    cases m <;> cases hid
  obtain ⟨d,hd,_,_,hfile⟩ := hfetch [] 0 _ _ rfl hnew rfl rfl "a.mp4"
    ⟨_,rfl,.video,some "1",.ofFile "1" "a.mp4",by decide,by decide⟩ (Finset.notMem_empty _)
  exact ⟨_,_,_,hrun,rfl,rfl,d,hd,hfile⟩

/-- After a fetch that fails the schedule is ignored. -/
theorem not_recovers_failed_fetch :
    ¬ ∀ (w : World) (saved : Option String) (storage : Storage) (began : String) (device : Device)
      (fetched : List String) (as : List ProcessAction) (s : Process) (scheduleId : String),
      restart w.mMediaPath w.order w.parse saved storage began = some device →
      exec (Process.step w) (start device fetched) as = some s → s.updates.crashed = false →
      s.Lost w scheduleId → s.Recovers w (fun _ _ => True) scheduleId := by
  intro hall
  have hrun : exec (Process.step (oneVideoWorld .some)) (start .started []) [.poll "S",.fetchEnds 0 .ioException] =
      some { (start .started []).poll "S" with fetching := [] } := rfl
  obtain ⟨t,ht,hfetching,_⟩ := hall (oneVideoWorld .some) none ⟨∅,∅⟩ "" .started []
    [.poll "S",.fetchEnds 0 .ioException] _ "S" (restart_nothing _ "") hrun rfl
    ⟨rfl,fun h => (nomatch h.1),fun h => h.elim (fun h => nomatch h) fun ⟨_,h,_⟩ => nomatch h⟩
  cases ht
  cases hfetching

end Example
end Process
end AdSystem.Policy
