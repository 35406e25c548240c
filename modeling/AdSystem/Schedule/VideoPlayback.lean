import AdSystem.Schedule.VideoCursor

/-! # Playing without end

A video that ends, or fails, posts the message that plays the next one, and a message
that finds nothing to play is dropped. A list that changes has to wake the player, and
must not wake it twice.
-/
namespace AdSystem.Schedule
open Query Transition
open Policy (utf16)

namespace AdVideoCtrl

/-- The view stops playing, and a `MSG_PLAY_VIDEO` is posted. -/
def playbackEnds (c : AdVideoCtrl) : AdVideoCtrl := { c with isPlaying := false, messages := c.messages + 1 }

def onCompletion (c : AdVideoCtrl) : AdVideoCtrl := c.playbackEnds
def onError (c : AdVideoCtrl) : AdVideoCtrl := c.playbackEnds

/-- There is something to play. -/
def HasVideos (c : AdVideoCtrl) : Prop := ∃ cursor, c.mVideoListCursor = some cursor ∧ cursor.rows ≠ []

/-- A video is playing or one message is queued, and not both. -/
def Driven (c : AdVideoCtrl) : Prop :=
  c.isPlaying = true ∧ c.messages = 0 ∨ c.isPlaying = false ∧ c.messages = 1

/-- The query result that a call takes over, if any. -/
def taken (q : Distinct) (db : FileListMgr) (now : JString) : UpdateMedia → Option (Cursor JString)
  | .updateWhenAlarmUp isTimeStart => some (if isTimeStart then db.getListAt q .video now else db.getAllVideoFile)
  | .updateWhenIntervalAddOrEdit startTime endTime =>
    if isTimeInInterval now startTime endTime then some (db.getVideoInInterval q startTime endTime) else none
  | .updateWhenIntervalDelete startTime endTime =>
    if isTimeInInterval now startTime endTime then some db.getAllVideoFile else none
  | .updateWhenStrategyChanged =>
    if db.isCurrentTimeInVideoIntervel q now = none then some db.getAllVideoFile else none
  | .updateWhenFileDelete => some (db.getListAt q .video now)

end AdVideoCtrl

inductive PlaybackAction where
  /-- The handler takes a `MSG_PLAY_VIDEO`. -/
  | handleMessage
  | onCompletion
  | onError
  /-- A call of `UpdateMedia`, with the tables and the time it finds. -/
  | update (db : FileListMgr) (now : JString) (u : UpdateMedia)

namespace VideoPlayer
variable (q : Distinct)

/-- A step of the main thread; a video ends only while it is playing. -/
def playbackStep (s : VideoPlayer) (a : PlaybackAction) : Option VideoPlayer :=
  if s.crashed then none
  else
    match a with
    | .handleMessage => if s.ctrl.messages = 0 then none else some s.playNext
    | .onCompletion => if s.ctrl.isPlaying then some ⟨s.ctrl.onCompletion,false⟩ else none
    | .onError => if s.ctrl.isPlaying then some ⟨s.ctrl.onError,false⟩ else none
    | .update db now u => some ⟨s.ctrl.update q db now u,false⟩

/-- The player neither stalls nor doubles. -/
def Plays (s : VideoPlayer) : Prop := s.crashed = false ∧ (s.ctrl.HasVideos → s.ctrl.Driven)

/-- A message finds the cursor on a row if there are any; no message is queued when
`cursorChange` takes over videos; and an alarm takes videos over from a driven player. -/
def Smooth (s : VideoPlayer) : PlaybackAction → Prop
  | .handleMessage => ∀ cursor, s.ctrl.mVideoListCursor = some cursor → cursor.Readable
  | .onCompletion => True
  | .onError => True
  | .update db now (.updateWhenAlarmUp isTimeStart) =>
    ∀ cursor, AdVideoCtrl.taken q db now (.updateWhenAlarmUp isTimeStart) = some cursor →
      cursor.rows ≠ [] → s.ctrl.Driven
  | .update db now u =>
    ∀ cursor, AdVideoCtrl.taken q db now u = some cursor → cursor.rows ≠ [] → s.ctrl.messages = 0

end VideoPlayer

namespace AdVideoCtrl
variable {q : Distinct} {db : FileListMgr} {now : JString} {c : AdVideoCtrl}

theorem hasVideos_iff {cursor : Cursor JString} (h : c.mVideoListCursor = some cursor) :
    c.HasVideos ↔ cursor.rows ≠ [] := by
  simp only [HasVideos, h, Option.some.injEq, exists_eq_left']

/-- Apart from the alarm, a call takes its result over through `cursorChange`. -/
theorem update_eq {u : UpdateMedia} (hu : ∀ b, u ≠ .updateWhenAlarmUp b) :
    c.update q db now u = (taken q db now u).elim c c.cursorChange := by
  cases u with
  | updateWhenAlarmUp isTimeStart => exact absurd rfl (hu isTimeStart)
  | updateWhenIntervalAddOrEdit startTime endTime =>
    simp only [update, updateWhenIntervalAddOrEdit, taken]
    split_ifs <;> rfl
  | updateWhenIntervalDelete startTime endTime =>
    simp only [update, updateWhenIntervalDelete, taken]
    split_ifs <;> rfl
  | updateWhenStrategyChanged =>
    simp only [update, updateWhenStrategyChanged, taken]
    split_ifs <;> rfl
  | updateWhenFileDelete => rfl

/-- Videos taken over through `cursorChange` find the player driven just when no message was queued. -/
theorem cursorChange_driven (c : AdVideoCtrl) (cursor : Cursor JString) :
    ((c.cursorChange cursor).HasVideos → (c.cursorChange cursor).Driven) ↔
      (cursor.rows ≠ [] → c.messages = 0) := by
  rw [hasVideos_iff (cursorChange_cursor c cursor), Cursor.moveToFirst_rows]
  apply imp_congr_right
  intro _
  cases hp : c.isPlaying <;> simp [Driven, cursorChange, hp]

theorem updateWhenAlarmUp_driven (isTimeStart : Bool) :
    ((c.update q db now (.updateWhenAlarmUp isTimeStart)).HasVideos →
        (c.update q db now (.updateWhenAlarmUp isTimeStart)).Driven) ↔
      ∀ cursor, taken q db now (.updateWhenAlarmUp isTimeStart) = some cursor → cursor.rows ≠ [] → c.Driven := by
  have hcursor : (c.update q db now (.updateWhenAlarmUp isTimeStart)).mVideoListCursor =
      some (if isTimeStart then db.getListAt q .video now else db.getAllVideoFile) := rfl
  rw [hasVideos_iff hcursor]
  simp only [taken, Option.some.injEq, forall_eq']
  exact Iff.rfl

/-- A message whose cursor can be read starts the next video, or finds none. -/
theorem playVideo_driven (h : ∀ cursor, c.mVideoListCursor = some cursor → cursor.Readable)
    (hd : c.HasVideos → c.Driven) (hm : c.messages ≠ 0) :
    ∃ c', c.playVideo = some c' ∧ (c'.HasVideos → c'.Driven) := by
  unfold playVideo getVideoByOrder
  cases hc : c.mVideoListCursor with
  | none =>
    refine ⟨_,rfl,fun ⟨cursor,hcur,_⟩ => ?_⟩
    cases hc.symm.trans hcur
  | some cursor =>
    by_cases hcount : cursor.getCount = 0
    · simp only [hcount, if_true]
      refine ⟨_,rfl,fun ⟨cursor',hcur,hrows⟩ => ?_⟩
      cases hc.symm.trans hcur
      exact absurd (List.length_eq_zero_iff.mp hcount) hrows
    · have hrows : cursor.rows ≠ [] := fun hnil => hcount (List.length_eq_zero_iff.mpr hnil)
      obtain ⟨path,hpath⟩ :=
        Option.isSome_iff_exists.mp (Cursor.get_isSome.mpr ((h cursor hc).resolve_left hrows))
      obtain ⟨_,hzero⟩ | ⟨_,hone⟩ := hd ((hasVideos_iff hc).mpr hrows)
      · exact absurd hzero hm
      · simp only [hcount, if_false, hpath]
        exact ⟨_,rfl,fun _ => Or.inl ⟨by simp,by simp [hone]⟩⟩

theorem playVideo_eq_none (h : ∃ cursor, c.mVideoListCursor = some cursor ∧ ¬ cursor.Readable) :
    c.playVideo = none := by
  obtain ⟨cursor,hc,hnot⟩ := h
  have hcount : cursor.getCount ≠ 0 := fun hz => hnot (Or.inl (List.length_eq_zero_iff.mp hz))
  have hnone : cursor.get = none := by
    rw [← Option.not_isSome_iff_eq_none, Cursor.get_isSome]
    exact fun hrow => hnot (Or.inr hrow)
  simp only [playVideo, getVideoByOrder, hc, hcount, if_false, hnone]
  rfl

end AdVideoCtrl

namespace VideoPlayer
variable {q : Distinct} {s t : VideoPlayer} {a : PlaybackAction}

theorem playNext_plays (hs : s.Plays) (hm : s.ctrl.messages ≠ 0) :
    s.playNext.Plays ↔ s.Smooth q .handleMessage := by
  by_cases hread : ∀ cursor, s.ctrl.mVideoListCursor = some cursor → cursor.Readable
  · obtain ⟨c,hc,hd⟩ := AdVideoCtrl.playVideo_driven hread hs.2 hm
    refine iff_of_true ?_ hread
    rw [playNext, hc]
    exact ⟨rfl,hd⟩
  · refine iff_of_false (fun hp => ?_) hread
    push Not at hread
    rw [playNext, AdVideoCtrl.playVideo_eq_none hread] at hp
    cases hp.1

theorem update_plays (hs : s.Plays) (db : FileListMgr) (now : JString) (u : UpdateMedia) :
    Plays ⟨s.ctrl.update q db now u,false⟩ ↔ s.Smooth q (.update db now u) := by
  rw [Plays, and_iff_right rfl]
  by_cases hu : ∃ b, u = .updateWhenAlarmUp b
  · obtain ⟨isTimeStart,rfl⟩ := hu
    exact AdVideoCtrl.updateWhenAlarmUp_driven isTimeStart
  · push Not at hu
    have hsmooth : s.Smooth q (.update db now u) ↔
        ∀ cursor, AdVideoCtrl.taken q db now u = some cursor → cursor.rows ≠ [] → s.ctrl.messages = 0 := by
      cases u with
      | updateWhenAlarmUp isTimeStart => exact absurd rfl (hu isTimeStart)
      | updateWhenIntervalAddOrEdit startTime endTime => exact Iff.rfl
      | updateWhenIntervalDelete startTime endTime => exact Iff.rfl
      | updateWhenStrategyChanged => exact Iff.rfl
      | updateWhenFileDelete => exact Iff.rfl
    simp only [hsmooth, AdVideoCtrl.update_eq hu]
    cases AdVideoCtrl.taken q db now u with
    | none => exact iff_of_true hs.2 nofun
    | some cursor =>
      simp only [Option.elim_some, Option.some.injEq, forall_eq']
      exact AdVideoCtrl.cursorChange_driven s.ctrl cursor

theorem playbackEnds_plays (hs : s.Plays) (hp : s.ctrl.isPlaying = true) : Plays ⟨s.ctrl.playbackEnds,false⟩ := by
  refine ⟨rfl,fun hv => Or.inr ⟨rfl,?_⟩⟩
  obtain ⟨_,hzero⟩ | ⟨hnot,_⟩ := hs.2 hv
  · rw [AdVideoCtrl.playbackEnds, hzero]
  · cases hp.symm.trans hnot

theorem playbackStep_plays (hs : s.Plays) (h : playbackStep q s a = some t) : t.Plays ↔ s.Smooth q a := by
  simp only [playbackStep, hs.1, Bool.false_eq_true, if_false] at h
  cases a with
  | handleMessage =>
    dsimp only at h
    split_ifs at h with hm
    cases h
    exact playNext_plays hs hm
  | onCompletion =>
    dsimp only at h
    split_ifs at h with hp
    cases h
    exact iff_of_true (playbackEnds_plays hs hp) trivial
  | onError =>
    dsimp only at h
    split_ifs at h with hp
    cases h
    exact iff_of_true (playbackEnds_plays hs hp) trivial
  | update db now u =>
    cases h
    exact update_plays hs db now u

theorem new_plays (db : FileListMgr) (now : JString) : (new q db now).Plays := ⟨rfl,fun _ => Or.inr ⟨rfl,rfl⟩⟩

/-- The player neither stalls nor doubles in any state of a run, exactly when every step of the
run is smooth. -/
theorem always_plays_iff {db : FileListMgr} {now : JString} {as : List PlaybackAction}
    (he : exec (playbackStep q) (new q db now) as = some t) :
    Always (playbackStep q) Plays (new q db now) as ↔
      Along (playbackStep q) (Smooth q) (new q db now) as :=
  always_iff_along (I := fun _ => True) (fun _ _ _ _ _ => trivial) (fun _ _ _ _ hs h => playbackStep_plays hs h)
    trivial (new_plays db now) he

theorem always_plays_one_video :
    Always (playbackStep .firsts) Plays (new .firsts morning (utf16 "09:30:00"))
      [.handleMessage,.onCompletion,.handleMessage] := by
  refine (always_plays_iff rfl).mpr ((along_cons rfl).mpr ⟨fun cursor h => ?_,
    (along_cons rfl).mpr ⟨trivial,(along_cons rfl).mpr ⟨fun cursor h => ?_,trivial⟩⟩⟩)
  · cases h
    decide
  · cases h
    decide

/-- There is nothing to play before the interval; its start alarm brings a video, and no message. -/
theorem not_always_plays_at_start :
    ¬ Always (playbackStep .firsts) Plays (new .firsts morning (utf16 "08:00:00"))
      [.handleMessage,.update morning (utf16 "09:00:00") (.updateWhenAlarmUp true)] := by
  intro h
  have hrun : (exec (playbackStep .firsts) (new .firsts morning (utf16 "08:00:00"))
      [.handleMessage,.update morning (utf16 "09:00:00") (.updateWhenAlarmUp true)]).map
        (fun s => (s.ctrl.rows,s.ctrl.isPlaying,s.ctrl.messages)) =
      some (some [utf16 "/sdcard/Camera//a.mp4"],false,0) := by decide
  obtain ⟨s,he,hs⟩ := Option.map_eq_some_iff.mp hrun
  simp only [Prod.mk.injEq, AdVideoCtrl.rows, Option.map_eq_some_iff] at hs
  obtain ⟨⟨cursor,hc,hrows⟩,hplay,hzero⟩ := hs
  have hvideos : s.ctrl.HasVideos := ⟨cursor,hc,by rw [hrows]; exact List.cons_ne_nil _ _⟩
  obtain ⟨htrue,_⟩ | ⟨_,hone⟩ := (h _ s List.prefix_rfl he).2 hvideos
  · cases hplay.symm.trans htrue
  · cases hzero.symm.trans hone

end VideoPlayer
end AdSystem.Schedule
