import AdSystem.Camera.PreviewCustody

/-! # Runs of a preview

Each step keeps the frames in one place each and the pictures in their order, whichever thread takes it. So over
every run no frame is used twice, there are never many of them, and the application is called with pictures that
the camera has sent.
-/
namespace AdSystem.Camera.NativePreview
open Transition BufferLine
variable {α : Type*} {mode : PreviewMode α} {s t : NativePreview α} {events : List (FrameEvent α)}
  {gone : List ℕ} {put taken : List α}

theorem streamStep_spec (hk : s.Keeps mode [] gone put taken) (h : s.streamStep = some (t,events)) :
    KeepsAfter mode t events gone put taken ∧ Regular s t := by
  rw [keeps_iff_stream, Multiset.coe_nil, zero_add] at hk
  unfold streamStep at h
  cases hstream : s.stream with
  | idle =>
    rw [hstream] at h
    cases h
  | duplicating copy picture =>
    rw [hstream] at h hk
    cases h
    refine ⟨?_,?_⟩
    · refine ⟨[],rfl,keeps_iff_stream.mpr ?_⟩
      have hput : (mode.shown picture).toList = [picture].filterMap mode.shown := by
        cases hshown : mode.shown picture <;> simp [hshown]
      have hon := Kept.putOn (k := mode.shown) hk picture
      simp only [StreamThread.coded, List.map_nil, List.append_nil, hput] at hon
      simpa [write, ahead, List.filterMap_cons, FrameEvent.gone, FrameEvent.copiedPicture] using hon
    · exact ⟨.inl rfl,id,id⟩
  | adding copy =>
    rw [hstream] at h hk
    dsimp only at h
    by_cases hif : s.isRunning ∧ s.previewFrames.length < maxFrame
    · rw [if_pos hif] at h
      cases h
      refine ⟨keepsAfter_nil (keeps_iff_stream.mpr (by simpa [ahead] using hk)),?_⟩
      exact ⟨.inl rfl,fun _ => by simpa [Nat.succ_le_iff] using hif.2,id⟩
    · rw [if_neg hif] at h
      cases h
      refine ⟨?_,?_⟩
      · rw [← List.append_nil (_ ++ _)] at hk
        exact keepsAfter_nil (keeps_iff_stream.mpr (by simpa [ahead] using hk.drop))
      · exact ⟨.inl rfl,id,id⟩
  | recycling copy =>
    rw [hstream] at h hk
    cases h
    refine ⟨keepsAfter_recycle (keeps_iff_stream.mpr (by simpa [ahead, behind] using hk)),?_⟩
    exact ⟨.inl rfl,id,id⟩

theorem decode_eq_some {content : Option α} {picture : α}
    (h : (mode.mjpeg2yuyv.bind fun mjpeg2yuyv => content.bind mjpeg2yuyv) = some picture) :
    content.bind mode.shown = mode.callback picture := by
  obtain ⟨mjpeg2yuyv,hmjpeg,h⟩ := Option.bind_eq_some_iff.mp h
  obtain ⟨coded,rfl,h⟩ := Option.bind_eq_some_iff.mp h
  rw [Option.bind_some] at h ⊢
  rw [PreviewMode.shown, PreviewMode.decode, hmjpeg, Option.getD_some, h, Option.bind_some]

theorem previewStep_spec {thread : PreviewThread} (hk : s.Keeps mode [] gone put taken)
    (hthread : s.preview = some thread) (hfollows : s.CaptureFollows)
    (h : s.previewStep mode thread = some (t,events)) :
    KeepsAfter mode t events gone put taken ∧ Regular s t := by
  rw [keeps_iff_preview, hthread, Multiset.coe_nil, zero_add] at hk
  cases thread with
  | starting =>
    cases h
    refine ⟨keepsAfter_nil (keeps_iff_preview.mpr (by simpa [ahead, behind] using hk)),?_⟩
    exact ⟨.inl rfl,id,fun hs _ => hs (.inl hthread)⟩
  | clearing =>
    cases h
    refine ⟨?_,?_⟩
    · have hcap := hfollows (.inr hthread)
      simp only [Option.elim_some, PreviewThread.decoded, PreviewThread.coded, List.map_nil, List.append_nil, behind,
        List.map_append, ← List.append_assoc] at hk
      exact keepsAfter_recycle (keeps_iff_preview.mpr (by simpa [ahead, behind, hcap, Function.comp_def] using hk.drop))
    · refine ⟨.inl rfl,fun _ => Nat.zero_le _,fun _ hstarting => ?_⟩
      rcases hstarting with hstarting | hstarting <;> cases hstarting
  | looping =>
    rw [previewStep] at h
    by_cases hrun : s.isRunning
    · rw [if_pos hrun] at h
      cases hframes : s.previewFrames with
      | nil =>
        rw [hframes] at h
        cases h
        exact ⟨keepsAfter_nil (keeps_iff_preview.mpr (by simpa [hthread] using hk)),⟨.inl rfl,id,id⟩⟩
      | cons frame frames =>
        rw [hframes] at h
        cases h
        refine ⟨?_,?_⟩
        · refine keepsAfter_nil (keeps_iff_preview.mpr ?_)
          -- a frame that needs no decoding counts as decoded when it is taken
          cases hmjpeg : mode.mjpeg2yuyv with
          | none =>
            have hshown : mode.shown = mode.callback := by
              funext picture
              rw [PreviewMode.shown, PreviewMode.decode, hmjpeg, Option.getD_none, Option.bind_some]
            simpa [ahead, behind, hframes, hshown] using hk
          | some mjpeg2yuyv => simpa [ahead, behind, hframes] using hk
        · refine ⟨.inl rfl,fun hlen => ?_,fun _ hstarting => ?_⟩
          · rw [hframes, List.length_cons] at hlen
            exact (Nat.le_succ _).trans hlen
          · dsimp only at hstarting
            split_ifs at hstarting <;> simp at hstarting
    · rw [if_neg hrun] at h
      cases h
      refine ⟨keepsAfter_nil (keeps_iff_preview.mpr (by simpa [ahead, behind] using hk)),?_⟩
      exact ⟨.inl rfl,id,fun _ hstarting => by simp at hstarting⟩
  | taken frameMjpeg =>
    rcases hget : getFrame s.framePool s.allocated with ⟨frame,framePool,allocated⟩
    rw [previewStep, hget] at h
    cases h
    refine ⟨?_,?_⟩
    · simp only [Option.elim_some, PreviewThread.spare, Multiset.coe_nil, zero_add] at hk
      exact keepsAfter_nil (keeps_iff_preview.mpr (by simpa [ahead, behind] using kept_getFrame hget hk))
    · exact ⟨getFrame_allocated hget,id,fun _ hstarting => by simp at hstarting⟩
  | decoding frameMjpeg frame =>
    rw [previewStep] at h
    cases hpicture : mode.mjpeg2yuyv.bind fun mjpeg2yuyv => (s.memory frameMjpeg).bind mjpeg2yuyv with
    | none =>
      rw [hpicture] at h
      cases h
      refine ⟨keepsAfter_recycle (keeps_iff_preview.mpr (by simpa [ahead, behind] using hk.drop)),?_⟩
      exact ⟨.inl rfl,id,fun _ hstarting => by simp at hstarting⟩
    | some picture =>
      rw [hpicture] at h
      cases h
      refine ⟨?_,?_⟩
      · have hconvert := Kept.convert hk (decode_eq_some hpicture)
        exact keepsAfter_recycle (keeps_iff_preview.mpr (by simpa [ahead, behind, write] using hconvert))
      · exact ⟨.inl rfl,id,fun _ hstarting => by simp at hstarting⟩
  | failed frame =>
    cases h
    refine ⟨keepsAfter_recycle (keeps_iff_preview.mpr (by simpa [ahead, behind] using hk)),?_⟩
    exact ⟨.inl rfl,id,fun _ hstarting => by simp at hstarting⟩
  | drawing frame =>
    rw [previewStep] at h
    by_cases hwindow : s.previewWindow
    · rcases hget : getFrame s.framePool s.allocated with ⟨converted,framePool,allocated⟩
      rw [if_pos hwindow, hget] at h
      cases h
      refine ⟨?_,?_⟩
      · simp only [Option.elim_some, PreviewThread.spare, Multiset.coe_nil, zero_add] at hk
        exact keepsAfter_nil (keeps_iff_preview.mpr (by simpa [ahead, behind] using kept_getFrame hget hk))
      · exact ⟨getFrame_allocated hget,id,fun _ hstarting => by simp at hstarting⟩
    · rw [if_neg hwindow] at h
      cases h
      refine ⟨keepsAfter_nil (keeps_iff_preview.mpr (by simpa [ahead, behind] using hk)),?_⟩
      exact ⟨.inl rfl,id,fun _ hstarting => by simp at hstarting⟩
  | converting frame converted =>
    cases h
    refine ⟨keepsAfter_recycle (keeps_iff_preview.mpr (by simpa [ahead, behind, write] using Kept.write hk none)),?_⟩
    exact ⟨.inl rfl,id,fun _ hstarting => by simp at hstarting⟩
  | drawn frame =>
    rw [previewStep] at h
    by_cases hrun : s.isRunning
    · rw [if_pos hrun] at h
      cases h
      refine ⟨?_,?_⟩
      · simp only [Option.elim_some, PreviewThread.decoded, PreviewThread.coded, List.map_nil, List.append_nil, ahead,
          List.map_append, ← List.append_assoc] at hk
        have hdrop := Kept.drop (List.append_assoc (_ ++ _) _ _ ▸ hk)
        exact keepsAfter_recycle (keeps_iff_preview.mpr (by simpa [ahead, behind, Function.comp_def] using hdrop))
      · exact ⟨.inl rfl,id,fun _ hstarting => by simp at hstarting⟩
    · rw [if_neg hrun] at h
      cases h
      refine ⟨?_,?_⟩
      · simp only [Option.elim_some, PreviewThread.coded, List.map_nil, List.append_nil] at hk
        refine ⟨[],rfl,keeps_iff_preview.mpr ?_⟩
        simpa [ahead, behind, List.filterMap_cons, FrameEvent.gone, FrameEvent.copiedPicture] using Kept.free hk.drop
      · exact ⟨.inl rfl,id,fun _ hstarting => by simp at hstarting⟩
  | stopping =>
    rw [previewStep] at h
    cases hstream : s.stream with
    | idle =>
      rw [hstream] at h hk
      cases h
      refine ⟨keepsAfter_nil (keeps_iff_preview.mpr (by simpa [ahead, behind, hstream] using hk)),?_⟩
      exact ⟨.inl rfl,id,fun _ hstarting => by simp at hstarting⟩
    | _ =>
      rw [hstream] at h
      cases h

theorem callback_eq_some {content : Option α} {picture : α}
    (h : (mode.frameCallback.bind fun func => func.bind fun func => content.bind func) = some picture) :
    content.bind mode.callback = some picture := by
  obtain ⟨func,hcallback,h⟩ := Option.bind_eq_some_iff.mp h
  obtain ⟨convert,rfl,h⟩ := Option.bind_eq_some_iff.mp h
  rw [PreviewMode.callback, hcallback]
  exact h

theorem captureStep_spec {thread : CaptureThread} (hk : s.Keeps mode [] gone put taken)
    (hthread : s.capture = some thread) (h : s.captureStep mode thread = some (t,events)) :
    KeepsAfter mode t events gone put taken ∧ Regular s t := by
  have hfollows : ∀ {u : NativePreview α}, u.preview = s.preview → s.CaptureFollows → u.CaptureFollows := by
    intro u hpreview hs hstarting
    rw [hpreview] at hstarting
    cases hthread.symm.trans (hs hstarting)
  rw [keeps_iff_capture, hthread, Multiset.coe_nil, zero_add] at hk
  cases thread with
  | starting =>
    cases h
    refine ⟨keepsAfter_recycle (keeps_iff_capture.mpr (by simpa [behind, Function.comp_def] using hk.drop)),?_⟩
    exact ⟨.inl rfl,id,hfollows rfl⟩
  | looping =>
    rw [captureStep] at h
    by_cases hrun : s.isRunning
    · rw [if_pos hrun] at h
      cases hcapture : s.captureQueu with
      | none =>
        rw [hcapture] at h
        cases h
        exact ⟨keepsAfter_nil (keeps_iff_capture.mpr (by simpa [hthread] using hk)),⟨.inl rfl,id,id⟩⟩
      | some frame =>
        rw [hcapture] at h hk
        cases h
        refine ⟨keepsAfter_nil (keeps_iff_capture.mpr (by simpa [behind] using hk)),?_⟩
        exact ⟨.inl rfl,id,hfollows rfl⟩
    · rw [if_neg hrun] at h
      cases h
      refine ⟨keepsAfter_nil (keeps_iff_capture.mpr (by simpa [behind] using hk)),?_⟩
      exact ⟨.inl rfl,id,hfollows rfl⟩
  | taken frame =>
    rw [captureStep] at h
    cases hcallback : mode.frameCallback with
    | none =>
      rw [hcallback] at h
      cases h
      refine ⟨?_,?_⟩
      · rw [List.append_assoc] at hk
        exact keepsAfter_nil (keeps_iff_capture.mpr (by simpa [behind] using hk.drop))
      · exact ⟨.inl rfl,id,hfollows rfl⟩
    | some func =>
      rw [hcallback] at h
      cases func with
      | none =>
        cases h
        refine ⟨?_,?_⟩
        · have hmode : mode.callback = some := by
            rw [PreviewMode.callback, hcallback]
            rfl
          simp only [hmode, Option.elim_some, CaptureThread.converted, CaptureThread.decoded, List.map_cons, List.map_nil,
            List.cons_append, List.nil_append] at hk
          obtain ⟨picture,hpicture,htaken⟩ := hk.takeOff_ready
          refine ⟨[picture],by simp [FrameEvent.calledPicture, hpicture],keeps_iff_capture.mpr ?_⟩
          simpa [behind, hmode, List.filterMap_cons, FrameEvent.gone, FrameEvent.copiedPicture] using htaken
        · exact ⟨.inl rfl,id,hfollows rfl⟩
      | some func =>
        rcases hget : getFrame s.framePool s.allocated with ⟨callbackFrame,framePool,allocated⟩
        dsimp only at h
        rw [hget] at h
        cases h
        refine ⟨?_,?_⟩
        · simp only [Option.elim_some, CaptureThread.spare, Multiset.coe_nil, zero_add] at hk
          exact keepsAfter_nil (keeps_iff_capture.mpr (by simpa [behind] using kept_getFrame hget hk))
        · exact ⟨getFrame_allocated hget,id,hfollows rfl⟩
  | converting frame callbackFrame =>
    rw [captureStep] at h
    cases hpicture : mode.frameCallback.bind fun func => func.bind fun func => (s.memory frame).bind func with
    | none =>
      rw [hpicture] at h
      cases h
      refine ⟨?_,?_⟩
      · rw [List.append_assoc] at hk
        exact keepsAfter_recycle (keeps_iff_capture.mpr (by simpa [behind] using hk.drop))
      · exact ⟨.inl rfl,id,hfollows rfl⟩
    | some picture =>
      rw [hpicture] at h
      cases h
      refine ⟨?_,?_⟩
      · rw [List.append_assoc] at hk
        have hconvert := Kept.convert hk (callback_eq_some hpicture)
        exact keepsAfter_recycle (keeps_iff_capture.mpr (by simpa [behind, write] using hconvert))
      · exact ⟨.inl rfl,id,hfollows rfl⟩
  | calling callbackFrame =>
    cases h
    refine ⟨?_,?_⟩
    · simp only [Option.elim_some, CaptureThread.converted, CaptureThread.decoded, List.map_cons, List.map_nil,
        List.cons_append, List.nil_append] at hk
      obtain ⟨picture,hpicture,htaken⟩ := hk.takeOff_ready
      refine ⟨[picture],by simp [FrameEvent.calledPicture, hpicture],keeps_iff_capture.mpr ?_⟩
      simpa [behind, List.filterMap_cons, FrameEvent.gone, FrameEvent.copiedPicture] using htaken
    · exact ⟨.inl rfl,id,hfollows rfl⟩
  | recycling frame =>
    cases h
    refine ⟨keepsAfter_recycle (keeps_iff_capture.mpr (by simpa [behind] using hk)),?_⟩
    exact ⟨.inl rfl,id,hfollows rfl⟩

/-- A step moves frames between the pool, the line and the threads' hands, and it takes new ones only from an
empty pool. -/
theorem transition_spec {a : PreviewAction α} (hk : s.Keeps mode [] gone put taken) (hfollows : s.CaptureFollows)
    (h : transition mode s a = some (t,events)) :
    KeepsAfter mode t events gone put taken ∧ Regular s t := by
  cases a with
  | onFrame picture =>
    rw [transition] at h
    cases hstream : s.stream with
    | idle =>
      rw [hstream] at h
      dsimp only at h
      by_cases hstreaming : s.streaming
      · rw [if_pos hstreaming] at h
        by_cases hrun : s.isRunning
        · rcases hget : getFrame s.framePool s.allocated with ⟨copy,framePool,allocated⟩
          rw [if_pos hrun, hget] at h
          cases h
          refine ⟨?_,?_⟩
          · rw [keeps_iff_stream, hstream, Multiset.coe_nil, zero_add, StreamThread.spare, Multiset.coe_nil,
              zero_add] at hk
            exact keepsAfter_nil (keeps_iff_stream.mpr (by simpa [ahead] using kept_getFrame hget hk))
          · exact ⟨getFrame_allocated hget,id,id⟩
        · rw [if_neg hrun] at h
          cases h
          exact ⟨keepsAfter_nil hk,⟨.inl rfl,id,id⟩⟩
      · rw [if_neg hstreaming] at h
        cases h
    | _ =>
      rw [hstream] at h
      cases h
  | streamStep => exact streamStep_spec hk h
  | previewStep =>
    obtain ⟨thread,hthread,h⟩ := Option.bind_eq_some_iff.mp h
    exact previewStep_spec hk hthread hfollows h
  | captureStep =>
    obtain ⟨thread,hthread,h⟩ := Option.bind_eq_some_iff.mp h
    exact captureStep_spec hk hthread h
  | refuseStart =>
    rw [transition] at h
    by_cases hstarting : s.preview = some .starting
    · rw [if_pos hstarting] at h
      cases h
      refine ⟨?_,?_⟩
      · rw [keeps_iff_preview, hstarting] at hk
        exact keepsAfter_nil (keeps_iff_preview.mpr (by simpa [ahead, behind] using hk))
      · exact ⟨.inl rfl,id,fun _ hstarting => by simp at hstarting⟩
    · rw [if_neg hstarting] at h
      cases h
  | setPreviewDisplay window =>
    cases h
    exact ⟨keepsAfter_nil hk,⟨.inl rfl,id,id⟩⟩
  | startPreview =>
    rw [transition] at h
    split_ifs at h with hready hwindow
    · cases h
      rw [keeps_iff_preview, hready.2.2.1] at hk
      refine ⟨keepsAfter_nil (keeps_iff_preview.mpr (by simpa [ahead, behind] using hk)),?_⟩
      exact ⟨.inl rfl,id,fun _ _ => hready.2.2.2⟩
    · cases h
      exact ⟨keepsAfter_nil hk,.inl rfl,id,id⟩
  | stopPreview =>
    rw [transition] at h
    split_ifs at h
    cases h
    exact ⟨keepsAfter_nil hk,.inl rfl,id,id⟩
  | clearStopped =>
    rw [transition] at h
    split_ifs at h with hstopped
    cases h
    refine ⟨?_,?_⟩
    · simp only [keeps_iff_stream, ahead, hstopped.2.1, hstopped.2.2, Option.elim_none, List.map_nil, List.nil_append,
        List.append_nil, Multiset.coe_nil, zero_add] at hk
      rw [← List.nil_append (_ ++ s.previewFrames.map _)] at hk
      have hdrop := hk.drop
      have hheld : ((s.captureQueu.toList.map (·,mode.callback) ++ s.previewFrames.map (·,mode.shown)).map Prod.fst :
          Multiset ℕ) = (s.previewFrames ++ s.captureQueu.toList : List ℕ) := by
        rw [Multiset.coe_eq_coe, List.map_append, List.map_map, List.map_map]
        simpa [Function.comp_def] using List.perm_append_comm
      rw [hheld] at hdrop
      exact keepsAfter_recycle (keeps_iff_stream.mpr (by simpa [ahead, hstopped.2.1, hstopped.2.2] using hdrop))
    · exact ⟨.inl rfl,fun _ => Nat.zero_le _,id⟩

/-! ## What is lost -/

/-- The frames lost in a stretch of a run. -/
def lost (mode : PreviewMode α) (s : NativePreview α) (as : List (PreviewAction α)) : List ℕ :=
  (trace (step mode) (NativePreview.events mode) s as).filterMap FrameEvent.lostFrame

theorem step_eq_some {a : PreviewAction α} :
    step mode s a = some t ↔ ∃ events, transition mode s a = some (t,events) := by
  rw [step, Option.map_eq_some_iff]
  constructor
  · rintro ⟨⟨t,events⟩,h,rfl⟩
    exact ⟨events,h⟩
  · rintro ⟨events,h⟩
    exact ⟨(t,events),h,rfl⟩

theorem events_of_transition {a : PreviewAction α} (h : transition mode s a = some (t,events)) :
    s.events mode a = events := by
  rw [NativePreview.events, h]
  rfl

/-- The frames that are not in the pool. -/
def inUse (s : NativePreview α) : Multiset ℕ :=
  (s.stream.spare + s.stream.coded) +
    (s.preview.elim [] PreviewThread.spare + s.preview.elim [] PreviewThread.decoded +
      s.preview.elim [] PreviewThread.coded) +
    (s.capture.elim [] CaptureThread.spare + s.capture.elim [] CaptureThread.decoded +
      s.capture.elim [] CaptureThread.converted) + s.captureQueu.toList + s.previewFrames

/-- Every frame that there is. -/
def frames (s : NativePreview α) : Multiset ℕ := s.framePool + s.inUse

theorem spare_add_line (mode : PreviewMode α) : s.spare + (s.line mode).map Prod.fst = s.inUse := by
  simp only [line, ahead, behind, List.map_append, List.map_map, Function.comp_def, List.map_id', ← Multiset.coe_add,
    spare, inUse]
  abel

theorem card_inUse (hlen : s.previewFrames.length ≤ maxFrame) : Multiset.card s.inUse ≤ maxFrame + 6 := by
  have hstream : s.stream.spare.length + s.stream.coded.length ≤ 1 := by cases s.stream <;> simp
  have hpreview : (s.preview.elim [] PreviewThread.spare).length + (s.preview.elim [] PreviewThread.decoded).length +
      (s.preview.elim [] PreviewThread.coded).length ≤ 2 := by
    cases s.preview with
    | none => simp
    | some thread => cases thread <;> simp
  have hcapture : (s.capture.elim [] CaptureThread.spare).length + (s.capture.elim [] CaptureThread.decoded).length +
      (s.capture.elim [] CaptureThread.converted).length ≤ 2 := by
    cases s.capture with
    | none => simp
    | some thread => cases thread <;> simp
  have hqueue : s.captureQueu.toList.length ≤ 1 := by cases s.captureQueu <;> simp
  simp only [inUse, Multiset.card_add, Multiset.coe_card]
  omega

section
variable (mode : PreviewMode α) (as : List (PreviewAction α))

def allGone : List ℕ := (trace (step mode) (NativePreview.events mode) new as).filterMap FrameEvent.gone
def allCopied : List α := (trace (step mode) (NativePreview.events mode) new as).filterMap FrameEvent.copiedPicture
def allCalled : List (Option α) :=
  (trace (step mode) (NativePreview.events mode) new as).filterMap FrameEvent.calledPicture

end

theorem Keeps.frames_add (h : s.Keeps mode [] gone put taken) : s.frames + gone = Multiset.range s.allocated := by
  rw [← h.buffers, Multiset.coe_nil, zero_add, frames, ← spare_add_line mode, ← add_assoc]

/-- What holds after every run. -/
structure Accounted (mode : PreviewMode α) (as : List (PreviewAction α)) (s : NativePreview α) : Prop where
  kept : ∃ called, allCalled mode as = called.map some ∧
    s.Keeps mode [] (allGone mode as) ((allCopied mode as).filterMap mode.shown) called
  queued : s.previewFrames.length ≤ maxFrame
  capture : s.CaptureFollows
  bounded : Multiset.card s.frames ≤ maxFrame + 6

theorem Accounted.step {as : List (PreviewAction α)} {a : PreviewAction α} (he : exec (step mode) new as = some s)
    (h : s.Accounted mode as) (hstep : step mode s a = some t) : t.Accounted mode (as ++ [a]) := by
  obtain ⟨events,htransition⟩ := step_eq_some.mp hstep
  have hevents := events_of_transition htransition
  obtain ⟨called,hcalled,hk⟩ := h.kept
  obtain ⟨⟨called',hcalled',hk'⟩,hr⟩ := transition_spec hk h.capture htransition
  have hqueued := hr.queued h.queued
  refine ⟨⟨called ++ called',?_,?_⟩,hqueued,hr.capture h.capture,?_⟩
  · rw [allCalled, trace_append_singleton _ he, hevents, List.filterMap_append, hcalled', List.map_append, ← hcalled]
    rfl
  · rw [allGone, allCopied, trace_append_singleton _ he, hevents, List.filterMap_append, List.filterMap_append,
      List.filterMap_append]
    exact hk'
  · -- a frame is allocated only when the pool is empty
    rcases hr.allocated with hallocated | hpool
    · have hbefore := congrArg Multiset.card hk.frames_add
      have hafter := congrArg Multiset.card hk'.frames_add
      have hbounded := h.bounded
      rw [hallocated, Multiset.card_add, Multiset.card_range, Multiset.coe_card, List.length_append] at hafter
      rw [Multiset.card_add, Multiset.card_range, Multiset.coe_card] at hbefore
      omega
    · rw [frames, hpool, Multiset.coe_nil, zero_add]
      exact card_inUse hqueued

/-- A preview that is stopped has no thread and no frame outside the pool. -/
structure Settled (s : NativePreview α) : Prop where
  stream : s.streaming = false → s.stream = .idle
  streaming : s.preview = none ∨ s.preview = some .starting → s.streaming = false
  stopped : s.isRunning = false → s.clearing = false →
    s.preview = none ∧ s.capture = none ∧ s.previewFrames = [] ∧ s.captureQueu = none

theorem Settled.streamStep (hs : s.Settled) (h : s.streamStep = some (t,events)) : t.Settled := by
  obtain ⟨hstream,hstreaming,hstopped⟩ := hs
  refine ⟨?_,?_,?_⟩ <;> cases hthread : s.stream <;> grind [NativePreview.streamStep, recycle, write]

theorem Settled.previewStep {thread : PreviewThread} (hs : s.Settled) (hthread : s.preview = some thread)
    (h : s.previewStep mode thread = some (t,events)) : t.Settled := by
  obtain ⟨hstream,hstreaming,hstopped⟩ := hs
  refine ⟨?_,?_,?_⟩ <;> cases thread <;> grind [NativePreview.previewStep, recycle, write]

theorem Settled.captureStep {thread : CaptureThread} (hs : s.Settled) (hthread : s.capture = some thread)
    (h : s.captureStep mode thread = some (t,events)) : t.Settled := by
  obtain ⟨hstream,hstreaming,hstopped⟩ := hs
  refine ⟨?_,?_,?_⟩ <;> cases thread <;> grind [NativePreview.captureStep, recycle, write]

theorem Settled.step {a : PreviewAction α} (hs : s.Settled) (hstep : step mode s a = some t) : t.Settled := by
  obtain ⟨events,h⟩ := step_eq_some.mp hstep
  cases a with
  | streamStep => exact hs.streamStep h
  | previewStep =>
    obtain ⟨thread,hthread,h⟩ := Option.bind_eq_some_iff.mp h
    exact hs.previewStep hthread h
  | captureStep =>
    obtain ⟨thread,hthread,h⟩ := Option.bind_eq_some_iff.mp h
    exact hs.captureStep hthread h
  -- the other actions either need a preview that runs or leave its threads and queues alone
  | _ =>
    obtain ⟨hstream,hstreaming,hstopped⟩ := hs
    refine ⟨?_,?_,?_⟩ <;> grind [transition, recycle]

end AdSystem.Camera.NativePreview
