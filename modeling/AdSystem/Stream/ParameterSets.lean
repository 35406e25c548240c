import AdSystem.Stream.ConnectionRuns

/-! # Pictures without a parameter set

The sequence header is made of the parameter sets a connection keeps. Where the first set is
missing but another one has changed, the header is made all the same, and the writer reads behind
the end of an empty set.
-/
namespace AdSystem.Stream
open Transition

/-- A frame that a connection keeps as a parameter set. -/
def IsSet (frame : Bytes) : Prop :=
  frame ≠ [] ∧ (nalType (frame.headD 0) = nalSPS ∧ 4 ≤ frame.length ∨ nalType (frame.headD 0) = nalPPS)

/-- The parameter sets of a connection that has written these frames, and whether they have changed. -/
structure KeepsSets (ctx : Context) (frames : List (Bytes × UInt32)) : Prop where
  sets : (ctx.h264Sps,ctx.h264Pps) = inForce frames
  length : ctx.h264Sps ≠ [] → 4 ≤ ctx.h264Sps.length
  changed : ctx.h264Sps = [] →
    ((ctx.h264SpsChanged = true ∨ ctx.h264PpsChanged = true) ↔ ∃ x ∈ frames, IsSet x.1)

section
variable {net : Network} {ctx ctx' : Context} {frames : List (Bytes × UInt32)} {frame : Bytes} {ts dts pts : UInt32}
  {ret : ℤ}

theorem keepsSets_new : KeepsSets srsRtmpCreate [] := ⟨rfl,fun h => absurd rfl h,fun _ => by simp [srsRtmpCreate]⟩

/-- A set in force is one of the frames. -/
theorem exists_isSet (h : (inForce frames).1 ≠ [] ∨ (inForce frames).2 ≠ []) : ∃ x ∈ frames, IsSet x.1 := by
  induction frames using List.reverseRecOn with
  | nil => simp [inForce] at h
  | append_singleton frames x ih =>
    rw [inForce_append_singleton, setsAfter] at h
    split_ifs at h with hnil hsps hpps
    · obtain ⟨y,hy,hset⟩ := ih h
      exact ⟨y,List.mem_append_left _ hy,hset⟩
    · rw [spsDemux] at h
      split_ifs at h with hshort
      · obtain ⟨y,hy,hset⟩ := ih (h.imp_left fun h => absurd rfl h)
        exact ⟨y,List.mem_append_left _ hy,hset⟩
      · exact ⟨x,List.mem_append_right _ (List.mem_singleton.mpr rfl),hnil,.inl ⟨hsps,not_lt.mp hshort⟩⟩
    · exact ⟨x,List.mem_append_right _ (List.mem_singleton.mpr rfl),hnil,.inr hpps⟩
    · obtain ⟨y,hy,hset⟩ := ih h
      exact ⟨y,List.mem_append_left _ hy,hset⟩

theorem exists_isSet_append (h : ¬ IsSet frame) :
    (∃ x ∈ frames ++ [(frame,ts)], IsSet x.1) ↔ ∃ x ∈ frames, IsSet x.1 := by
  simp only [List.mem_append, List.mem_singleton, or_and_right, exists_or, exists_eq_left, h, or_false]

/-- A frame that is no set leaves the sets as they are. -/
theorem KeepsSets.other (h : KeepsSets ctx frames) (hnot : ¬ IsSet frame)
    (hafter : setsAfter (inForce frames) frame = inForce frames)
    (hsame : ctx'.h264Sps = ctx.h264Sps ∧ ctx'.h264Pps = ctx.h264Pps)
    (hflags : ctx.h264Sps = [] → ctx'.h264SpsChanged = ctx.h264SpsChanged ∧ ctx'.h264PpsChanged = ctx.h264PpsChanged) :
    KeepsSets ctx' (frames ++ [(frame,ts)]) := by
  refine ⟨?_,?_,?_⟩
  · rw [hsame.1, hsame.2, inForce_append_singleton, hafter]
    exact h.sets
  · rw [hsame.1]
    exact h.length
  · intro hnil
    rw [hsame.1] at hnil
    rw [(hflags hnil).1, (hflags hnil).2, exists_isSet_append hnot]
    exact h.changed hnil

theorem spsDemux_eq_nil (hne : frame ≠ []) : spsDemux frame = [] ↔ frame.length < 4 := by
  rw [spsDemux]
  split_ifs with hlt
  · exact iff_of_true rfl hlt
  · exact iff_of_false hne hlt

/-- The first parameter set. -/
theorem KeepsSets.spsFrame (h : KeepsSets ctx frames) (hne : frame ≠ []) (hsps : nalType (frame.headD 0) = nalSPS)
    (hw : srsWriteH264RawFrame net ctx frame dts pts = some (ret,ctx')) : KeepsSets ctx' (frames ++ [(frame,ts)]) := by
  have hsets := Prod.ext_iff.mp h.sets
  have hdiff : nalSPS ≠ nalPPS := by decide
  have hafter : inForce (frames ++ [(frame,ts)]) = (spsDemux frame,(inForce frames).2) := by
    rw [inForce_append_singleton, setsAfter, if_neg hne, if_pos hsps]
  have hset : IsSet frame ↔ spsDemux frame ≠ [] := by
    have hkept := (spsDemux_eq_nil hne).not
    rw [not_lt] at hkept
    rw [IsSet, hsps]
    exact ⟨fun h => hkept.mpr (h.2.resolve_right hdiff).2,fun h => ⟨hne,.inl ⟨rfl,hkept.mp h⟩⟩⟩
  rw [srsWriteH264RawFrame, if_neg hne, if_pos hsps] at hw
  dsimp only at hw
  split_ifs at hw with hdup
  · cases hw
    refine ⟨?_,h.length,fun hnil => ?_⟩
    · rw [hafter, ← hdup]
      exact Prod.ext rfl hsets.2
    · have hnot : ¬ IsSet frame := by
        rw [hset, ← hdup]
        exact not_not.mpr hnil
      rw [exists_isSet_append hnot]
      exact h.changed hnil
  · cases hw
    refine ⟨?_,fun hkept => ?_,fun hnil => iff_of_true (.inl rfl) ?_⟩
    · rw [hafter, ← hsets.2]
    · have hlen := (spsDemux_eq_nil hne).not.mp hkept
      rw [spsDemux, if_neg hlen]
      exact not_lt.mp hlen
    · -- a set of less than four bytes takes the place of one that was kept
      have hsome : (inForce frames).1 ≠ [] := by
        rw [← hsets.1]
        exact fun h => hdup (h.trans hnil.symm)
      obtain ⟨x,hx,hset⟩ := exists_isSet (.inl hsome)
      exact ⟨x,List.mem_append_left _ hx,hset⟩

/-- The second parameter set. -/
theorem KeepsSets.ppsFrame (h : KeepsSets ctx frames) (hne : frame ≠ []) (hpps : nalType (frame.headD 0) = nalPPS)
    (hw : srsWriteH264RawFrame net ctx frame dts pts = some (ret,ctx')) : KeepsSets ctx' (frames ++ [(frame,ts)]) := by
  have hsets := Prod.ext_iff.mp h.sets
  have hsps : nalType (frame.headD 0) ≠ nalSPS := by
    rw [hpps]
    decide
  have hafter : inForce (frames ++ [(frame,ts)]) = ((inForce frames).1,frame) := by
    rw [inForce_append_singleton, setsAfter, if_neg hne, if_neg hsps, if_pos hpps]
  have hset : ∃ x ∈ frames ++ [(frame,ts)], IsSet x.1 :=
    ⟨(frame,ts),List.mem_append_right _ (List.mem_singleton.mpr rfl),hne,.inr hpps⟩
  rw [srsWriteH264RawFrame, if_neg hne, if_neg hsps, if_pos hpps] at hw
  split_ifs at hw with hdup
  · cases hw
    refine ⟨?_,h.length,fun hnil => iff_of_true ((h.changed hnil).mpr (exists_isSet (.inr ?_))) hset⟩
    · rw [hafter, ← hdup]
      exact Prod.ext hsets.1 rfl
    · rw [← hsets.2]
      exact hdup ▸ hne
  · cases hw
    exact ⟨by rw [hafter]; exact Prod.ext hsets.1 rfl,h.length,fun _ => iff_of_true (.inr rfl) hset⟩

theorem srsWriteH264SpsPps_cases (hw : srsWriteH264SpsPps net ctx dts pts = some (ret,ctx')) :
    ctx' = ctx ∨ ctx.h264Sps ≠ [] ∧ ctx'.h264Sps = ctx.h264Sps ∧ ctx'.h264Pps = ctx.h264Pps := by
  rw [srsWriteH264SpsPps] at hw
  split_ifs at hw with hsame
  · cases hw
    exact .inl rfl
  · simp only [Option.map_eq_some_iff, srsRtmpWritePacket, Prod.mk.injEq] at hw
    obtain ⟨sh,hsh,_,rfl⟩ := hw
    exact .inr ⟨muxSequenceHeader_ne_nil hsh,rfl,rfl⟩

theorem KeepsSets.write (h : KeepsSets ctx frames) (hw : srsWriteH264RawFrame net ctx frame dts pts = some (ret,ctx')) :
    KeepsSets ctx' (frames ++ [(frame,ts)]) := by
  by_cases hne : frame = []
  · rw [srsWriteH264RawFrame, if_pos hne] at hw
    cases hw
    exact h.other (fun hset => hset.1 hne) (if_pos hne) ⟨rfl,rfl⟩ fun _ => ⟨rfl,rfl⟩
  by_cases hsps : nalType (frame.headD 0) = nalSPS
  · exact h.spsFrame hne hsps hw
  by_cases hpps : nalType (frame.headD 0) = nalPPS
  · exact h.ppsFrame hne hpps hw
  have hnot : ¬ IsSet frame := fun hset => hset.2.elim (fun h => hsps h.1) hpps
  have hafter : setsAfter (inForce frames) frame = inForce frames := by
    rw [setsAfter, if_neg hne, if_neg hsps, if_neg hpps]
  rw [srsWriteH264RawFrame, if_neg hne, if_neg hsps, if_neg hpps] at hw
  split_ifs at hw with hpic
  · simp only [Option.map_eq_some_iff, Prod.exists] at hw
    obtain ⟨ret1,ctx1,hheader,hw⟩ := hw
    have hframe : (ctx'.h264Sps = ctx1.h264Sps ∧ ctx'.h264Pps = ctx1.h264Pps) ∧
        ctx'.h264SpsChanged = ctx1.h264SpsChanged ∧ ctx'.h264PpsChanged = ctx1.h264PpsChanged := by
      split_ifs at hw
      · cases hw
        exact ⟨⟨rfl,rfl⟩,rfl,rfl⟩
      · rw [srsWriteH264IpbFrame] at hw
        split at hw
        · cases hw
          exact ⟨⟨rfl,rfl⟩,rfl,rfl⟩
        · simp only [srsRtmpWritePacket, Prod.mk.injEq] at hw
          obtain ⟨_,rfl⟩ := hw
          exact ⟨⟨rfl,rfl⟩,rfl,rfl⟩
    rcases srsWriteH264SpsPps_cases hheader with rfl | ⟨hsome,hsame⟩
    · exact h.other hnot hafter hframe.1 fun _ => hframe.2
    · exact h.other hnot hafter ⟨hframe.1.1.trans hsame.1,hframe.1.2.trans hsame.2⟩ fun hnil => absurd hnil hsome
  · cases hw
    exact h.other hnot hafter ⟨rfl,rfl⟩ fun _ => ⟨rfl,rfl⟩

/-- A picture cannot be written exactly when a set has been kept and the first one is missing. -/
theorem KeepsSets.write_eq_none (h : KeepsSets ctx frames) : srsWriteH264RawFrame net ctx frame dts pts = none ↔
    isPicture frame ∧ (inForce frames).1 = [] ∧ ∃ x ∈ frames, IsSet x.1 := by
  have hsets := Prod.ext_iff.mp h.sets
  rw [← hsets.1]
  have hpicture (hpic : isPicture frame) : frame ≠ [] ∧ nalType (frame.headD 0) ≠ nalSPS ∧
      nalType (frame.headD 0) ≠ nalPPS := by
    refine ⟨?_,?_,?_⟩
    · rintro rfl
      revert hpic
      decide
    · intro htype
      rw [isPicture, htype] at hpic
      revert hpic
      decide
    · intro htype
      rw [isPicture, htype] at hpic
      revert hpic
      decide
  by_cases hpic : isPicture frame
  · obtain ⟨hne,hsps,hpps⟩ := hpicture hpic
    rw [srsWriteH264RawFrame, if_neg hne, if_neg hsps, if_neg hpps, if_pos hpic, Option.map_eq_none_iff,
      srsWriteH264SpsPps]
    by_cases hsame : ctx.h264SpsChanged = false ∧ ctx.h264PpsChanged = false
    · rw [if_pos hsame]
      refine iff_of_false (by simp) ?_
      rintro ⟨_,hnil,hset⟩
      have hchanged := (h.changed hnil).mpr hset
      simp [hsame] at hchanged
    · rw [if_neg hsame, Option.map_eq_none_iff, muxSequenceHeader]
      have hchanged : ctx.h264SpsChanged = true ∨ ctx.h264PpsChanged = true := by
        by_contra hnot
        simp only [not_or, Bool.not_eq_true] at hnot
        exact hsame hnot
      by_cases hnil : ctx.h264Sps = []
      · rw [if_pos (by rw [hnil]; decide)]
        exact iff_of_true rfl ⟨hpic,hnil,(h.changed hnil).mp hchanged⟩
      · rw [if_neg (not_lt.mpr (h.length hnil))]
        exact iff_of_false (by simp) fun h => hnil h.2.1
  · refine iff_of_false ?_ fun h => hpic h.1
    rw [srsWriteH264RawFrame, if_neg hpic]
    dsimp only
    split_ifs <;> simp

end

namespace AnyRtmpPush

theorem keepsSets_keptBy (sound : SoundFormat) :
    KeptBy (fun _ => True) sound fun ctx packets => KeepsSets ctx (videoOf packets) := by
  intro net ctx l e ret ctx' _ hkeeps hmeta hwrite hpass
  cases htype : e.type with
  | videoData =>
    have hvideo : videoOf (l ++ [e]) = videoOf l ++ [(frameOf e.data,e.dts)] := by
      simp [videoOf, htype]
    simp only [AnyRtmpPush.write, htype] at hwrite
    obtain ⟨ret',hne,hunknown,_,heq⟩ | heq := srsH264WriteRawFrames_cases net ctx e.data e.dts e.dts
    · cases heq.symm.trans hwrite
      exact absurd hpass (not_or.mpr ⟨hne,fun h => hunknown h.2⟩)
    · rw [hvideo]
      exact hkeeps.write (heq.symm.trans hwrite)
  | audioData =>
    have hvideo : videoOf (l ++ [e]) = videoOf l := by
      simp [videoOf, htype]
    simp only [AnyRtmpPush.write, htype] at hwrite
    obtain ⟨hsps,hpps,_,hspsChanged,hppsChanged⟩ := (srsAudioWriteRawFrame_adds hwrite).sets (by decide)
    rw [hvideo]
    refine ⟨by rw [hsps, hpps]; exact hkeeps.sets,by rw [hsps]; exact hkeeps.length,?_⟩
    rw [hsps, hspsChanged, hppsChanged]
    exact hkeeps.changed
  | metaData => exact absurd htype hmeta

/-- Over every run, the writing of a video packet reads behind the end of a parameter set exactly when the
packet is a picture, a parameter set was kept on this connection, and no sequence parameter set is in force. -/
theorem picture_faults_iff (sound : SoundFormat) (as : List PushAction) (t : AnyRtmpPush)
    (he : exec step (new sound) as = some t) (packets : List EncData) (hsince : sentSince sound as = some packets)
    (ctx : Context) (hctx : t.rtmp = some ctx) (e : EncData) (hturn : t.turn = some (.sending (some e)))
    (htype : e.type = .videoData) (net : Network) (now later : ℤ) :
    transition t (.writeData net now later) = none ↔
      isPicture (frameOf e.data) ∧ (inForce (videoOf packets)).1 = [] ∧ ∃ x ∈ videoOf packets, IsSet x.1 := by
  have hkeeps : KeepsSets ctx (videoOf packets) :=
    (connection_keeps (K := fun ctx packets => KeepsSets ctx (videoOf packets)) keepsSets_new
      (keepsSets_keptBy sound) (fun a _ => by cases a <;> trivial) he).serves.serves packets ctx hsince hctx
  rw [← hkeeps.write_eq_none]
  have hnone : transition t (.writeData net now later) = none ↔
      srsH264WriteRawFrames net ctx e.data e.dts e.dts = none := by
    simp only [transition, hturn, hctx, doSendData, htype, Option.map_eq_none_iff]
  rw [hnone]
  obtain ⟨ret,_,_,hframe,heq⟩ | heq := srsH264WriteRawFrames_cases net ctx e.data e.dts e.dts
  · rw [heq, hframe]
    exact iff_of_false (Option.some_ne_none _) (Option.some_ne_none _)
  · rw [heq]

/-- A key frame whose first parameter set is one byte long. -/
def shortSetRun : List PushAction :=
  [.beginTurn,.answered true,.beginTurn,.answered true,.beginTurn,.answered true,.clear,
    .setH264Data [0,0,0,1,0x67,0,0,0,1,0x68,0xce,0,0,0,1,0x65,0x88] 40,.checkKeyframe,
    .queueData,.queueData,.queueData,.beginTurn,.takeData,.writeData (fun _ _ => 0) 0 0,
    .beginTurn,.takeData,.writeData (fun _ _ => 0) 0 0,.beginTurn,.takeData]

theorem picture_faults_shortSet : ∃ t, exec step (new ⟨codecAAC,3,1,0⟩) shortSetRun = some t ∧
    transition t (.writeData (fun _ _ => 0) 0 0) = none := by
  have hrun : ((exec step (new ⟨codecAAC,3,1,0⟩) shortSetRun).bind fun t => t.rtmp.map fun ctx => (ctx,t.turn)).map
      Prod.snd = some (some (.sending (some ⟨[0,0,0,1,0x65,0x88],.videoData,40⟩))) := by decide +kernel
  obtain ⟨⟨ctx,turn⟩,hrun,hturn⟩ := Option.map_eq_some_iff.mp hrun
  obtain ⟨t,he,hrun⟩ := Option.bind_eq_some_iff.mp hrun
  obtain ⟨ctx,hctx,hpair⟩ := Option.map_eq_some_iff.mp hrun
  cases hpair
  refine ⟨t,he,(picture_faults_iff _ shortSetRun t he
    [⟨[0,0,0,1,0x67],.videoData,40⟩,⟨[0,0,0,1,0x68,0xce],.videoData,40⟩] (by decide +kernel) ctx hctx _ hturn rfl
      (fun _ _ => 0) 0 0).mpr ⟨by decide,by decide,([0x68,0xce],40),by decide,by decide,.inr (by decide)⟩⟩

end AnyRtmpPush
end AdSystem.Stream
