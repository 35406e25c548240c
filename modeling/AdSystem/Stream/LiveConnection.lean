import AdSystem.Stream.PushQueue
import AdSystem.Stream.SoundDelivery
import AdSystem.Stream.VideoDelivery

/-! # What a live connection has sent

Pictures and sounds go out on one connection. Neither disturbs what is read of the other, so that a
player reads what the thread has taken from its queue since the connection was made.
-/
namespace AdSystem.Stream
open Transition

/-- A connection goes on with messages of one kind. -/
structure Context.Adds (kind : MessageType) (ctx ctx' : Context) : Prop where
  sent : ∃ more, ctx'.sent = ctx.sent ++ more ∧ ∀ m ∈ more, m.1.type = kind
  sets : kind ≠ .video → ctx'.h264Sps = ctx.h264Sps ∧ ctx'.h264Pps = ctx.h264Pps ∧
    ctx'.h264SpsPpsSent = ctx.h264SpsPpsSent ∧ ctx'.h264SpsChanged = ctx.h264SpsChanged ∧
    ctx'.h264PpsChanged = ctx.h264PpsChanged
  config : kind ≠ .audio → ctx'.aacSpecificConfig = ctx.aacSpecificConfig

section
variable {kind : MessageType} {ctx ctx' ctx'' : Context} {net : Network} {ret : ℤ} {data frame : Bytes}
  {ts dts pts : UInt32} {sound : SoundFormat} {codec : RawAacStreamCodec}

theorem Context.Adds.refl (kind : MessageType) (ctx : Context) : ctx.Adds kind ctx :=
  ⟨⟨[],(List.append_nil _).symm,List.forall_mem_nil _⟩,fun _ => ⟨rfl,rfl,rfl,rfl,rfl⟩,fun _ => rfl⟩

theorem Context.Adds.trans (h : ctx.Adds kind ctx') (h' : ctx'.Adds kind ctx'') : ctx.Adds kind ctx'' := by
  obtain ⟨more,hsent,hmore⟩ := h.sent
  obtain ⟨more',hsent',hmore'⟩ := h'.sent
  refine ⟨⟨more ++ more',?_,List.forall_mem_append.mpr ⟨hmore,hmore'⟩⟩,fun hk => ?_,fun hk => ?_⟩
  · rw [hsent', hsent, List.append_assoc]
  · obtain ⟨h1,h2,h3,h4,h5⟩ := h.sets hk
    obtain ⟨h1',h2',h3',h4',h5'⟩ := h'.sets hk
    exact ⟨h1'.trans h1,h2'.trans h2,h3'.trans h3,h4'.trans h4,h5'.trans h5⟩
  · exact (h'.config hk).trans (h.config hk)

theorem srsRtmpWritePacket_adds (kind : MessageType) (net : Network) (ctx : Context) (ts : UInt32) (data : Bytes) :
    ctx.Adds kind (srsRtmpWritePacket net ctx ⟨kind,ts,data⟩).2 :=
  ⟨⟨[(⟨kind,ts,data⟩,net ctx.sent ⟨kind,ts,data⟩)],rfl,List.forall_mem_singleton.mpr rfl⟩,
    fun _ => ⟨rfl,rfl,rfl,rfl,rfl⟩,fun _ => rfl⟩

theorem Context.Adds.of_eq {r : ℤ × Context} (h : ctx.Adds kind r.2) (hr : r = (ret,ctx')) : ctx.Adds kind ctx' := by
  subst hr
  exact h

theorem srsWriteAacAdtsFrame_adds {body : Option Bytes}
    (h : srsWriteAacAdtsFrame net ctx codec body ts = some (ret,ctx')) : ctx.Adds .audio ctx' := by
  have hwrite (ctx : Context) (h : (body.map fun frame =>
      srsWriteAudioRawFrame net ctx frame {codec with aacPacketType := 1} ts) = some (ret,ctx')) :
      ctx.Adds .audio ctx' := by
    rw [Option.map_eq_some_iff] at h
    obtain ⟨frame,_,h⟩ := h
    exact (srsRtmpWritePacket_adds .audio net ctx _ _).of_eq h
  rw [srsWriteAacAdtsFrame] at h
  split at h
  · split at h
    · cases h
      exact .refl _ _
    · rename_i sh _
      have hconfig : ctx.Adds .audio {ctx with aacSpecificConfig := sh} :=
        ⟨⟨[],(List.append_nil _).symm,List.forall_mem_nil _⟩,fun _ => ⟨rfl,rfl,rfl,rfl,rfl⟩,fun h => absurd rfl h⟩
      have hheader := hconfig.trans (srsRtmpWritePacket_adds .audio net _ ts
        (muxAac2flv sh {codec with aacPacketType := 0}))
      dsimp only at h
      split_ifs at h with hret
      · cases h
        exact hheader
      · exact hheader.trans (hwrite _ h)
  · exact hwrite _ h

theorem aacAdtsFrames_adds {fuel : ℕ} (h : aacAdtsFrames net sound ts fuel ctx data = some (ret,ctx')) :
    ctx.Adds .audio ctx' := by
  induction fuel generalizing ctx data with
  | zero =>
    cases h
    exact .refl _ _
  | succ fuel ih =>
    rw [aacAdtsFrames] at h
    split at h
    · cases h
      exact .refl _ _
    · split at h
      · cases h
        exact .refl _ _
      · simp only [Option.bind_eq_some_iff, Prod.exists] at h
        obtain ⟨ret1,ctx1,hfirst,h⟩ := h
        have hadds := srsWriteAacAdtsFrame_adds hfirst
        split_ifs at h with hret
        · cases h
          exact hadds
        · exact hadds.trans (ih h)

/-- A buffer of sound adds messages of sound. -/
theorem srsAudioWriteRawFrame_adds (h : srsAudioWriteRawFrame net ctx sound data ts = some (ret,ctx')) :
    ctx.Adds .audio ctx' := by
  rw [srsAudioWriteRawFrame] at h
  split at h
  · split at h
    · cases h
      exact .refl _ _
    · rw [srsWriteAacAdtsFrames] at h
      split at h
      · cases h
        exact .refl _ _
      · exact aacAdtsFrames_adds h
  · exact (srsRtmpWritePacket_adds .audio net ctx _ _).of_eq (Option.some.inj h)

theorem Context.Adds.delivered (h : ctx.Adds kind ctx') :
    ∃ more, delivered ctx'.sent = delivered ctx.sent ++ more ∧ ∀ m ∈ more, m.type = kind := by
  obtain ⟨more,hsent,hmore⟩ := h.sent
  refine ⟨Stream.delivered more,by rw [hsent, delivered_append],fun m hm => ?_⟩
  obtain ⟨x,hx,rfl⟩ := List.mem_map.mp hm
  exact hmore x (List.mem_filter.mp hx).1

/-- Sounds do not disturb the pictures. -/
theorem VideoRead.sounds {d : Bytes → ℤ} {done : List (Bytes × UInt32)} (h : VideoRead d ctx done)
    (hadds : ctx.Adds .audio ctx') : VideoRead d ctx' done := by
  obtain ⟨player,hread,hl⟩ := h
  obtain ⟨more,hmore,hkind⟩ := hadds.delivered
  obtain ⟨hsps,hpps,hsent,hspsChanged,hppsChanged⟩ := hadds.sets (by decide)
  have hskip : readVideo d player more = some (player,[]) :=
    readVideo_skip d fun m hm => by
      rw [hkind m hm]
      decide
  refine ⟨player,by rw [hmore, readVideo_append d _ hread, hskip, Option.map_some, List.append_nil],?_⟩
  refine ⟨by rw [hsps, hpps]; exact hl.sets,hl.payload,hl.format,?_,?_⟩
  · rw [hsent, hspsChanged, hppsChanged, hsps]
    exact hl.unsent
  · rw [hsent, hspsChanged, hppsChanged, hsps, hpps]
    exact hl.sent

/-- Pictures do not disturb the sounds. -/
theorem SoundsRead.pictures {done : List (AacFrame × UInt32)} (h : SoundsRead sound ctx done)
    (hadds : ctx.Adds .video ctx') : SoundsRead sound ctx' done := by
  obtain ⟨more,hmore,hkind⟩ := hadds.delivered
  have hconfig := hadds.config (by decide)
  have hsame : readSounds .new (Stream.delivered ctx'.sent) = readSounds .new (Stream.delivered ctx.sent) := by
    have hskip (c : AacCodec) : readSounds c more = (c,[]) :=
      readSounds_skip fun m hm => by
        rw [hkind m hm]
        decide
    rw [hmore, readSounds_append, hskip, List.append_nil]
  cases done with
  | nil => exact ⟨hconfig.trans h.1,by rw [hsame]; exact h.2⟩
  | cons x rest => exact ⟨by rw [hconfig]; exact h.1,h.2.1,by rw [hsame]; exact h.2.2⟩

end

/-- The frames of the video packets among others. -/
def videoOf (packets : List EncData) : List (Bytes × UInt32) :=
  packets.flatMap fun e => if e.type = .videoData then [(frameOf e.data,e.dts)] else []

/-- The sound packets among others. -/
def soundOf (packets : List EncData) : List (Bytes × UInt32) :=
  packets.flatMap fun e => if e.type = .audioData then [(e.data,e.dts)] else []

/-- Every sound packet is a frame as the player takes it. -/
def SoundFrames (packets : List EncData) : Prop :=
  ∀ e ∈ packets, e.type = .audioData → ∃ f : AacFrame, f.bytes = e.data

/-- What a player reads of a connection that has sent these packets. -/
structure Carries (d : Bytes → ℤ) (sound : SoundFormat) (ctx : Context) (packets : List EncData) : Prop where
  video : (∀ p ∈ pictures (videoOf packets), p.Sendable) → Readable (pictures (videoOf packets)) →
    VideoRead d ctx (videoOf packets)
  sounds : SoundFrames packets →
    ∃ frames : List (AacFrame × UInt32), frames.map (fun x => (x.1.bytes,x.2)) = soundOf packets ∧
      SoundsRead sound ctx frames

section
variable {d : Bytes → ℤ} {sound : SoundFormat} {net : Network} {ctx ctx' : Context} {packets : List EncData}
  {e : EncData} {ret : ℤ}

theorem Readable.of_append {ps qs : List Picture} (h : Readable (ps ++ qs)) : Readable ps := by
  intro p hp
  refine h p ?_
  rw [List.find?_append, Option.mem_def.mp hp, Option.some_or]
  rfl

end
end AdSystem.Stream
