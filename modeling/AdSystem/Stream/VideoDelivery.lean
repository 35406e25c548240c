import AdSystem.Stream.VideoRoundTrip

/-! # Pictures from the sender to the player

Every picture belongs to the parameter sets that came last before it. The player hands its
decoder the pictures in their order, a key frame behind exactly these sets, as far as the
messages of the connection got through.
-/
namespace AdSystem.Stream

/-- A frame to be shown, with the parameter sets it was encoded under. -/
structure Picture where
  sps : Bytes
  pps : Bytes
  frame : Bytes
  timestamp : UInt32
deriving DecidableEq, Repr

/-- The parameter sets in force behind a frame. -/
def setsAfter (sets : Bytes × Bytes) (frame : Bytes) : Bytes × Bytes :=
  if frame = [] then sets
  else if nalType (frame.headD 0) = nalSPS then (spsDemux frame,sets.2)
  else if nalType (frame.headD 0) = nalPPS then (sets.1,frame)
  else sets

def inForce (frames : List (Bytes × UInt32)) : Bytes × Bytes :=
  frames.foldl (fun sets x => setsAfter sets x.1) ([],[])

/-- Without a parameter set there is nothing to be shown. -/
def pictureOf (sets : Bytes × Bytes) (x : Bytes × UInt32) : List Picture :=
  if isPicture x.1 ∧ sets.1 ≠ [] then [⟨sets.1,sets.2,x.1,x.2⟩] else []

def picturesFrom (sets : Bytes × Bytes) : List (Bytes × UInt32) → List Picture
  | [] => []
  | x :: rest => pictureOf sets x ++ picturesFrom (setsAfter sets x.1) rest

def pictures (frames : List (Bytes × UInt32)) : List Picture := picturesFrom ([],[]) frames

namespace Picture
variable (p : Picture)

/-- The parameter sets behind their start codes; an empty one is left out. -/
def header : Bytes :=
  StartCode.long.bytes ++ p.sps ++ if p.pps = [] then [] else StartCode.long.bytes ++ p.pps

/-- What the decoder is to be given: delimiters of access units are left out. -/
def h264Data : List H264Data :=
  if nalType (p.frame.headD 0) = nalAccessUnitDelimiter then []
  else if nalType (p.frame.headD 0) = nalIDR then
    [(p.header ++ StartCode.short.bytes ++ p.frame,p.timestamp)]
  else [(StartCode.long.bytes ++ p.frame,p.timestamp)]

/-- The sizes that the formats and the player's buffer have room for. -/
structure Sendable : Prop where
  sps : p.sps.length < 2 ^ 16
  pps : p.pps.length < 2 ^ 16
  frame : p.frame.length < 2 ^ 31
  fits : p.header.length + 4 + p.frame.length ≤ videoPayloadSize

end Picture

/-- The first length that is not one byte does not look like a start code. -/
def Readable (ps : List Picture) : Prop :=
  ∀ p ∈ ps.find? fun p => p.frame.length ≠ 1, ¬ (256 ≤ p.frame.length ∧ p.frame.length < 512)

theorem picturesFrom_append (sets : Bytes × Bytes) (xs ys : List (Bytes × UInt32)) :
    picturesFrom sets (xs ++ ys) =
      picturesFrom sets xs ++ picturesFrom (xs.foldl (fun sets x => setsAfter sets x.1) sets) ys := by
  induction xs generalizing sets with
  | nil => rfl
  | cons x xs ih => rw [List.cons_append, picturesFrom, ih, picturesFrom, List.append_assoc]; rfl

theorem pictures_append_singleton (xs : List (Bytes × UInt32)) (x : Bytes × UInt32) :
    pictures (xs ++ [x]) = pictures xs ++ pictureOf (inForce xs) x := by
  rw [pictures, picturesFrom_append, picturesFrom, picturesFrom, List.append_nil]
  rfl

theorem inForce_append_singleton (xs : List (Bytes × UInt32)) (x : Bytes × UInt32) :
    inForce (xs ++ [x]) = setsAfter (inForce xs) x.1 := by
  rw [inForce, List.foldl_append]
  rfl

section
variable {c : AvcCodec} {p : Picture} {frame bytes payload : Bytes} {frameType : UInt8} {timestamp : UInt32}

theorem demuxAppend_fits (h : payload.length + bytes.length ≤ videoPayloadSize) :
    demuxAppend payload bytes bytes.length = some (payload ++ bytes) := by
  rw [demuxAppend, if_neg (by omega), if_neg (by omega), List.take_length]

/-- What is handed on for one unit. -/
theorem gotUnits_single (hpic : isPicture frame)
    (hfits : payload.length + 4 + frame.length ≤ videoPayloadSize) :
    gotUnits timestamp payload [frame] = some (
      if nalType (frame.headD 0) = nalAccessUnitDelimiter then (payload,[])
      else if nalType (frame.headD 0) = nalIDR then ([],[(payload ++ StartCode.short.bytes ++ frame,timestamp)])
      else ([],[(payload ++ StartCode.long.bytes ++ frame,timestamp)])) := by
  have hne : frame ≠ [] := by
    rintro rfl
    revert hpic
    decide
  have hcode (code : StartCode) (hcode : code.bytes.length ≤ 4) :
      demuxAppend payload code.bytes code.bytes.length = some (payload ++ code.bytes) ∧
        demuxAppend (payload ++ code.bytes) frame frame.length = some (payload ++ code.bytes ++ frame) :=
    ⟨demuxAppend_fits (by omega),demuxAppend_fits (by rw [List.length_append]; omega)⟩
  have hshort := hcode .short (by decide)
  have hlong := hcode .long (by decide)
  have hkinds : nalIDR ≠ nalSPS ∧ nalIDR ≠ nalPPS ∧ nalIDR ≠ nalSEI ∧ nalIDR ≠ nalAccessUnitDelimiter ∧ nalIDR ≠ 0 ∧
    nalNonIDR ≠ nalSPS ∧ nalNonIDR ≠ nalPPS ∧ nalNonIDR ≠ nalSEI ∧ nalNonIDR ≠ nalAccessUnitDelimiter ∧
    nalNonIDR ≠ 0 ∧ nalNonIDR ≠ nalIDR := by decide
  rw [gotUnits, if_neg hne]
  rw [isPicture] at hpic
  generalize nalType (frame.headD 0) = type at hpic ⊢
  rcases hpic with rfl | rfl | rfl
  · simp [hkinds, gotUnits, hshort]
  · simp [hkinds, gotUnits, hlong]
  · simp [gotUnits]

/-- The codec knows the parameter sets of a picture. -/
structure AvcCodec.Knows (c : AvcCodec) (sps pps : Bytes) : Prop where
  nalUnitLength : c.nalUnitLength = 3
  avcExtraSize : c.avcExtraSize ≠ 0
  spsLength : c.sequenceParameterSetLength = sps.length
  sps : c.sequenceParameterSetNALUnit = sps
  ppsLength : c.pictureParameterSetLength = pps.length
  pps : pps ≠ [] → c.pictureParameterSetNALUnit = pps

theorem appendParameterSet_fits {unit : Bytes} {length : ℕ} (hlen : length = bytes.length)
    (hunit : bytes ≠ [] → unit = bytes) (hfits : payload.length + 4 + bytes.length ≤ videoPayloadSize) :
    appendParameterSet payload unit length =
      some (payload ++ if bytes = [] then [] else StartCode.long.bytes ++ bytes) := by
  subst hlen
  rw [appendParameterSet]
  by_cases hnil : bytes = []
  · subst hnil
    simp
  · have hcode : demuxAppend payload StartCode.long.bytes 4 = some (payload ++ StartCode.long.bytes) :=
      demuxAppend_fits (by change payload.length + 4 ≤ _; omega)
    have hbytes : demuxAppend (payload ++ StartCode.long.bytes) bytes bytes.length =
        some (payload ++ StartCode.long.bytes ++ bytes) :=
      demuxAppend_fits (by rw [List.length_append]; exact hfits)
    rw [if_pos (List.length_pos_iff.mpr hnil), if_neg hnil, hunit hnil, hcode, Option.bind_eq_bind,
      Option.bind_some, hbytes, List.append_assoc]

/-- What is handed on for the message of a picture. -/
theorem gotVideoSample_picture (hpic : isPicture p.frame) (hsps : p.sps ≠ []) (hc : c.Knows p.sps p.pps)
    (hs : p.Sendable) (hkind : frameType = frameKey ∨ frameType = frameInter) :
    gotVideoSample c [] p.timestamp (.single frameType p.frame) = some ([],p.h264Data) := by
  have hfits := hs.fits
  have hinfo : (CodecSample.single frameType p.frame).frameType ≠ frameVideoInfo := (frameType_byte hkind).2.2
  have hnalu : avcNALU ≠ avcSequenceHeader := by decide
  have hpacket : (CodecSample.single frameType p.frame).avcPacketType ≠ avcSequenceHeader := hnalu
  have hlen : p.header.length = 4 + p.sps.length + if p.pps = [] then 0 else 4 + p.pps.length := by
    rw [Picture.header]
    split_ifs <;> simp [StartCode.bytes] <;> omega
  have hspsAppend : appendParameterSet [] c.sequenceParameterSetNALUnit c.sequenceParameterSetLength =
      some (StartCode.long.bytes ++ p.sps) := by
    rw [appendParameterSet_fits hc.spsLength (fun _ => hc.sps) (by rw [List.length_nil]; omega), if_neg hsps]
    rfl
  have hppsAppend : appendParameterSet (StartCode.long.bytes ++ p.sps) c.pictureParameterSetNALUnit
      c.pictureParameterSetLength = some p.header := by
    refine appendParameterSet_fits hc.ppsLength hc.pps ?_
    by_cases hnil : p.pps = []
    · rw [hnil, List.length_append]
      simp only [hnil, if_true, StartCode.bytes, List.length_cons, List.length_nil] at hlen ⊢
      omega
    · rw [if_neg hnil] at hlen
      simp only [List.length_append, StartCode.bytes, List.length_cons, List.length_nil]
      omega
  rw [gotVideoSample, if_neg hinfo, if_neg fun h => hpacket h.2]
  by_cases hidr : nalType (p.frame.headD 0) = nalIDR
  · have hdelimiter : nalIDR ≠ nalAccessUnitDelimiter := by decide
    have hhas : (CodecSample.single frameType p.frame).hasIdr = true := decide_eq_true hidr
    rw [if_pos hhas, hspsAppend, Option.bind_eq_bind, Option.bind_some, hppsAppend, Option.bind_some]
    refine (gotUnits_single hpic hfits).trans ?_
    rw [Picture.h264Data, hidr, if_neg hdelimiter, if_pos rfl, if_neg hdelimiter, if_pos rfl]
  · have hhas : ¬ (CodecSample.single frameType p.frame).hasIdr = true := by
      rw [Bool.not_eq_true]
      exact decide_eq_false hidr
    rw [if_neg hhas]
    refine (gotUnits_single hpic (by rw [List.length_nil]; omega)).trans ?_
    rw [Picture.h264Data, if_neg hidr, if_neg hidr]
    split_ifs <;> rfl

/-- The pictures among the messages a player reads. -/
def readVideo (avcDemuxSps : Bytes → ℤ) : Player → List Message → Option (Player × List H264Data)
  | player, [] => some (player,[])
  | player, m :: ms =>
    if m.type = .video then
      (doReadVideo avcDemuxSps player m.timestamp m.data).bind fun (player,out) =>
        (readVideo avcDemuxSps player ms).map fun (player,outs) => (player,out ++ outs)
    else readVideo avcDemuxSps player ms

variable (d : Bytes → ℤ) {player : Player} {outs : List H264Data}

theorem readVideo_append {ms ns : List Message} (start : Player) (h : readVideo d start ms = some (player,outs)) :
    readVideo d start (ms ++ ns) = (readVideo d player ns).map fun r => (r.1,outs ++ r.2) := by
  induction ms generalizing start outs with
  | nil =>
    cases h
    simp
  | cons m ms ih =>
    rw [readVideo] at h
    rw [List.cons_append, readVideo]
    by_cases hm : m.type = .video
    · rw [if_pos hm, Option.bind_eq_some_iff] at h
      obtain ⟨⟨next,out⟩,hread,h⟩ := h
      rw [Option.map_eq_some_iff] at h
      obtain ⟨⟨last,rest⟩,hrest,heq⟩ := h
      cases heq
      rw [if_pos hm, hread, Option.bind_some]
      dsimp only
      rw [ih next hrest, Option.map_map]
      congr 1
      funext r
      exact Prod.ext rfl (List.append_assoc _ _ _).symm
    · rw [if_neg hm] at h ⊢
      exact ih start h

theorem readVideo_singleton {m : Message} (h : m.type = .video) :
    readVideo d player [m] = doReadVideo d player m.timestamp m.data := by
  rw [readVideo, if_pos h]
  cases doReadVideo d player m.timestamp m.data <;> simp [readVideo]

theorem readVideo_skip {ms : List Message} (h : ∀ m ∈ ms, m.type ≠ .video) :
    readVideo d player ms = some (player,[]) := by
  induction ms with
  | nil => rfl
  | cons m ms ih =>
    rw [List.forall_mem_cons] at h
    rw [readVideo, if_neg h.1, ih h.2]

/-- A sequence header gives the decoder nothing, and the player the parameter sets. -/
theorem doReadVideo_header {sps pps sh : Bytes} {dts pts : UInt32} (h : muxSequenceHeader sps pps = some sh)
    (hsps : sps.length < 2 ^ 16) (hpps : pps.length < 2 ^ 16) :
    doReadVideo d player timestamp (muxAvc2flv sh frameKey avcSequenceHeader dts pts) =
      some (⟨player.codec.configured sps pps sh,player.videoPayload⟩,[]) := by
  have hgot (c : AvcCodec) (payload : Bytes) :
      gotVideoSample c payload timestamp ⟨frameKey,avcSequenceHeader,false,[]⟩ = some (payload,[]) := rfl
  rw [doReadVideo, videoAvcDemux_header d dts pts h hsps hpps]
  simp only [hgot]
  split_ifs <;> rfl

theorem configured_knows {sps pps sh : Bytes} (h : muxSequenceHeader sps pps = some sh) :
    (c.configured sps pps sh).Knows sps pps where
  nalUnitLength := rfl
  avcExtraSize := by
    rw [muxSequenceHeader] at h
    split at h
    · cases h
    · rw [← Option.some.inj h]
      simp [AvcCodec.configured]
  spsLength := rfl
  sps := rfl
  ppsLength := rfl
  pps hne := if_pos (List.length_pos_iff.mpr hne)

/-- The message of a picture, read by a player that knows its parameter sets. -/
theorem doReadVideo_picture (hpayload : player.videoPayload = []) (hpic : isPicture p.frame) (hsps : p.sps ≠ [])
    (hc : player.codec.Knows p.sps p.pps) (hs : p.Sendable)
    (hformat : player.codec.payloadFormat = .ibmf ∨ ¬ (256 ≤ p.frame.length ∧ p.frame.length < 512))
    (hkind : frameType = frameKey ∨ frameType = frameInter) (dts pts : UInt32) :
    doReadVideo d player p.timestamp (muxAvc2flv (muxIpbFrame p.frame) frameType avcNALU dts pts) =
      some (⟨{player.codec with
        payloadFormat := nextFormat player.codec.payloadFormat p.frame
        videoCodecId := codecAVC},[]⟩,p.h264Data) := by
  have hne : p.frame ≠ [] := by
    intro h
    rw [h] at hpic
    revert hpic
    decide
  have hpacket : avcNALU ≠ avcSequenceHeader := by decide
  have hknows : ∀ format, ({player.codec with payloadFormat := format, videoCodecId := codecAVC} : AvcCodec).Knows
      p.sps p.pps := fun _ => ⟨hc.1,hc.2,hc.3,hc.4,hc.5,hc.6⟩
  have htaken : takenUnit player.codec.payloadFormat p.frame = p.frame := by
    rw [takenUnit, if_neg]
    rintro ⟨hnot,hmid⟩
    exact (hformat.resolve_left hnot) hmid
  have hfree : player.codec.payloadFormat ≠ .ibmf → looksLikeCode p.frame.length → codeFree p.frame := by
    rintro hnot (hone | hmid)
    · obtain ⟨b,hb⟩ := List.length_eq_one_iff.mp hone
      rw [hb] at hpic ⊢
      refine ⟨?_,fun i hi => ?_⟩
      · intro hzero
        rw [isPicture, hzero] at hpic
        revert hpic
        decide
      · have hi0 : i = 0 := by
          rw [List.length_singleton] at hi
          omega
        rw [hi0]
        rfl
    · exact absurd hmid (hformat.resolve_left hnot)
  have hdemux := demuxNalus_written (c := {player.codec with videoCodecId := codecAVC}) hc.nalUnitLength
    hne hs.frame hfree frameType
  have hextra : ¬ player.codec.avcExtraSize = 0 := hc.avcExtraSize
  rw [doReadVideo, videoAvcDemux_muxed d dts pts hkind, if_neg hpacket, if_pos rfl, if_neg hextra, hdemux]
  simp only [true_and, if_true, htaken, hpayload]
  rw [gotVideoSample_picture hpic hsps (hknows _) hs hkind]
  rfl

/-- Where a player is that has read the messages of a connection. -/
structure Linked (ctx : Context) (player : Player) (done : List (Bytes × UInt32)) : Prop where
  sets : (ctx.h264Sps,ctx.h264Pps) = inForce done
  payload : player.videoPayload = []
  format : player.codec.payloadFormat = .ibmf ∨ ∀ p ∈ pictures done, p.frame.length = 1
  unsent : ctx.h264SpsPpsSent = false → ctx.h264SpsChanged = false → ctx.h264PpsChanged = false →
    ctx.h264Sps = []
  sent : ctx.h264SpsPpsSent = true → ctx.h264SpsChanged = false → ctx.h264PpsChanged = false →
    ctx.h264Sps ≠ [] ∧ player.codec.Knows ctx.h264Sps ctx.h264Pps

/-- What a connection has sent so far is read as the pictures among its frames. -/
def VideoRead (ctx : Context) (done : List (Bytes × UInt32)) : Prop :=
  ∃ player, readVideo d .new (delivered ctx.sent) = some (player,(pictures done).flatMap Picture.h264Data) ∧
    Linked ctx player done

variable (net : Network) {ctx ctx' : Context} {ts : UInt32} {ret : ℤ} {done : List (Bytes × UInt32)}

/-- A frame that shows nothing changes the parameter sets at most. -/
theorem VideoRead.silent (h : VideoRead d ctx done) (hpics : pictureOf (inForce done) (frame,ts) = [])
    (hsets : (ctx'.h264Sps,ctx'.h264Pps) = setsAfter (inForce done) frame) (hsent : ctx'.sent = ctx.sent)
    (hflags : ctx'.h264SpsPpsSent = ctx.h264SpsPpsSent)
    (hchanged : ctx'.h264SpsChanged = true ∨ ctx'.h264PpsChanged = true ∨
      ctx'.h264SpsChanged = ctx.h264SpsChanged ∧ ctx'.h264PpsChanged = ctx.h264PpsChanged ∧
        ctx'.h264Sps = ctx.h264Sps ∧ ctx'.h264Pps = ctx.h264Pps) :
    VideoRead d ctx' (done ++ [(frame,ts)]) := by
  obtain ⟨player,hread,hl⟩ := h
  have hdone : pictures (done ++ [(frame,ts)]) = pictures done := by
    rw [pictures_append_singleton, hpics, List.append_nil]
  refine ⟨player,by rw [hsent, hdone, hread],?_⟩
  refine ⟨by rw [hsets, inForce_append_singleton],hl.payload,by rw [hdone]; exact hl.format,?_,?_⟩
  · intro hs hsps hpps
    rcases hchanged with h | h | ⟨h1,h2,h3,-⟩
    · exact absurd (h.symm.trans hsps) (by decide)
    · exact absurd (h.symm.trans hpps) (by decide)
    · rw [h3]
      exact hl.unsent (hflags ▸ hs) (h1 ▸ hsps) (h2 ▸ hpps)
  · intro hs hsps hpps
    rcases hchanged with h | h | ⟨h1,h2,h3,h4⟩
    · exact absurd (h.symm.trans hsps) (by decide)
    · exact absurd (h.symm.trans hpps) (by decide)
    · rw [h3, h4]
      exact hl.sent (hflags ▸ hs) (h1 ▸ hsps) (h2 ▸ hpps)

/-- A readable picture behind others that told the player nothing of the format. -/
theorem Readable.last {ps : List Picture} (h : Readable (ps ++ [p])) (hone : ∀ q ∈ ps, q.frame.length = 1) :
    ¬ (256 ≤ p.frame.length ∧ p.frame.length < 512) := by
  by_cases hp : p.frame.length = 1
  · omega
  · refine h p ?_
    have hnone : ps.find? (fun q => q.frame.length ≠ 1) = none := by
      rw [List.find?_eq_none]
      intro q hq
      simp [hone q hq]
    rw [List.find?_append, hnone, Option.none_or, List.find?_cons_of_pos (by simpa using hp)]
    rfl

/-- The decoder has been given what the frames of `done` show, and nothing else. -/
def Shows (ctx : Context) (done : List (Bytes × UInt32)) : Prop :=
  ∃ player, readVideo d .new (delivered ctx.sent) = some (player,(pictures done).flatMap Picture.h264Data)

theorem VideoRead.shows (h : VideoRead d ctx done) : Shows d ctx done := ⟨h.choose,h.choose_spec.1⟩

theorem muxSequenceHeader_ne_nil {sps pps sh : Bytes} (h : muxSequenceHeader sps pps = some sh) : sps ≠ [] := by
  rintro rfl
  rw [muxSequenceHeader, if_pos (by decide)] at h
  cases h

/-- Before a picture, the sequence header goes out if a parameter set has changed. -/
theorem VideoRead.spsPps (h : VideoRead d ctx done)
    (hsize : ctx.h264Sps ≠ [] → ctx.h264Sps.length < 2 ^ 16 ∧ ctx.h264Pps.length < 2 ^ 16)
    (hw : srsWriteH264SpsPps net ctx ts ts = some (ret,ctx')) :
    if ret = 0 then VideoRead d ctx' done ∧ ctx'.h264SpsChanged = false ∧ ctx'.h264PpsChanged = false
    else Shows d ctx' done ∧ ∃ sent m, net sent m = ret := by
  obtain ⟨player,hread,hl⟩ := h
  rw [srsWriteH264SpsPps] at hw
  by_cases hchanged : ctx.h264SpsChanged = false ∧ ctx.h264PpsChanged = false
  · rw [if_pos hchanged, Option.some.injEq, Prod.mk.injEq] at hw
    obtain ⟨rfl,rfl⟩ := hw
    exact ⟨⟨player,hread,hl⟩,hchanged⟩
  · rw [if_neg hchanged, Option.map_eq_some_iff] at hw
    obtain ⟨sh,hsh,hw⟩ := hw
    obtain ⟨hsps,hpps⟩ := hsize (muxSequenceHeader_ne_nil hsh)
    simp only [srsRtmpWritePacket, Prod.mk.injEq] at hw
    obtain ⟨hret,rfl⟩ := hw
    simp only [Shows, VideoRead, delivered_append, delivered_singleton, hret, readVideo_append d _ hread]
    by_cases hzero : ret = 0
    · simp only [hzero, if_true, readVideo_singleton]
      rw [doReadVideo_header d hsh hsps hpps]
      refine ⟨⟨⟨player.codec.configured ctx.h264Sps ctx.h264Pps sh,player.videoPayload⟩,?_,?_⟩,trivial,trivial⟩
      · rw [Option.map_some, List.append_nil]
      · refine ⟨hl.sets,hl.payload,hl.format,fun hs => absurd hs.symm Bool.false_ne_true,fun _ _ _ => ?_⟩
        exact ⟨muxSequenceHeader_ne_nil hsh,configured_knows hsh⟩
    · simp only [hzero, if_false]
      exact ⟨⟨player,by rw [readVideo, Option.map_some, List.append_nil]⟩,_,_,hret⟩

/-- A picture behind its sequence header. -/
theorem VideoRead.ipbFrame (h : VideoRead d ctx done) (hsps : ctx.h264SpsChanged = false)
    (hpps : ctx.h264PpsChanged = false) (hpic : isPicture frame)
    (hsend : ∀ p ∈ pictures (done ++ [(frame,ts)]), p.Sendable) (hreadable : Readable (pictures (done ++ [(frame,ts)])))
    (hnet : ∀ sent m, ¬ srsH264IsKnownError (net sent m))
    (hw : srsWriteH264IpbFrame net ctx frame ts ts = (ret,ctx')) :
    if ret = 0 ∨ srsH264IsKnownError ret then VideoRead d ctx' (done ++ [(frame,ts)]) else Shows d ctx' done := by
  have hne : frame ≠ [] := by
    rintro rfl
    revert hpic
    decide
  have hkinds : nalIDR ≠ nalSPS ∧ nalIDR ≠ nalPPS ∧ nalNonIDR ≠ nalSPS ∧ nalNonIDR ≠ nalPPS ∧
    nalAccessUnitDelimiter ≠ nalSPS ∧ nalAccessUnitDelimiter ≠ nalPPS := by decide
  have hafter : setsAfter (inForce done) frame = inForce done := by
    rw [setsAfter, if_neg hne]
    rw [isPicture] at hpic
    rcases hpic with h | h | h <;> rw [h] <;> simp [hkinds]
  have hsets := h.choose_spec.2.sets
  rw [srsWriteH264IpbFrame] at hw
  by_cases hsent : ctx.h264SpsPpsSent = false
  · rw [if_pos hsent, Prod.mk.injEq] at hw
    obtain ⟨rfl,rfl⟩ := hw
    rw [if_pos (.inr (.inl rfl))]
    have hnil := h.choose_spec.2.unsent hsent hsps hpps
    refine h.silent d ?_ (by rw [hafter, hsets]) rfl rfl (.inr (.inr ⟨rfl,rfl,rfl,rfl⟩))
    rw [pictureOf, if_neg]
    rintro ⟨_,hne'⟩
    rw [← hsets] at hne'
    exact hne' hnil
  · obtain ⟨player,hread,hl⟩ := h
    rw [if_neg hsent] at hw
    simp only [srsRtmpWritePacket, Prod.mk.injEq] at hw
    obtain ⟨hret,rfl⟩ := hw
    obtain ⟨hspsne,hknows⟩ := hl.sent (by simpa using hsent) hsps hpps
    have hpicture : pictureOf (inForce done) (frame,ts) = [⟨ctx.h264Sps,ctx.h264Pps,frame,ts⟩] := by
      rw [pictureOf, if_pos ⟨hpic,by rw [← hl.sets]; exact hspsne⟩, ← hl.sets]
    have hdone : pictures (done ++ [(frame,ts)]) = pictures done ++ [⟨ctx.h264Sps,ctx.h264Pps,frame,ts⟩] := by
      rw [pictures_append_singleton, hpicture]
    rw [hdone] at hsend hreadable
    have hp := hsend _ (List.mem_append_right _ (List.mem_singleton.mpr rfl))
    have hplain : player.codec.payloadFormat = .ibmf ∨ ¬ (256 ≤ frame.length ∧ frame.length < 512) :=
      hl.format.imp_right fun hone => hreadable.last hone
    have hkind : (if nalType (frame.headD 0) = nalIDR then frameKey else frameInter) = frameKey ∨
        (if nalType (frame.headD 0) = nalIDR then frameKey else frameInter) = frameInter := by
      split_ifs
      · exact .inl rfl
      · exact .inr rfl
    have hmsg := doReadVideo_picture d hl.payload hpic hspsne hknows hp hplain hkind ts ts
    by_cases hzero : ret = 0
    · rw [if_pos (.inl hzero)]
      refine ⟨⟨{player.codec with
        payloadFormat := nextFormat player.codec.payloadFormat frame
        videoCodecId := codecAVC},[]⟩,?_,?_⟩
      · rw [delivered_append, delivered_singleton, hret, if_pos hzero, readVideo_append d _ hread,
          readVideo_singleton d rfl, hmsg, Option.map_some, hdone, List.flatMap_append, List.flatMap_singleton]
      · refine ⟨by rw [inForce_append_singleton, hafter]; exact hl.sets,rfl,?_,?_,?_⟩
        · rw [hdone]
          by_cases hibmf : player.codec.payloadFormat = .ibmf
          · exact .inl (if_neg fun hnot => hnot.1 hibmf)
          · have hone := hl.format.resolve_left hibmf
            by_cases hlen : frame.length = 1
            · exact .inr (List.forall_mem_append.mpr ⟨hone,List.forall_mem_singleton.mpr hlen⟩)
            · refine .inl (if_neg ?_)
              rintro ⟨_,hlooks | hlooks⟩
              · exact hlen hlooks
              · exact (hplain.resolve_left hibmf) hlooks
        · exact fun hs => absurd hs hsent
        · exact fun _ _ _ => ⟨hspsne,⟨hknows.1,hknows.2,hknows.3,hknows.4,hknows.5,hknows.6⟩⟩
    · rw [if_neg]
      · refine ⟨player,?_⟩
        rw [delivered_append, delivered_singleton, hret, if_neg hzero, List.append_nil, hread]
      · rintro (h | h)
        · exact hzero h
        · exact hnet _ _ (hret ▸ h)

/-- The frame that a packet is taken for. -/
def frameOf (data : Bytes) : Bytes :=
  match annexbDemuxPri data with
  | .ok (frame,_) => frame
  | .error _ => []

/-- A packet is refused, or written as its frame. -/
theorem srsH264WriteRawFrames_cases (ctx : Context) (data : Bytes) (dts pts : UInt32) :
    (∃ e, e ≠ 0 ∧ ¬ srsH264IsKnownError e ∧ frameOf data = [] ∧
      srsH264WriteRawFrames net ctx data dts pts = some (e,ctx)) ∨
      srsH264WriteRawFrames net ctx data dts pts = srsWriteH264RawFrame net ctx (frameOf data) dts pts := by
  rw [srsH264WriteRawFrames]
  split_ifs with hnil
  · exact .inl ⟨_,by decide,by decide,by rw [hnil]; rfl,rfl⟩
  · rw [annexbDemuxPri, frameOf, annexbDemuxPri, if_neg (by simpa using hnil)]
    cases srsAvcStartswithAnnexb data with
    | none => exact .inl ⟨_,by decide,by decide,rfl,rfl⟩
    | some code =>
      refine .inr ?_
      dsimp only
      split_ifs with hframe
      · rw [srsWriteH264RawFrame, if_pos hframe]
      · rfl

theorem not_isPicture (h : nalType (frame.headD 0) = nalSPS ∨ nalType (frame.headD 0) = nalPPS) :
    ¬ isPicture frame := by
  rw [isPicture]
  rcases h with h | h <;> rw [h] <;> decide

theorem pictureOf_nil {sets : Bytes × Bytes} (h : ¬ isPicture frame) : pictureOf sets (frame,ts) = [] :=
  if_neg fun hp => h hp.1

theorem VideoRead.spsFrame (h : VideoRead d ctx done) (hne : frame ≠ []) (hsps : nalType (frame.headD 0) = nalSPS)
    (hw : srsWriteH264RawFrame net ctx frame ts ts = some (ret,ctx')) :
    (ret = 0 ∨ srsH264IsKnownError ret) ∧ VideoRead d ctx' (done ++ [(frame,ts)]) := by
  have hsets := h.choose_spec.2.sets
  have hpics : pictureOf (inForce done) (frame,ts) = [] := pictureOf_nil (not_isPicture (.inl hsps))
  have hafter : setsAfter (inForce done) frame = (spsDemux frame,ctx.h264Pps) := by
    rw [setsAfter, if_neg hne, if_pos hsps, ← hsets]
  simp only [srsWriteH264RawFrame, if_neg hne, if_pos hsps] at hw
  split at hw
  · rename_i hdup
    simp only [Option.some.injEq, Prod.mk.injEq] at hw
    obtain ⟨rfl,rfl⟩ := hw
    exact ⟨.inr (.inr (.inl rfl)),h.silent d hpics (by rw [hafter, hdup]) rfl rfl (.inr (.inr ⟨rfl,rfl,rfl,rfl⟩))⟩
  · simp only [Option.some.injEq, Prod.mk.injEq] at hw
    obtain ⟨rfl,rfl⟩ := hw
    exact ⟨.inl rfl,h.silent d hpics hafter.symm rfl rfl (.inl rfl)⟩

theorem VideoRead.ppsFrame (h : VideoRead d ctx done) (hne : frame ≠ []) (hpps : nalType (frame.headD 0) = nalPPS)
    (hw : srsWriteH264RawFrame net ctx frame ts ts = some (ret,ctx')) :
    (ret = 0 ∨ srsH264IsKnownError ret) ∧ VideoRead d ctx' (done ++ [(frame,ts)]) := by
  have hsets := h.choose_spec.2.sets
  have hpics : pictureOf (inForce done) (frame,ts) = [] := pictureOf_nil (not_isPicture (.inr hpps))
  have hsps : nalType (frame.headD 0) ≠ nalSPS := by
    rw [hpps]
    decide
  have hafter : setsAfter (inForce done) frame = (ctx.h264Sps,frame) := by
    rw [setsAfter, if_neg hne, if_neg hsps, if_pos hpps, ← hsets]
  rw [srsWriteH264RawFrame, if_neg hne, if_neg hsps, if_pos hpps] at hw
  split at hw
  · rename_i hdup
    simp only [Option.some.injEq, Prod.mk.injEq] at hw
    obtain ⟨rfl,rfl⟩ := hw
    exact ⟨.inr (.inr (.inr rfl)),h.silent d hpics (by rw [hafter, hdup]) rfl rfl (.inr (.inr ⟨rfl,rfl,rfl,rfl⟩))⟩
  · simp only [Option.some.injEq, Prod.mk.injEq] at hw
    obtain ⟨rfl,rfl⟩ := hw
    exact ⟨.inl rfl,h.silent d hpics hafter.symm rfl rfl (.inr (.inl rfl))⟩

/-- A frame that a connection is given is read as what it shows, or it did not get through. -/
theorem VideoRead.writeFrame (h : VideoRead d ctx done) (hsend : ∀ p ∈ pictures (done ++ [(frame,ts)]), p.Sendable)
    (hreadable : Readable (pictures (done ++ [(frame,ts)]))) (hnet : ∀ sent m, ¬ srsH264IsKnownError (net sent m))
    (hw : srsWriteH264RawFrame net ctx frame ts ts = some (ret,ctx')) :
    if ret = 0 ∨ srsH264IsKnownError ret then VideoRead d ctx' (done ++ [(frame,ts)]) else Shows d ctx' done := by
  have hsets := h.choose_spec.2.sets
  by_cases hsps : frame ≠ [] ∧ nalType (frame.headD 0) = nalSPS
  · obtain ⟨hret,hread⟩ := h.spsFrame d net hsps.1 hsps.2 hw
    rwa [if_pos hret]
  by_cases hpps : frame ≠ [] ∧ nalType (frame.headD 0) = nalPPS
  · obtain ⟨hret,hread⟩ := h.ppsFrame d net hpps.1 hpps.2 hw
    rwa [if_pos hret]
  by_cases hpic : isPicture frame
  · have hne : frame ≠ [] := by
      rintro rfl
      revert hpic
      decide
    rw [srsWriteH264RawFrame, if_neg hne, if_neg fun h => hsps ⟨hne,h⟩, if_neg fun h => hpps ⟨hne,h⟩, if_pos hpic,
      Option.map_eq_some_iff] at hw
    obtain ⟨⟨ret1,ctx1⟩,hfirst,hw⟩ := hw
    have hsize : ctx.h264Sps ≠ [] → ctx.h264Sps.length < 2 ^ 16 ∧ ctx.h264Pps.length < 2 ^ 16 := by
      intro hspsne
      have hp : (⟨ctx.h264Sps,ctx.h264Pps,frame,ts⟩ : Picture) ∈ pictures (done ++ [(frame,ts)]) := by
        rw [pictures_append_singleton, pictureOf, if_pos ⟨hpic,by rw [← hsets]; exact hspsne⟩, ← hsets]
        exact List.mem_append_right _ (List.mem_singleton.mpr rfl)
      exact ⟨(hsend _ hp).sps,(hsend _ hp).pps⟩
    have hheader := h.spsPps d net hsize hfirst
    dsimp only at hw
    by_cases hzero : ret1 = 0
    · rw [if_pos hzero] at hheader
      rw [if_neg (not_not.mpr hzero)] at hw
      exact hheader.1.ipbFrame d net hheader.2.1 hheader.2.2 hpic hsend hreadable hnet hw
    · rw [if_neg hzero] at hheader
      rw [if_pos hzero, Prod.mk.injEq] at hw
      obtain ⟨rfl,rfl⟩ := hw
      obtain ⟨hshows,sent,m,hanswer⟩ := hheader
      rw [if_neg (not_or.mpr ⟨hzero,hanswer ▸ hnet sent m⟩)]
      exact hshows
  · -- what is neither a parameter set nor a picture is passed over
    have hafter : setsAfter (inForce done) frame = inForce done := by
      rw [setsAfter]
      split_ifs with h1 h2 h3
      · rfl
      · exact absurd ⟨h1,h2⟩ hsps
      · exact absurd ⟨h1,h3⟩ hpps
      · rfl
    have hpass : (ret,ctx') = (0,ctx) := by
      rw [srsWriteH264RawFrame] at hw
      by_cases hne : frame = []
      · rw [if_pos hne] at hw
        exact (Option.some.inj hw).symm
      · rw [if_neg hne, if_neg fun h => hsps ⟨hne,h⟩, if_neg fun h => hpps ⟨hne,h⟩, if_neg hpic] at hw
        exact (Option.some.inj hw).symm
    cases hpass
    rw [if_pos (.inl rfl)]
    exact h.silent d (pictureOf_nil hpic) (by rw [hafter, hsets]) rfl rfl (.inr (.inr ⟨rfl,rfl,rfl,rfl⟩))

/-- The same for a packet. -/
theorem VideoRead.write {data : Bytes} (h : VideoRead d ctx done)
    (hsend : ∀ p ∈ pictures (done ++ [(frameOf data,ts)]), p.Sendable)
    (hreadable : Readable (pictures (done ++ [(frameOf data,ts)])))
    (hnet : ∀ sent m, ¬ srsH264IsKnownError (net sent m))
    (hw : srsH264WriteRawFrames net ctx data ts ts = some (ret,ctx')) :
    if ret = 0 ∨ srsH264IsKnownError ret then VideoRead d ctx' (done ++ [(frameOf data,ts)]) else Shows d ctx' done := by
  obtain ⟨e,hne,hunknown,_,heq⟩ | heq := srsH264WriteRawFrames_cases net ctx data ts ts
  · cases heq.symm.trans hw
    rw [if_neg (not_or.mpr ⟨hne,hunknown⟩)]
    exact h.shows
  · exact h.writeFrame d net hsend hreadable hnet (heq.symm.trans hw)

end
end AdSystem.Stream
