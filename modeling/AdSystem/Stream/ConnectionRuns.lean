import AdSystem.Stream.LiveConnection

/-! # From the encoders to the player

Over every run of the pushing thread: on the connection that lives, the player reads the packets
that were taken since it was made, and these begin with a key frame.
-/
namespace AdSystem.Stream
open Transition Observer

/-- A condition on the network, where an action uses it. -/
def PushAction.Uses (G : Network → Prop) : PushAction → Prop
  | .writeData net _ _ => G net
  | _ => True

/-- A call of the video encoder. -/
structure FrameCall where
  data : Bytes
  ts : UInt32
deriving DecidableEq, Repr

def FrameCall.type (c : FrameCall) : Option UInt8 := c.data[4]?.map nalType

/-- The whole of what a call queues when it is let through. -/
def FrameCall.packets (c : FrameCall) : List EncData :=
  c.type.elim [] fun type => (nalPieces c.data type).map fun nal => ⟨nal,.videoData,c.ts⟩

def PushAction.frameCalls : PushAction → List FrameCall
  | .setH264Data p ts => [⟨p,ts⟩]
  | _ => []

namespace AnyRtmpPush

/-- The packets freed on the connection that lives, if one does. -/
def onConnection : Option (List EncData) → PushEvent → Option (List EncData)
  | _, .callback .onRtmpConnected => some []
  | _, .callback (.onRtmpReconnecting _) => none
  | _, .callback .onRtmpDisconnect => none
  | packets, .freed e => packets.map (· ++ [e])
  | packets, _ => packets

def sentSince (sound : SoundFormat) (as : List PushAction) : Option (List EncData) :=
  (trace step AnyRtmpPush.events (new sound) as).foldl onConnection none

section
variable {s t : AnyRtmpPush} {events : List PushEvent} {a : PushAction} {q r : Session}
  {packets : Option (List EncData)}

theorem next_live {b : Report} (h : Session.next q b = some .live) : b = .connected ∨ q = .live ∧ b = .statusEvent := by
  cases q <;> cases b <;> simp_all [Session.next]

/-- The application knows of the connection. -/
theorem live_iff (h : exec Session.next q (events.flatMap report) = some r) (hq : q = .live ↔ packets.isSome) :
    r = .live ↔ (events.foldl onConnection packets).isSome := by
  induction events generalizing q packets with
  | nil =>
    cases h
    exact hq
  | cons event events ih =>
    rw [List.flatMap_cons] at h
    obtain ⟨p,hp,h⟩ := (exec_append_eq_some _).mp h
    refine ih h ?_
    rcases event with e | e | e | callback
    · cases hp; exact hq
    · cases hp; exact hq
    · cases hp
      rw [hq, onConnection, Option.isSome_map]
    · cases callback with
      | onRtmpConnected =>
        obtain ⟨_,hnext,hp⟩ := (exec_cons_eq_some _).mp hp
        cases hp
        cases q <;> cases hnext
        exact iff_of_true rfl rfl
      | onRtmpReconnecting times =>
        obtain ⟨_,hnext,hp⟩ := (exec_cons_eq_some _).mp hp
        cases hp
        refine iff_of_false ?_ (by simp [onConnection])
        rintro rfl
        obtain h | ⟨_,h⟩ := next_live hnext <;> cases h
      | onRtmpDisconnect =>
        obtain ⟨_,hnext,hp⟩ := (exec_cons_eq_some _).mp hp
        cases hp
        refine iff_of_false ?_ (by simp [onConnection])
        rintro rfl
        obtain h | ⟨_,h⟩ := next_live hnext <;> cases h
      | onRtmpStatusEvent delayMs netBand =>
        obtain ⟨_,hnext,hp⟩ := (exec_cons_eq_some _).mp hp
        cases hp
        cases q <;> cases hnext
        exact hq

theorem Follows.live_of_sending {data : Option EncData} (h : Follows q s ∨ s.Dead)
    (hturn : s.turn = some (.sending data)) : q = .live := by
  rcases h with h | h
  · cases q with
    | connecting r =>
      obtain ⟨h | ⟨_,h⟩,_⟩ | ⟨h,_⟩ := h <;> cases h.symm.trans hturn
    | live => rfl
    | ended => exact h.elim
  · cases h.1.symm.trans hturn

theorem Follows.not_live_of_clearing (h : Follows q s ∨ s.Dead) (hturn : s.turn = some .clearing) : q ≠ .live := by
  rintro rfl
  rcases h with ⟨h | h | ⟨_,h⟩,_⟩ | h
  · cases h.symm.trans hturn
  · cases h.symm.trans hturn
  · cases h.symm.trans hturn
  · cases h.1.symm.trans hturn

theorem foldl_taken_freed (l : List EncData) :
    (l.flatMap fun e => [.taken e,.freed e]).foldl onConnection packets = packets.map (· ++ l) := by
  induction l generalizing packets with
  | nil => simp
  | cons e l ih =>
    rw [List.flatMap_cons, List.foldl_append, ih]
    cases packets <;> simp [onConnection]

theorem foldl_statics (s : AnyRtmpPush) (now later : ℤ) :
    (s.statics now later).2.foldl onConnection packets = packets := by
  obtain ⟨_,_,_,heq⟩ | ⟨_,heq⟩ := s.statics_cases now later <;> rw [heq] <;> rfl

theorem Moves.sound (h : Moves s a t events) : t.sound = s.sound := by
  cases h with
  | refuse _ =>
    obtain ⟨⟨_,_,_,_,heq⟩,_⟩ := callDisconnect_frame {s with turn := none}
    rw [heq]
  | fail _ _ _ _ _ =>
    obtain ⟨⟨_,_,_,_,heq⟩,_⟩ := callDisconnect_frame {s with turn := none, rtmp := _}
    rw [heq]
  | sendNothing _ _ =>
    obtain ⟨⟨_,_,heq⟩,_⟩ := statics_frame {s with turn := none} _ _
    rw [heq]
  | send _ _ _ _ _ =>
    obtain ⟨⟨_,_,heq⟩,_⟩ := statics_frame {s with turn := none, rtmp := _, netBand := _} _ _
    rw [heq]
  | _ => rfl

/-- The connection is a new one, or the property holds of it and of its packets. -/
structure Serves (K : Context → List EncData → Prop) (s : AnyRtmpPush) (packets : Option (List EncData)) : Prop where
  fresh : packets = none → ∀ ctx, s.rtmp = some ctx → ctx = srsRtmpCreate
  serves : ∀ l ctx, packets = some l → s.rtmp = some ctx → K ctx l

/-- Every packet that goes through keeps the property. -/
def KeptBy (G : Network → Prop) (sound : SoundFormat) (K : Context → List EncData → Prop) : Prop :=
  ∀ net ctx l e ret ctx', G net → K ctx l → e.type ≠ .metaData → write net sound ctx e = some (ret,ctx') →
    Passes e ret → K ctx' (l ++ [e])

variable {K : Context → List EncData → Prop} {G : Network → Prop}

theorem Serves.congr (h : Serves K s packets) (hrtmp : t.rtmp = s.rtmp) : Serves K t packets :=
  ⟨fun hnone ctx hctx => h.fresh hnone ctx (hrtmp ▸ hctx),fun l ctx hl hctx => h.serves l ctx hl (hrtmp ▸ hctx)⟩

theorem Serves.closed (h : s.rtmp = none) : Serves K s packets :=
  ⟨fun _ ctx hctx => absurd (h.symm.trans hctx) (Option.some_ne_none ctx).symm,
    fun _ ctx _ hctx => absurd (h.symm.trans hctx) (Option.some_ne_none ctx).symm⟩

theorem Serves.callDisconnect (s : AnyRtmpPush) :
    Serves K s.callDisconnect.1 (s.callDisconnect.2.foldl onConnection packets) := by
  obtain ⟨_,heq⟩ | ⟨_,_,heq⟩ | ⟨_,_,heq⟩ := s.callDisconnect_cases <;> rw [heq]
  · exact .closed rfl
  · exact ⟨fun _ ctx hctx => (Option.some.inj hctx).symm,fun _ _ hl _ => absurd hl (Option.some_ne_none _).symm⟩
  · exact .closed rfl

theorem Serves.step (h : Serves K s packets) (hnew : K srsRtmpCreate []) (hkeep : KeptBy G s.sound K)
    (hmedia : s.Media) (ha : a.Uses G) (hfollows : Follows q s ∨ s.Dead) (hq : q = .live ↔ packets.isSome)
    (hm : Moves s a t events) : Serves K t (events.foldl onConnection packets) := by
  cases hm with
  | refuse _ => exact .callDisconnect _
  | fail _ _ _ _ _ => exact .callDisconnect _
  | sendNothing _ _ =>
    rw [foldl_statics]
    obtain ⟨⟨_,_,heq⟩,_⟩ := statics_frame {s with turn := none} _ _
    exact h.congr (by rw [heq])
  | sendMeta hturn _ hmeta _ => exact absurd hmeta (hmedia.inHand hturn)
  | @send net now later e ctx ret ctx' hturn hrtmp hmeta hwrite hpass =>
    obtain ⟨l,hl⟩ := Option.isSome_iff_exists.mp (hq.mp (Follows.live_of_sending hfollows hturn))
    rw [List.foldl_cons, foldl_statics, hl]
    obtain ⟨⟨_,_,heq⟩,_⟩ := statics_frame {s with
      turn := none
      rtmp := some ctx'
      netBand := s.netBand + UInt32.ofNat e.data.length} now later
    rw [heq]
    refine ⟨fun hnone => (Option.some_ne_none _ hnone).elim,fun l' ctx'' hl' hctx => ?_⟩
    cases hl'
    cases hctx
    exact hkeep net ctx l e ret _ ha (h.serves l ctx hl hrtmp) hmeta hwrite hpass
  | clear hturn =>
    have hnone : packets = none := by
      have hne := mt hq.mpr (Follows.not_live_of_clearing hfollows hturn)
      simpa using hne
    rw [List.foldl_append, foldl_taken_freed, hnone]
    refine ⟨fun h => absurd h (Option.some_ne_none _),fun l ctx hl hctx => ?_⟩
    cases hl
    rw [h.fresh hnone ctx hctx]
    exact hnew
  | destroy _ _ => exact .closed rfl
  | takeData _ =>
    have hsame : (s.lstEncData.head?.toList.map PushEvent.taken).foldl onConnection packets = packets := by
      cases s.lstEncData.head? <;> rfl
    rw [hsame]
    exact h.congr rfl
  | _ => exact h.congr rfl

/-- Where a run is, with what its application knows. -/
structure Connection (K : Context → List EncData → Prop) (sound : SoundFormat) (as : List PushAction)
    (s : AnyRtmpPush) : Prop where
  media : s.Media
  format : s.sound = sound
  session : ∃ q, (Follows q s ∨ s.Dead) ∧ (q = .live ↔ (sentSince sound as).isSome)
  serves : Serves K s (sentSince sound as)

theorem connection_new (K : Context → List EncData → Prop) (sound : SoundFormat) : Connection K sound [] (new sound) where
  media := by simp [Media, pending, inHand, new]
  format := rfl
  session := by
    have hinit : RtmpStatus.init ≠ .published := by decide
    exact ⟨.connecting 0,.inl (.inl ⟨.inl rfl,hinit,rfl,Nat.zero_le _⟩),iff_of_false (by decide) Bool.false_ne_true⟩
  serves := ⟨fun _ _ hctx => (Option.some.inj hctx).symm,fun _ _ hl _ => absurd hl (Option.some_ne_none _).symm⟩

theorem sentSince_append {sound : SoundFormat} {as : List PushAction} (he : exec step (new sound) as = some s) :
    sentSince sound (as ++ [a]) = (s.events a).foldl onConnection (sentSince sound as) := by
  rw [sentSince, trace_append_singleton _ he, List.foldl_append]
  rfl

theorem Connection.step {sound : SoundFormat} {as : List PushAction} (h : Connection K sound as s)
    (he : exec step (new sound) as = some s) (hnew : K srsRtmpCreate []) (hkeep : KeptBy G sound K) (ha : a.Uses G)
    (hstep : step s a = some t) : Connection K sound (as ++ [a]) t := by
  obtain ⟨q,hfollows,hq⟩ := h.session
  obtain ⟨r,hr,hfollows'⟩ := Follows.next q s a t hfollows hstep
  obtain ⟨events,htransition⟩ := step_eq_some.mp hstep
  have hm := moves htransition
  rw [reports, events_of_transition htransition] at hr
  have hsince : sentSince sound (as ++ [a]) = events.foldl onConnection (sentSince sound as) := by
    rw [sentSince_append he, events_of_transition htransition]
  refine ⟨hm.media h.media,hm.sound.trans h.format,⟨r,hfollows',?_⟩,?_⟩
  · rw [hsince]
    exact live_iff hr hq
  · rw [hsince]
    exact h.serves.step hnew (h.format ▸ hkeep) h.media ha hfollows hq hm

/-- What a packet that goes through keeps holds of every connection that lives. -/
theorem connection_keeps {sound : SoundFormat} {as : List PushAction} (hnew : K srsRtmpCreate [])
    (hkeep : KeptBy G sound K) (has : ∀ a ∈ as, a.Uses G) (he : exec step (new sound) as = some t) :
    Connection K sound as t := by
  have h : (∀ a ∈ as, a.Uses G) → Connection K sound as t := exec_history
    (I := fun as t => (∀ a ∈ as, a.Uses G) → Connection K sound as t) (fun _ => connection_new K sound)
    (fun as s a t he h hstep has => by
      obtain ⟨has,ha⟩ := List.forall_mem_append.mp has
      exact (h has).step he hnew hkeep (List.forall_mem_singleton.mp ha) hstep) he
  exact h has

end

/-- A key frame goes out on a connection that has just been made. -/
def keyFrameRun : List PushAction :=
  [.beginTurn,.answered true,.beginTurn,.answered true,.beginTurn,.answered true,.clear,
    .setH264Data [0,0,0,1,0x67,0x42,0x80,0x1e,0,0,0,1,0x68,0xce,0,0,0,1,0x65,0x88] 40,.checkKeyframe,
    .queueData,.queueData,.queueData,.beginTurn,.takeData,.writeData (fun _ _ => 0) 0 0,
    .beginTurn,.takeData,.writeData (fun _ _ => 0) 0 0,.beginTurn,.takeData,.writeData (fun _ _ => 0) 0 0]

def keyFrameSent : List EncData :=
  [⟨[0,0,0,1,0x67,0x42,0x80,0x1e],.videoData,40⟩,⟨[0,0,0,1,0x68,0xce],.videoData,40⟩,
    ⟨[0,0,0,1,0x65,0x88],.videoData,40⟩]

/-- The call that has not yet been let through or dropped. -/
def entered (s : AnyRtmpPush) : List FrameCall :=
  match s.call with
  | .entered p _ ts => [⟨p,ts⟩]
  | _ => []

def videoPackets (packets : List EncData) : List EncData := packets.filter fun e => e.type = .videoData

/-- The encoder of the video leaves the emptying of the queue alone. -/
def LeavesAlone (s : AnyRtmpPush) : PushAction → Prop
  | .setH264Data _ _ => False
  | .clear => videoPackets s.pending = []
  | _ => True

instance (s : AnyRtmpPush) : DecidablePred s.LeavesAlone
  | .setH264Data _ _ => inferInstanceAs (Decidable False)
  | .clear => inferInstanceAs (Decidable (_ = []))
  | .checkKeyframe | .setAacData _ _ | .queueData | .enableOnlyAudioMode | .beginTurn | .answered _ | .takeData
  | .writeData _ _ _ | .close | .destroy => inferInstanceAs (Decidable True)

/-- No call of the video encoder falls between the answer that publishes the stream and the emptying
of the queue. -/
def Undisturbed (s : AnyRtmpPush) (a : PushAction) : Prop := s.turn = some .clearing → s.LeavesAlone a

instance (s : AnyRtmpPush) (a : PushAction) : Decidable (Undisturbed s a) := inferInstanceAs (Decidable (_ → _))

/-- What has been sent, is in hand, waits in the queue and is still to be queued are the pieces of whole
calls, some of those that were made, from a key frame on. -/
structure Resumed (s : AnyRtmpPush) (made : List FrameCall) (packets : List EncData) (calls : List FrameCall) :
    Prop where
  packets : videoPackets (packets ++ (s.inHand ++ (s.lstEncData ++ s.pending))) = calls.flatMap FrameCall.packets
  made : (calls ++ s.entered).Sublist made
  key : ∀ c ∈ calls.head?, c.type = some nalSPS
  waiting : calls = [] → s.needKeyframe = true ∨ ∃ p ts, s.call = .entered p nalSPS ts

structure Resuming (s : AnyRtmpPush) (made : List FrameCall) (packets : Option (List EncData)) : Prop where
  clearing : s.turn = some .clearing → s.needKeyframe = true
  entered : s.entered.Sublist made
  type : ∀ p type ts, s.call = .entered p type ts → FrameCall.type ⟨p,ts⟩ = some type
  resumed : ∀ l, packets = some l → s.rtmp ≠ none → ∃ calls, Resumed s made l calls

section
variable {s t : AnyRtmpPush} {events : List PushEvent} {a : PushAction} {made : List FrameCall}
  {packets : Option (List EncData)}

theorem entered_of_idle (hcall : s.call = .idle) : s.entered = [] := by rw [entered, hcall]

/-- What is queued or taken out changes its place only. -/
theorem Resumed.congr {l : List EncData} {calls : List FrameCall} (h : Resumed s made l calls)
    (hlist : videoPackets (t.inHand ++ (t.lstEncData ++ t.pending)) =
      videoPackets (s.inHand ++ (s.lstEncData ++ s.pending)))
    (hentered : t.entered.Sublist s.entered)
    (hwaiting : s.needKeyframe = true ∨ (∃ p ts, s.call = .entered p nalSPS ts) →
      t.needKeyframe = true ∨ ∃ p ts, t.call = .entered p nalSPS ts) : Resumed t made l calls := by
  refine ⟨?_,((List.Sublist.refl _).append hentered).trans h.made,h.key,fun hnil => hwaiting (h.waiting hnil)⟩
  have hpackets := h.packets
  rw [videoPackets, List.filter_append] at hpackets ⊢
  rw [videoPackets, videoPackets] at hlist
  rw [hlist, hpackets]

theorem Resuming.congr (h : Resuming s made packets) (hclearing : t.turn = some .clearing → t.needKeyframe = true)
    (hrtmp : t.rtmp ≠ none → s.rtmp ≠ none)
    (hlist : videoPackets (t.inHand ++ (t.lstEncData ++ t.pending)) =
      videoPackets (s.inHand ++ (s.lstEncData ++ s.pending)))
    (hcall : t.call = s.call ∨ ∀ p type ts, t.call ≠ .entered p type ts)
    (hwaiting : s.needKeyframe = true ∨ (∃ p ts, s.call = .entered p nalSPS ts) →
      t.needKeyframe = true ∨ ∃ p ts, t.call = .entered p nalSPS ts) : Resuming t made packets := by
  have hentered : t.entered.Sublist s.entered := by
    rcases hcall with hcall | hcall
    · rw [AnyRtmpPush.entered, AnyRtmpPush.entered, hcall]
    · rw [AnyRtmpPush.entered]
      split
      · rename_i hcall'
        exact absurd hcall' (hcall _ _ _)
      · exact List.nil_sublist _
  refine ⟨hclearing,hentered.trans h.entered,fun p type ts ht => ?_,fun l hl hne => ?_⟩
  · rcases hcall with hcall | hcall
    · exact h.type p type ts (hcall ▸ ht)
    · exact absurd ht (hcall p type ts)
  · obtain ⟨calls,hresumed⟩ := h.resumed l hl (hrtmp hne)
    exact ⟨calls,hresumed.congr hlist hentered hwaiting⟩

theorem Resuming.callDisconnect (hentered : s.entered.Sublist made)
    (htype : ∀ p type ts, s.call = .entered p type ts → FrameCall.type ⟨p,ts⟩ = some type) :
    Resuming s.callDisconnect.1 made (s.callDisconnect.2.foldl onConnection packets) := by
  obtain ⟨_,heq⟩ | ⟨_,_,heq⟩ | ⟨_,_,heq⟩ := s.callDisconnect_cases <;> rw [heq]
  · exact ⟨fun _ => rfl,hentered,htype,fun _ _ hne => absurd rfl hne⟩
  · exact ⟨fun _ => rfl,hentered,htype,fun _ hl => absurd hl (Option.some_ne_none _).symm⟩
  · exact ⟨fun _ => rfl,hentered,htype,fun _ hl => absurd hl (Option.some_ne_none _).symm⟩

theorem packets_of_type {p : Bytes} {type : UInt8} {ts : UInt32} (htype : FrameCall.type ⟨p,ts⟩ = some type) :
    FrameCall.packets ⟨p,ts⟩ = (nalPieces p type).map fun nal => ⟨nal,.videoData,ts⟩ := by
  rw [FrameCall.packets, htype, Option.elim_some]

theorem videoPackets_pieces (p : Bytes) (type : UInt8) (ts : UInt32) :
    videoPackets ((nalPieces p type).map fun nal => ⟨nal,.videoData,ts⟩) =
      (nalPieces p type).map fun nal => ⟨nal,.videoData,ts⟩ := by
  rw [videoPackets, List.filter_eq_self]
  intro e he
  obtain ⟨nal,_,rfl⟩ := List.mem_map.mp he
  rfl

/-- A frame that is let through is a key frame, when it is the first. -/
theorem Resumed.takeFrame {l : List EncData} {calls : List FrameCall} {p : Bytes} {type : UInt8} {ts : UInt32}
    (h : Resumed s made l calls) (hcall : s.call = .entered p type ts) (hneed : s.needKeyframe = false)
    (htype : FrameCall.type ⟨p,ts⟩ = some type) :
    Resumed {s with call := .queueing ((nalPieces p type).map fun nal => ⟨nal,.videoData,ts⟩)} made l
      (calls ++ [⟨p,ts⟩]) := by
  have hpending : s.pending = [] := by rw [pending, hcall]
  have hpackets := h.packets
  have hmade := h.made
  rw [hpending, List.append_nil] at hpackets
  rw [entered, hcall] at hmade
  refine ⟨?_,?_,?_,fun hnil => absurd hnil (by simp)⟩
  · have hpieces := videoPackets_pieces p type ts
    change videoPackets (l ++ (s.inHand ++ (s.lstEncData ++
      (nalPieces p type).map fun nal => ⟨nal,.videoData,ts⟩))) = _
    rw [List.flatMap_append, List.flatMap_singleton, ← hpackets, packets_of_type htype]
    rw [videoPackets] at hpieces
    simp only [videoPackets, List.filter_append, hpieces, List.append_assoc]
  · rwa [entered, List.append_nil]
  · intro c hc
    cases calls with
    | nil =>
      cases hc
      rcases h.waiting rfl with hw | ⟨_,_,hw⟩
      · rw [hneed] at hw
        cases hw
      · cases hcall.symm.trans hw
        exact htype
    | cons c' rest => exact h.key c hc

/-- A call is made, from which nothing is queued yet. -/
theorem Resuming.setH264Data {p : Bytes} {ts : UInt32} {b : UInt8} (h : Resuming s made packets)
    (hcalm : Undisturbed s (.setH264Data p ts)) (hcall : s.call = .idle) (hbyte : p[4]? = some b) :
    Resuming {s with needKeyframe := s.needKeyframe && nalType b ≠ nalSPS, call := .entered p (nalType b) ts}
      (made ++ [⟨p,ts⟩]) packets := by
  have hpending : s.pending = [] := by rw [pending, hcall]
  refine ⟨fun hturn => (hcalm hturn).elim,List.sublist_append_right _ _,fun p' type ts' h' => ?_,fun l hl hne => ?_⟩
  · cases h'
    rw [FrameCall.type, hbyte, Option.map_some]
  · obtain ⟨calls,hresumed⟩ := h.resumed l hl hne
    have hpackets := hresumed.packets
    have hmade := hresumed.made
    rw [hpending] at hpackets
    rw [entered_of_idle hcall, List.append_nil] at hmade
    refine ⟨calls,hpackets,hmade.append (List.Sublist.refl _),hresumed.key,fun hnil => ?_⟩
    rcases hresumed.waiting hnil with hw | ⟨_,_,hw⟩
    · by_cases htype : nalType b = nalSPS
      · exact .inr ⟨p,ts,by rw [htype]⟩
      · exact .inl (by simp [hw, htype])
    · cases hcall.symm.trans hw

theorem Resuming.move (h : Resuming s made packets) (hmedia : s.Media) (hcalm : Undisturbed s a)
    (hother : ∀ p ts, a ≠ .setH264Data p ts) (hm : Moves s a t events) :
    Resuming t made (events.foldl onConnection packets) := by
  cases hm with
  | setH264Data _ _ _ => exact (hother _ _ rfl).elim
  | dropFrame hcall hneed =>
    have hpending : s.pending = [] := by rw [pending, hcall]
    exact h.congr h.clearing id (by rw [hpending]; rfl) (.inr fun _ _ _ h => by cases h) fun _ => .inl hneed
  | takeFrame hcall hneed =>
    refine ⟨h.clearing,List.nil_sublist _,fun _ _ _ h => (by cases h),fun l hl hne => ?_⟩
    obtain ⟨calls,hresumed⟩ := h.resumed l hl hne
    exact ⟨_,hresumed.takeFrame hcall hneed (h.type _ _ _ hcall)⟩
  | dropSound _ => exact h
  | takeSound _ hcall _ =>
    have hpending : s.pending = [] := by rw [pending, hcall]
    refine h.congr h.clearing id ?_ (.inr fun _ _ _ h => by cases h) ?_
    · rw [hpending]
      simp [videoPackets, inHand, pending]
    · rintro (hw | ⟨_,_,hw⟩)
      · exact .inl hw
      · cases hcall.symm.trans hw
  | @queueData e pieces hcall =>
    have hpending : s.pending = e :: pieces := by rw [pending, hcall]
    refine h.congr h.clearing id ?_ (.inr fun _ _ _ h => ?_) ?_
    · rw [hpending]
      have hrest : pending {s with
          call := if pieces = [] then .idle else .queueing pieces
          lstEncData := s.lstEncData ++ [e]} = pieces := by
        simp only [pending]
        split_ifs with hnil
        · rw [hnil]
        · rfl
      rw [hrest, List.append_assoc, List.singleton_append]
      rfl
    · dsimp only at h
      split_ifs at h
    · rintro (hw | ⟨_,_,hw⟩)
      · exact .inl hw
      · cases hcall.symm.trans hw
  | enableOnlyAudioMode => exact h.congr h.clearing id rfl (.inl rfl) id
  | beginTaking _ hturn _ _ | beginTrying _ hturn _ _ _ | advance hturn _ =>
    have hhand : s.inHand = [] := inHand_of_ne (by simp [hturn])
    exact h.congr (fun h => by cases h) id (by rw [hhand]; rfl) (.inl rfl) id
  | publish hturn =>
    have hhand : s.inHand = [] := inHand_of_ne (by simp [hturn])
    exact h.congr (fun _ => rfl) id (by rw [hhand]; rfl) (.inl rfl) fun _ => .inl rfl
  | refuse _ | fail _ _ _ _ _ => exact .callDisconnect h.entered h.type
  | clear hturn =>
    rw [List.foldl_append, foldl_taken_freed]
    refine ⟨fun h => (by cases h),h.entered,h.type,
      fun l hl _ => ⟨[],?_,h.entered,fun _ hc => (by cases hc),fun _ => .inl (h.clearing hturn)⟩⟩
    cases hl
    exact hcalm hturn
  | takeData hturn =>
    have hsame : (s.lstEncData.head?.toList.map PushEvent.taken).foldl onConnection packets = packets := by
      cases s.lstEncData.head? <;> rfl
    rw [hsame]
    have hhand : s.inHand = [] := inHand_of_ne (by simp [hturn])
    refine h.congr (fun h => by cases h) id ?_ (.inl rfl) id
    rw [hhand]
    cases hl : s.lstEncData <;> rfl
  | sendNothing hturn _ =>
    rw [foldl_statics]
    obtain ⟨⟨_,_,heq⟩,_⟩ := statics_frame {s with turn := none} _ _
    rw [heq]
    refine h.congr (fun h => by cases h) id ?_ (.inl rfl) id
    rw [inHand_of_turn hturn]
    rfl
  | sendMeta hturn _ hmeta _ => exact absurd hmeta (hmedia.inHand hturn)
  | @send net now later e ctx ret ctx' hturn hrtmp hmeta hwrite hpass =>
    rw [List.foldl_cons, foldl_statics]
    obtain ⟨⟨_,_,heq⟩,_⟩ := statics_frame {s with
      turn := none
      rtmp := some ctx'
      netBand := s.netBand + UInt32.ofNat e.data.length} now later
    rw [heq]
    refine ⟨fun h => (by cases h),h.entered,h.type,fun l hl _ => ?_⟩
    obtain ⟨before,hbefore,rfl⟩ := Option.map_eq_some_iff.mp hl
    obtain ⟨calls,hresumed⟩ := h.resumed before hbefore (by rw [hrtmp]; exact Option.some_ne_none ctx)
    refine ⟨calls,?_,hresumed.made,hresumed.key,hresumed.waiting⟩
    have hpackets := hresumed.packets
    rw [inHand_of_turn hturn] at hpackets
    rw [← hpackets, List.append_assoc]
    rfl
  | close _ _ => exact h.congr h.clearing id rfl (.inl rfl) id
  | destroy _ _ => exact ⟨h.clearing,h.entered,h.type,fun _ _ hne => absurd rfl hne⟩

theorem Resuming.step (h : Resuming s made packets) (hmedia : s.Media) (hcalm : Undisturbed s a)
    (hm : Moves s a t events) : Resuming t (made ++ a.frameCalls) (events.foldl onConnection packets) := by
  by_cases hcalls : ∃ p ts, a = .setH264Data p ts
  · obtain ⟨p,ts,rfl⟩ := hcalls
    cases hm with
    | setH264Data _ hcall hbyte => exact h.setH264Data hcalm hcall hbyte
  · have hother : ∀ p ts, a ≠ .setH264Data p ts := fun p ts heq => hcalls ⟨p,ts,heq⟩
    have hnone : a.frameCalls = [] := by
      cases a with
      | setH264Data p ts => exact (hother p ts rfl).elim
      | _ => rfl
    rw [hnone, List.append_nil]
    exact h.move hmedia hcalm hother hm

end

/-- When no call of the video encoder falls into the moment in which the queue is emptied, the video of
every connection is the pieces of whole calls of the run, and the first of these is a key frame. -/
theorem resumes_at_key_frame (sound : SoundFormat) (as : List PushAction) (t : AnyRtmpPush)
    (he : exec step (new sound) as = some t) (hcalm : Along step Undisturbed (new sound) as)
    (packets : List EncData) (hsince : sentSince sound as = some packets) (hrtmp : t.rtmp ≠ none) :
    ∃ calls : List FrameCall, calls.Sublist (as.flatMap PushAction.frameCalls) ∧
      videoPackets (packets ++ (t.inHand ++ (t.lstEncData ++ t.pending))) = calls.flatMap FrameCall.packets ∧
        ∀ c ∈ calls.head?, c.type = some nalSPS := by
  have hnew : Resuming (new sound) [] (sentSince sound []) :=
    ⟨fun _ => rfl,List.nil_sublist _,fun _ _ _ h => (by cases h),fun _ hl => absurd hl (Option.some_ne_none _).symm⟩
  have h : Along step Undisturbed (new sound) as →
      t.Media ∧ Resuming t (as.flatMap PushAction.frameCalls) (sentSince sound as) := exec_history
    (I := fun as t => Along step Undisturbed (new sound) as →
      t.Media ∧ Resuming t (as.flatMap PushAction.frameCalls) (sentSince sound as))
    (fun _ => ⟨by simp [Media, pending, inHand, new],hnew⟩)
    (fun as s a t he h hstep hcalm => by
      obtain ⟨has,ha⟩ := (along_append_singleton he).mp hcalm
      obtain ⟨hmedia,hresuming⟩ := h has
      obtain ⟨events,htransition⟩ := step_eq_some.mp hstep
      have hm := moves htransition
      rw [sentSince_append he, events_of_transition htransition, List.flatMap_append, List.flatMap_singleton]
      exact ⟨hm.media hmedia,hresuming.step hmedia ha hm⟩) he
  obtain ⟨calls,hresumed⟩ := (h hcalm).2.resumed packets hsince hrtmp
  exact ⟨calls,(List.sublist_append_left _ _).trans hresumed.made,hresumed.packets,hresumed.key⟩

theorem resumes_at_key_frame_sent : ∃ t, exec step (new ⟨codecAAC,3,1,0⟩) keyFrameRun = some t ∧
    ∃ calls : List FrameCall, calls.Sublist (keyFrameRun.flatMap PushAction.frameCalls) ∧
      videoPackets (keyFrameSent ++ (t.inHand ++ (t.lstEncData ++ t.pending))) = calls.flatMap FrameCall.packets ∧
        ∀ c ∈ calls.head?, c.type = some nalSPS := by
  have hrun : ((exec step (new ⟨codecAAC,3,1,0⟩) keyFrameRun).bind AnyRtmpPush.rtmp).isSome := by decide +kernel
  obtain ⟨ctx,hrun⟩ := Option.isSome_iff_exists.mp hrun
  obtain ⟨t,he,hctx⟩ := Option.bind_eq_some_iff.mp hrun
  exact ⟨t,he,resumes_at_key_frame _ keyFrameRun t he (by decide +kernel) keyFrameSent (by decide +kernel)
    (by rw [hctx]; exact Option.some_ne_none ctx)⟩

end AnyRtmpPush
end AdSystem.Stream
