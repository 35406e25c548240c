import Mathlib.Data.Nat.SuccPred
import AdSystem.Library.Clock
import AdSystem.Stream.AnyRtmpPush

/-! # Runs of the pushing thread

Whatever the server answers and however the calls of the encoders fall between the steps of the
thread: what the application is told, and what becomes of the data that is queued.
-/
namespace AdSystem.Stream.AnyRtmpPush
open Transition Observer Clock

section
variable {s t : AnyRtmpPush} {events : List PushEvent} {a : PushAction}

theorem step_eq_some : step s a = some t ↔ ∃ events, transition s a = some (t,events) := by
  rw [step, Option.map_eq_some_iff]
  constructor
  · rintro ⟨⟨t,events⟩,h,rfl⟩
    exact ⟨events,h⟩
  · rintro ⟨events,h⟩
    exact ⟨(t,events),h,rfl⟩

theorem events_of_transition (h : transition s a = some (t,events)) : s.events a = events := by
  rw [AnyRtmpPush.events, h]
  rfl

/-- The writing of a packet, by its type. -/
def write (net : Network) (sound : SoundFormat) (ctx : Context) (e : EncData) : Option (ℤ × Context) :=
  match e.type with
  | .videoData => srsH264WriteRawFrames net ctx e.data e.dts e.dts
  | .audioData => srsAudioWriteRawFrame net ctx sound e.data e.dts
  | .metaData => some (srsRtmpWritePacket net ctx ⟨.script,e.dts,e.data⟩)

/-- Whether the connection goes on after an answer. -/
def Passes (e : EncData) (ret : ℤ) : Prop := ret = 0 ∨ e.type = .videoData ∧ srsH264IsKnownError ret

instance (e : EncData) (ret : ℤ) : Decidable (Passes e ret) := inferInstanceAs (Decidable (_ ∨ _))

/-- What a step does, case by case. -/
inductive Moves (s : AnyRtmpPush) : PushAction → AnyRtmpPush → List PushEvent → Prop
  | setH264Data {p ts b} (hrun : s.running) (hcall : s.call = .idle) (hbyte : p[4]? = some b) :
    Moves s (.setH264Data p ts)
      {s with needKeyframe := s.needKeyframe && nalType b ≠ nalSPS, call := .entered p (nalType b) ts} []
  | dropFrame {p type ts} (hcall : s.call = .entered p type ts) (hneed : s.needKeyframe) :
    Moves s .checkKeyframe {s with call := .idle} []
  | takeFrame {p type ts} (hcall : s.call = .entered p type ts) (hneed : s.needKeyframe = false) :
    Moves s .checkKeyframe
      {s with call := .queueing ((nalPieces p type).map fun nal => ⟨nal,.videoData,ts⟩)} []
  | dropSound {p ts} (hcall : s.call = .idle) : Moves s (.setAacData p ts) s []
  | takeSound {p ts} (hrun : s.running) (hcall : s.call = .idle) (hneed : s.needKeyframe = false ∨ s.onlyAudioMode) :
    Moves s (.setAacData p ts) {s with call := .queueing [⟨p,.audioData,ts⟩]} []
  | queueData {e pieces} (hcall : s.call = .queueing (e :: pieces)) :
    Moves s .queueData {s with
      call := if pieces = [] then .idle else .queueing pieces
      lstEncData := s.lstEncData ++ [e]} [.queued e]
  | enableOnlyAudioMode : Moves s .enableOnlyAudioMode {s with onlyAudioMode := true} []
  | beginTaking (hrun : s.running) (hturn : s.turn = none) (hrtmp : s.rtmp ≠ none)
      (hstatus : s.rtmpStatus = .published) : Moves s .beginTurn {s with turn := some .taking} []
  | beginTrying (hrun : s.running) (hturn : s.turn = none) (hrtmp : s.rtmp ≠ none)
      (hstatus : s.rtmpStatus ≠ .published) (hclosed : s.rtmpStatus ≠ .closed) :
    Moves s .beginTurn {s with turn := some (.trying s.rtmpStatus)} []
  | advance {status next} (hturn : s.turn = some (.trying status))
      (hnext : status = .init ∧ next = .handshaked ∨ status = .handshaked ∧ next = .connected) :
    Moves s (.answered true) {s with turn := none, rtmpStatus := next} []
  | publish {status} (hturn : s.turn = some (.trying status)) :
    Moves s (.answered true) {s with
      rtmpStatus := .published
      needKeyframe := true
      retrys := 0
      turn := some .clearing} []
  | refuse {status} (hturn : s.turn = some (.trying status)) :
    Moves s (.answered false) {s with turn := none}.callDisconnect.1 {s with turn := none}.callDisconnect.2
  | clear (hturn : s.turn = some .clearing) :
    Moves s .clear {s with lstEncData := [], turn := none}
      (s.lstEncData.flatMap (fun e => [.taken e,.freed e]) ++ [.callback .onRtmpConnected])
  | takeData (hturn : s.turn = some .taking) :
    Moves s .takeData {s with lstEncData := s.lstEncData.tail, turn := some (.sending s.lstEncData.head?)}
      (s.lstEncData.head?.toList.map .taken)
  | sendNothing {net now later} (hturn : s.turn = some (.sending none)) (hrtmp : s.rtmp ≠ none) :
    Moves s (.writeData net now later) ({s with turn := none}.statics now later).1
      ({s with turn := none}.statics now later).2
  | sendMeta {net now later e ctx ret ctx'} (hturn : s.turn = some (.sending (some e))) (hrtmp : s.rtmp = some ctx)
      (hmeta : e.type = .metaData) (hwrite : write net s.sound ctx e = some (ret,ctx')) :
    Moves s (.writeData net now later) {s with turn := none, rtmp := some ctx'} []
  | send {net now later e ctx ret ctx'} (hturn : s.turn = some (.sending (some e))) (hrtmp : s.rtmp = some ctx)
      (hmeta : e.type ≠ .metaData) (hwrite : write net s.sound ctx e = some (ret,ctx')) (hpass : Passes e ret) :
    Moves s (.writeData net now later)
      ({s with turn := none, rtmp := some ctx', netBand := s.netBand + UInt32.ofNat e.data.length}.statics now later).1
      (.freed e :: ({s with
        turn := none
        rtmp := some ctx'
        netBand := s.netBand + UInt32.ofNat e.data.length}.statics now later).2)
  | fail {net now later e ctx ret ctx'} (hturn : s.turn = some (.sending (some e))) (hrtmp : s.rtmp = some ctx)
      (hmeta : e.type ≠ .metaData) (hwrite : write net s.sound ctx e = some (ret,ctx')) (hpass : ¬ Passes e ret) :
    Moves s (.writeData net now later) {s with turn := none, rtmp := some ctx'}.callDisconnect.1
      {s with turn := none, rtmp := some ctx'}.callDisconnect.2
  | close (hrun : s.running) (hcall : s.call = .idle) :
    Moves s .close {s with running := false, rtmpStatus := .closed} []
  | destroy (hrun : s.running = false) (hturn : s.turn = none) :
    Moves s .destroy {s with rtmp := none, lstEncData := []} (s.lstEncData.flatMap fun e => [.taken e,.freed e])

theorem Moves.of_eq {r : AnyRtmpPush × List PushEvent} (h : Moves s a r.1 r.2) (hr : r = (t,events)) :
    Moves s a t events := by
  subst hr
  exact h

theorem moves_doSendData {net : Network} {now later : ℤ} {ctx : Context} {data : Option EncData}
    (hturn : s.turn = some (.sending data)) (hrtmp : s.rtmp = some ctx)
    (h : {s with turn := none}.doSendData net now later ctx data = some (t,events)) :
    Moves s (.writeData net now later) t events := by
  unfold doSendData at h
  cases data with
  | none => exact (Moves.sendNothing hturn (by rw [hrtmp]; exact Option.some_ne_none ctx)).of_eq (Option.some.inj h)
  | some e =>
    cases htype : e.type with
    | videoData =>
      simp only [htype, Option.map_eq_some_iff, Prod.exists] at h
      obtain ⟨ret,ctx',hwrite,h⟩ := h
      have hw : write net s.sound ctx e = some (ret,ctx') := by simp only [write, htype, hwrite]
      by_cases hpass : ret = 0 ∨ srsH264IsKnownError ret
      · rw [if_pos hpass] at h
        exact (Moves.send hturn hrtmp (by simp [htype]) hw (hpass.imp_right fun h => ⟨htype,h⟩)).of_eq h
      · rw [if_neg hpass] at h
        exact (Moves.fail hturn hrtmp (by simp [htype]) hw fun h => hpass (h.imp_right And.right)).of_eq h
    | audioData =>
      simp only [htype, Option.map_eq_some_iff, Prod.exists] at h
      obtain ⟨ret,ctx',hwrite,h⟩ := h
      have hw : write net s.sound ctx e = some (ret,ctx') := by simp only [write, htype, hwrite]
      by_cases hpass : ret = 0
      · rw [if_pos hpass] at h
        exact (Moves.send hturn hrtmp (by simp [htype]) hw (.inl hpass)).of_eq h
      · rw [if_neg hpass] at h
        exact (Moves.fail hturn hrtmp (by simp [htype]) hw fun h => hpass (h.resolve_right (by simp [htype]))).of_eq h
    | metaData =>
      simp only [htype, Option.some.injEq, Prod.mk.injEq] at h
      obtain ⟨rfl,rfl⟩ := h
      exact .sendMeta hturn hrtmp htype (by simp only [write, htype]; rfl)

theorem moves (h : transition s a = some (t,events)) : Moves s a t events := by
  cases a with
  | setH264Data p ts =>
    rw [transition] at h
    split_ifs at h with hif
    simp only [Option.map_eq_some_iff, Prod.mk.injEq] at h
    obtain ⟨b,hbyte,rfl,rfl⟩ := h
    exact .setH264Data hif.1 hif.2 hbyte
  | checkKeyframe =>
    rw [transition] at h
    split at h
    · rename_i hcall
      split_ifs at h with hneed
      · cases h
        exact .dropFrame hcall hneed
      · cases h
        exact .takeFrame hcall (by simpa using hneed)
    · cases h
  | setAacData p ts =>
    rw [transition] at h
    split_ifs at h with hif hneed
    · cases h
      exact .dropSound hif.2
    · cases h
      refine .takeSound hif.1 hif.2 ?_
      cases hn : s.needKeyframe
      · exact .inl rfl
      · exact .inr (by simpa [hn] using hneed)
  | queueData =>
    rw [transition] at h
    split at h
    · rename_i hcall
      cases h
      exact .queueData hcall
    · cases h
  | enableOnlyAudioMode =>
    rw [transition] at h
    split_ifs at h
    cases h
    exact .enableOnlyAudioMode
  | beginTurn =>
    rw [transition] at h
    split_ifs at h with hif
    obtain ⟨hrun,hturn,hrtmp⟩ := hif
    split at h
    · cases h
    · rename_i hstatus
      cases h
      exact .beginTaking hrun hturn hrtmp hstatus
    · rename_i hclosed hstatus
      cases h
      exact .beginTrying hrun hturn hrtmp hstatus hclosed
  | answered ok =>
    rw [transition] at h
    split at h
    · rename_i status hturn
      cases ok with
      | false => exact (Moves.refuse hturn).of_eq (Option.some.inj h)
      | true =>
        dsimp only at h
        rw [if_pos rfl] at h
        split at h
        · cases h
          exact .advance hturn (.inl ⟨rfl,rfl⟩)
        · cases h
          exact .advance hturn (.inr ⟨rfl,rfl⟩)
        · cases h
          exact .publish hturn
    · cases h
  | clear =>
    rw [transition] at h
    split_ifs at h with hturn
    cases h
    exact .clear hturn
  | takeData =>
    rw [transition] at h
    split_ifs at h with hturn
    cases h
    exact .takeData hturn
  | writeData net now later =>
    rw [transition] at h
    split at h
    · rename_i hturn hrtmp
      exact moves_doSendData hturn hrtmp h
    · cases h
  | close =>
    rw [transition] at h
    split_ifs at h with hif
    cases h
    exact .close hif.1 hif.2
  | destroy =>
    rw [transition] at h
    split_ifs at h with hif
    cases h
    exact .destroy (by simpa using hif.1) hif.2

theorem statics_cases (s : AnyRtmpPush) (now later : ℤ) :
    (s.statTime.toNat ≤ now ∧ ∃ delayMs netBand, s.statics now later =
      ({s with statTime := UInt32.ofInt (later + 1000), netBand := 0},
        [.callback (.onRtmpStatusEvent delayMs netBand)])) ∨
      ¬ s.statTime.toNat ≤ now ∧ s.statics now later = (s,[]) := by
  rw [statics]
  split_ifs with h
  · exact .inl ⟨h,_,_,rfl⟩
  · exact .inr ⟨h,rfl⟩

theorem callDisconnect_cases (s : AnyRtmpPush) :
    (s.rtmpStatus = .closed ∧ s.callDisconnect = ({s with needKeyframe := true, rtmp := none},[])) ∨
    (s.rtmpStatus ≠ .closed ∧ s.retrys + 1 ≤ maxRetryTime ∧ s.callDisconnect =
      ({s with needKeyframe := true, rtmp := some srsRtmpCreate, rtmpStatus := .init, retrys := s.retrys + 1},
        [.callback (.onRtmpReconnecting (s.retrys + 1))])) ∨
    (s.rtmpStatus ≠ .closed ∧ maxRetryTime < s.retrys + 1 ∧ s.callDisconnect =
      ({s with needKeyframe := true, rtmp := none, rtmpStatus := .init, retrys := s.retrys + 1},
        [.callback .onRtmpDisconnect])) := by
  unfold callDisconnect
  dsimp only
  split_ifs with hclosed hretrys
  · exact .inl ⟨hclosed,rfl⟩
  · exact .inr (.inl ⟨hclosed,hretrys,rfl⟩)
  · exact .inr (.inr ⟨hclosed,not_le.mp hretrys,rfl⟩)

end

/-- What the application is told, without the figures. -/
inductive Report
  | connected
  | reconnecting (times : ℕ)
  | disconnect
  | statusEvent
deriving DecidableEq, Repr

def report : PushEvent → List Report
  | .callback .onRtmpConnected => [.connected]
  | .callback (.onRtmpReconnecting times) => [.reconnecting times]
  | .callback .onRtmpDisconnect => [.disconnect]
  | .callback (.onRtmpStatusEvent _ _) => [.statusEvent]
  | _ => []

def reports (s : AnyRtmpPush) (a : PushAction) : List Report := (s.events a).flatMap report

/-- Where the application believes its stream to be. -/
inductive Session
  | connecting (retrys : ℕ)
  | live
  | ended
deriving DecidableEq, Repr

/-- The attempts are counted from the last connection that was made. -/
def Session.next : Session → Report → Option Session
  | .connecting _, .connected => some .live
  | .connecting r, .reconnecting times =>
    if times = r + 1 ∧ times ≤ maxRetryTime then some (.connecting times) else none
  | .connecting r, .disconnect => if r = maxRetryTime then some .ended else none
  | .live, .reconnecting times => if times = 1 then some (.connecting 1) else none
  | .live, .statusEvent => some .live
  | _, _ => none

/-- The thread does nothing any more. -/
def Dead (s : AnyRtmpPush) : Prop := s.turn = none ∧ (s.running = false ∨ s.rtmp = none)

def Follows : Session → AnyRtmpPush → Prop
  | .connecting r, s =>
    (s.turn = none ∨ ∃ status, s.turn = some (.trying status)) ∧ s.rtmpStatus ≠ .published ∧ s.retrys = r ∧
      r ≤ maxRetryTime ∨
    s.turn = some .clearing ∧ (s.rtmpStatus = .published ∨ s.rtmpStatus = .closed) ∧ s.retrys = 0
  | .live, s =>
    (s.turn = none ∨ s.turn = some .taking ∨ ∃ data, s.turn = some (.sending data)) ∧
      (s.rtmpStatus = .published ∨ s.rtmpStatus = .closed) ∧ s.retrys = 0
  | .ended, _ => False

section
variable {s t : AnyRtmpPush} {events : List PushEvent} {a : PushAction} {q : Session}

theorem flatMap_report_taken (l : List EncData) : (l.flatMap fun e => [.taken e,.freed e]).flatMap report = [] := by
  induction l with
  | nil => rfl
  | cons e l ih => rw [List.flatMap_cons, List.flatMap_append, ih]; rfl

theorem Dead.moves (h : s.Dead) (hm : Moves s a t events) : t.Dead ∧ events.flatMap report = [] := by
  obtain ⟨hturn,hstop⟩ := h
  cases hm with
  | beginTaking hrun _ hrtmp _ => exact absurd hstop (by simp [hrun, hrtmp])
  | beginTrying hrun _ hrtmp _ _ => exact absurd hstop (by simp [hrun, hrtmp])
  | advance h _ | publish h | refuse h | clear h | takeData h => rw [hturn] at h; cases h
  | sendNothing h _ | sendMeta h _ _ _ | send h _ _ _ _ | fail h _ _ _ _ => rw [hturn] at h; cases h
  | close _ _ => exact ⟨⟨hturn,.inl rfl⟩,rfl⟩
  | destroy _ _ => exact ⟨⟨hturn,.inr rfl⟩,flatMap_report_taken _⟩
  | _ => exact ⟨⟨hturn,hstop⟩,rfl⟩

/-- A turn that ends with the loss of the connection. -/
theorem callDisconnect_follows {r : ℕ} (hturn : s.turn = none) (hretrys : s.retrys = r) (hr : r ≤ maxRetryTime)
    (hq : ∀ times, times = r + 1 → times ≤ maxRetryTime →
      Session.next q (.reconnecting times) = some (.connecting times))
    (hended : r = maxRetryTime → Session.next q .disconnect = some .ended) :
    ∃ r, exec Session.next q (s.callDisconnect.2.flatMap report) = some r ∧
      (Follows r s.callDisconnect.1 ∨ s.callDisconnect.1.Dead) := by
  obtain ⟨_,heq⟩ | ⟨_,hle,heq⟩ | ⟨_,hlt,heq⟩ := s.callDisconnect_cases
  · rw [heq]
    exact ⟨q,rfl,.inr ⟨hturn,.inr rfl⟩⟩
  · rw [heq, hretrys]
    rw [hretrys] at hle
    have hinit : RtmpStatus.init ≠ .published := by decide
    refine ⟨.connecting (r + 1),?_,.inl (.inl ⟨.inl hturn,hinit,rfl,hle⟩)⟩
    exact (exec_cons_eq_some _).mpr ⟨_,hq _ rfl hle,rfl⟩
  · rw [heq]
    rw [hretrys] at hlt
    refine ⟨.ended,?_,.inr ⟨hturn,.inr rfl⟩⟩
    exact (exec_cons_eq_some _).mpr ⟨_,hended (by omega),rfl⟩

/-- A turn that ends with the statistics. -/
theorem statics_follows (hturn : s.turn = none) (hstatus : s.rtmpStatus = .published ∨ s.rtmpStatus = .closed)
    (hretrys : s.retrys = 0) (now later : ℤ) :
    exec Session.next .live ((s.statics now later).2.flatMap report) = some .live ∧
      Follows .live (s.statics now later).1 := by
  obtain ⟨_,delayMs,netBand,heq⟩ | ⟨_,heq⟩ := s.statics_cases now later
  · rw [heq]
    exact ⟨rfl,.inl hturn,hstatus,hretrys⟩
  · rw [heq]
    exact ⟨rfl,.inl hturn,hstatus,hretrys⟩

theorem Follows.connecting {r : ℕ} (h : Follows (.connecting r) s) (hm : Moves s a t events) :
    ∃ q, exec Session.next (.connecting r) (events.flatMap report) = some q ∧ (Follows q t ∨ t.Dead) := by
  rcases h with ⟨hturn,hstatus,hretrys,hr⟩ | ⟨hturn,hstatus,hretrys⟩
  · have hnot (turn : Turn) (h : s.turn = some turn) : ∃ status, turn = .trying status := by
      obtain h' | ⟨status,h'⟩ := hturn <;> cases h.symm.trans h'
      exact ⟨status,rfl⟩
    cases hm with
    | beginTaking _ _ _ h => exact absurd h hstatus
    | beginTrying _ _ _ _ _ => exact ⟨_,rfl,.inl (.inl ⟨.inr ⟨_,rfl⟩,hstatus,hretrys,hr⟩)⟩
    | advance _ hnext =>
      rename_i status next _
      have hpublished : next ≠ .published := by rcases hnext with ⟨_,rfl⟩ | ⟨_,rfl⟩ <;> decide
      exact ⟨_,rfl,.inl (.inl ⟨.inl rfl,hpublished,hretrys,hr⟩)⟩
    | publish _ => exact ⟨_,rfl,.inl (.inr ⟨rfl,.inl rfl,rfl⟩)⟩
    | refuse _ =>
      exact callDisconnect_follows rfl hretrys hr (fun times h h' => if_pos ⟨h,h'⟩) fun h => if_pos h
    | clear h | takeData h => obtain ⟨_,h⟩ := hnot _ h; cases h
    | sendNothing h _ | sendMeta h _ _ _ | send h _ _ _ _ | fail h _ _ _ _ => obtain ⟨_,h⟩ := hnot _ h; cases h
    | close _ _ =>
      have hclosed : RtmpStatus.closed ≠ .published := by decide
      exact ⟨_,rfl,.inl (.inl ⟨hturn,hclosed,hretrys,hr⟩)⟩
    | destroy _ h => exact ⟨.connecting r,by rw [flatMap_report_taken]; rfl,.inr ⟨h,.inr rfl⟩⟩
    | _ => exact ⟨_,rfl,.inl (.inl ⟨hturn,hstatus,hretrys,hr⟩)⟩
  · cases hm with
    | beginTaking _ h _ _ | beginTrying _ h _ _ _ | destroy _ h => rw [hturn] at h; cases h
    | advance h _ | publish h | refuse h | takeData h => rw [hturn] at h; cases h
    | sendNothing h _ | sendMeta h _ _ _ | send h _ _ _ _ | fail h _ _ _ _ => rw [hturn] at h; cases h
    | clear _ =>
      refine ⟨.live,?_,.inl ⟨.inl rfl,hstatus,hretrys⟩⟩
      rw [List.flatMap_append, flatMap_report_taken]
      rfl
    | close _ _ => exact ⟨_,rfl,.inl (.inr ⟨hturn,.inr rfl,hretrys⟩)⟩
    | _ => exact ⟨_,rfl,.inl (.inr ⟨hturn,hstatus,hretrys⟩)⟩

theorem Follows.live (h : Follows .live s) (hm : Moves s a t events) :
    ∃ q, exec Session.next .live (events.flatMap report) = some q ∧ (Follows q t ∨ t.Dead) := by
  obtain ⟨hturn,hstatus,hretrys⟩ := h
  have hnot (turn : Turn) (h : s.turn = some turn) : turn = .taking ∨ ∃ data, turn = .sending data := by
    obtain h' | h' | ⟨data,h'⟩ := hturn <;> cases h.symm.trans h'
    · exact .inl rfl
    · exact .inr ⟨data,rfl⟩
  have htrying {status} (h : s.turn = some (.trying status)) : False := by
    obtain h | ⟨_,h⟩ := hnot _ h <;> cases h
  cases hm with
  | beginTaking _ _ _ _ => exact ⟨_,rfl,.inl ⟨.inr (.inl rfl),hstatus,hretrys⟩⟩
  | beginTrying _ _ _ h h' => exact absurd hstatus (not_or.mpr ⟨h,h'⟩)
  | advance h _ | publish h | refuse h => exact (htrying h).elim
  | clear h => obtain h | ⟨_,h⟩ := hnot _ h <;> cases h
  | takeData _ =>
    refine ⟨.live,?_,.inl ⟨.inr (.inr ⟨_,rfl⟩),hstatus,hretrys⟩⟩
    cases s.lstEncData.head? <;> rfl
  | sendNothing _ _ =>
    obtain ⟨hexec,hf⟩ := statics_follows (s := {s with turn := none}) rfl hstatus hretrys _ _
    exact ⟨_,hexec,.inl hf⟩
  | send _ _ _ _ _ =>
    obtain ⟨hexec,hf⟩ := statics_follows (s := {s with turn := none, rtmp := _, netBand := _}) rfl hstatus hretrys _ _
    exact ⟨_,hexec,.inl hf⟩
  | fail _ _ _ _ _ =>
    refine callDisconnect_follows rfl hretrys (Nat.zero_le _) (fun times h _ => ?_) fun h => by cases h
    exact (if_pos h).trans (by rw [h])
  | sendMeta _ _ _ _ => exact ⟨_,rfl,.inl ⟨.inl rfl,hstatus,hretrys⟩⟩
  | close _ _ => exact ⟨_,rfl,.inl ⟨hturn,.inr rfl,hretrys⟩⟩
  | destroy _ h => exact ⟨.live,by rw [flatMap_report_taken]; rfl,.inr ⟨h,.inr rfl⟩⟩
  | _ => exact ⟨_,rfl,.inl ⟨hturn,hstatus,hretrys⟩⟩

end

/-- A thread that nobody else is at work with. -/
def Ready : Session → AnyRtmpPush → Prop
  | .connecting r, s => ∃ ctx, s.running ∧ s.call = .idle ∧ s.turn = none ∧ s.rtmp = some ctx ∧ s.rtmpStatus = .init ∧
      s.retrys = r
  | .live, s => ∃ ctx, s.running ∧ s.call = .idle ∧ s.turn = none ∧ s.rtmp = some ctx ∧ s.rtmpStatus = .published ∧
      s.retrys = 0 ∧ s.lstEncData = []
  | .ended, _ => True

section
variable {s : AnyRtmpPush} {r : ℕ} {now : ℤ}

theorem Ready.connected (h : Ready (.connecting r) s) :
    ∃ as t, exec step s as = some t ∧ as.flatMap PushAction.times = [] ∧
      trace step reports s as = [.connected] ∧ Ready .live t := by
  obtain ⟨ctx,hrun,hcall,hturn,hrtmp,hstatus,hretrys⟩ := h
  refine ⟨[.beginTurn,.answered true,.beginTurn,.answered true,.beginTurn,.answered true,.clear],
    {s with rtmpStatus := .published, needKeyframe := true, retrys := 0, lstEncData := []},?_,rfl,?_,?_⟩
  · simp [exec_cons, step, transition, hrun, hturn, hrtmp, hstatus]
  · simp [trace, reports, AnyRtmpPush.events, step, transition, hrun, hturn, hrtmp, hstatus, report,
      flatMap_report_taken]
  · exact ⟨ctx,hrun,hcall,hturn,hrtmp,rfl,rfl,rfl⟩

theorem Ready.refused (h : Ready (.connecting r) s) :
    ∃ t, exec step s [.beginTurn,.answered false] = some t ∧
      trace step reports s [.beginTurn,.answered false] =
        [if r + 1 ≤ maxRetryTime then .reconnecting (r + 1) else .disconnect] ∧
      (r + 1 ≤ maxRetryTime → Ready (.connecting (r + 1)) t) := by
  obtain ⟨ctx,hrun,hcall,hturn,hrtmp,hstatus,hretrys⟩ := h
  by_cases hle : r + 1 ≤ maxRetryTime
  · have hlt : r < maxRetryTime := hle
    refine ⟨{s with needKeyframe := true, rtmp := some srsRtmpCreate, rtmpStatus := .init, retrys := r + 1},?_,?_,
      fun _ => ⟨srsRtmpCreate,hrun,hcall,hturn,rfl,rfl,rfl⟩⟩
    · simp [exec_cons, step, transition, hrun, hturn, hrtmp, hstatus, callDisconnect, hretrys, hlt]
    · simp [trace, reports, AnyRtmpPush.events, step, transition, hrun, hturn, hrtmp, hstatus, callDisconnect, hretrys,
        hlt, report]
  · have hnot : ¬ r < maxRetryTime := hle
    refine ⟨{s with needKeyframe := true, rtmp := none, rtmpStatus := .init, retrys := r + 1},?_,?_,
      fun h => absurd h hle⟩
    · simp [exec_cons, step, transition, hrun, hturn, hrtmp, hstatus, callDisconnect, hretrys, hnot]
    · simp [trace, reports, AnyRtmpPush.events, step, transition, hrun, hturn, hrtmp, hstatus, callDisconnect, hretrys,
        hnot, report]

theorem Ready.status (h : Ready .live s) (now : ℤ) :
    ∃ as t later, exec step s as = some t ∧
      exec (reading fun _ => True) now (as.flatMap PushAction.times) = some later ∧
      trace step reports s as = [.statusEvent] ∧ Ready .live t := by
  obtain ⟨ctx,hrun,hcall,hturn,hrtmp,hstatus,hretrys,hlist⟩ := h
  refine ⟨[.beginTurn,.takeData,.writeData (fun _ _ => 0) (max now s.statTime.toNat) (max now s.statTime.toNat)],
    {s with statTime := UInt32.ofInt (max now s.statTime.toNat + 1000), netBand := 0},max now s.statTime.toNat,
    ?_,?_,?_,⟨ctx,hrun,hcall,hturn,hrtmp,hstatus,hretrys,hlist⟩⟩
  · simp [exec_cons, step, transition, hrun, hturn, hrtmp, hstatus, hlist, doSendData, statics]
  · simpa [PushAction.times, exec_cons, reading] using le_of_lt
  · simp [trace, reports, AnyRtmpPush.events, step, transition, hrun, hturn, hrtmp, hstatus, hlist, doSendData, statics,
      report]

/-- An empty buffer of sound breaks the connection. -/
theorem srsAudioWriteRawFrame_nil (ctx : Context) (sound : SoundFormat) (ts : UInt32) :
    ∃ ret ctx', srsAudioWriteRawFrame (fun _ _ => 1) ctx sound [] ts = some (ret,ctx') ∧ ret ≠ 0 := by
  have hstarts : ¬ srsAacStartswithAdts [] := by decide
  rw [srsAudioWriteRawFrame]
  split_ifs
  · exact ⟨_,_,rfl,by decide⟩
  · exact ⟨_,_,rfl,Int.one_ne_zero⟩

theorem Ready.lost (h : Ready .live s) (now : ℤ) :
    ∃ as t, exec step s as = some t ∧
      exec (reading fun _ => True) now (as.flatMap PushAction.times) = some now ∧
      trace step reports s as = [.reconnecting 1] ∧ Ready (.connecting 1) t := by
  obtain ⟨ctx,hrun,hcall,hturn,hrtmp,hstatus,hretrys,hlist⟩ := h
  obtain ⟨ret,ctx',hwrite,hret⟩ := srsAudioWriteRawFrame_nil ctx s.sound 0
  have hmax : 0 < maxRetryTime := by decide
  refine ⟨[.enableOnlyAudioMode,.setAacData [] 0,.queueData,.beginTurn,.takeData,.writeData (fun _ _ => 1) now now],
    {s with onlyAudioMode := true, needKeyframe := true, rtmp := some srsRtmpCreate, rtmpStatus := .init, retrys := 1},
    ?_,?_,?_,⟨srsRtmpCreate,hrun,hcall,hturn,rfl,rfl,rfl⟩⟩
  · simp [exec_cons, step, transition, hrun, hcall, hturn, hrtmp, hstatus, hlist, hretrys, doSendData, hwrite, hret,
      callDisconnect, hmax]
  · simp [PushAction.times, exec_cons, reading]
  · simp [trace, reports, AnyRtmpPush.events, step, transition, hrun, hcall, hturn, hrtmp, hstatus, hlist, hretrys,
      doSendData, hwrite, hret, callDisconnect, hmax, report]

/-- Each report that may come next is brought about by some run, whatever the clock says. -/
theorem Ready.next (q : Session) (s : AnyRtmpPush) (now : ℤ) (b : Report) (r : Session) (h : Ready q s)
    (hnext : Session.next q b = some r) :
    ∃ as t later, exec step s as = some t ∧
      exec (reading fun _ => True) now (as.flatMap PushAction.times) = some later ∧
      trace step reports s as = [b] ∧ Ready r t := by
  cases q with
  | connecting r =>
    cases b with
    | connected =>
      cases hnext
      obtain ⟨as,t,he,htimes,htrace,hr⟩ := h.connected
      exact ⟨as,t,now,he,by rw [htimes]; rfl,htrace,hr⟩
    | reconnecting times =>
      rw [Session.next] at hnext
      split_ifs at hnext with htimes
      obtain ⟨rfl,hle⟩ := htimes
      cases hnext
      obtain ⟨t,he,htrace,hr⟩ := h.refused
      exact ⟨_,t,now,he,rfl,by rw [htrace, if_pos hle],hr hle⟩
    | disconnect =>
      rw [Session.next] at hnext
      split_ifs at hnext with hr
      cases hnext
      obtain ⟨t,he,htrace,_⟩ := h.refused
      exact ⟨_,t,now,he,rfl,by rw [htrace, if_neg (by omega)],trivial⟩
    | statusEvent => cases hnext
  | live =>
    cases b with
    | connected => cases hnext
    | reconnecting times =>
      rw [Session.next] at hnext
      split_ifs at hnext with htimes
      cases hnext
      rw [htimes]
      obtain ⟨as,t,he,htimes,htrace,hr⟩ := h.lost now
      exact ⟨as,t,now,he,htimes,htrace,hr⟩
    | disconnect => cases hnext
    | statusEvent => cases hnext; exact h.status now
  | ended => cases b <;> cases hnext

theorem Follows.next (q : Session) (s : AnyRtmpPush) (a : PushAction) (t : AnyRtmpPush) (h : Follows q s ∨ s.Dead)
    (hstep : step s a = some t) : ∃ r, exec Session.next q (s.reports a) = some r ∧ (Follows r t ∨ t.Dead) := by
  obtain ⟨events,htransition⟩ := step_eq_some.mp hstep
  have hm := moves htransition
  rw [reports, events_of_transition htransition]
  rcases h with h | h
  · cases q with
    | connecting r => exact h.connecting hm
    | live => exact h.live hm
    | ended => exact h.elim
  · obtain ⟨ht,hnil⟩ := h.moves hm
    exact ⟨q,by rw [hnil]; rfl,.inr ht⟩

end

/-- What the application can be told, over all runs beside a clock that never goes back: a connection that is
made, lost and tried for again up to three times, then the end of it; the figures come only while it lives. -/
theorem reports_iff (sound : SoundFormat) (start : ℤ) (word : List Report) :
    (∃ as t, exec step (new sound) as = some t ∧ (start :: as.flatMap PushAction.times).IsChain (· ≤ ·) ∧
      trace step reports (new sound) as = word) ↔ ∃ q, exec Session.next (.connecting 0) word = some q := by
  have hinit : RtmpStatus.init ≠ .published := by decide
  have hfollows : Follows (.connecting 0) (new sound) := .inl ⟨.inl rfl,hinit,rfl,Nat.zero_le _⟩
  have h : (∃ as t, exec step (new sound) as = some t ∧
      ((start :: as.flatMap PushAction.times).IsChain (· ≤ ·) ∧
        ∀ time ∈ as.flatMap PushAction.times, (fun _ => True) time) ∧
      trace step reports (new sound) as = word) ↔ ∃ q, exec Session.next (.connecting 0) word = some q :=
    put_out_in_time_iff_taken (R := fun q s _ => Follows q s ∨ s.Dead)
      (fun q s _ a t _ hR _ hstep => Follows.next q s a t hR hstep) Ready.next (.inl hfollows)
      ⟨srsRtmpCreate,rfl,rfl,rfl,rfl,rfl,rfl⟩
  simpa only [implies_true, and_true] using h

end AdSystem.Stream.AnyRtmpPush
