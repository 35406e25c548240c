import Mathlib.Data.Nat.SuccPred
import Mathlib.Tactic.IntervalCases
import AdSystem.Library.Clock
import AdSystem.Stream.PlyBuffer

/-! # Runs of a player

However the reading, the decoding and the audio device interleave: when the playing starts and stops,
how long a stopped player waits at least, and which sounds are heard.
-/
namespace AdSystem.Stream.PlyDecoder
open Transition Observer Clock

section
variable {s t : PlyDecoder} {events : List PlayEvent} {a : PlayAction}

theorem step_eq_some : step s a = some t ↔ ∃ events, transition s a = some (t,events) := by
  rw [step, Option.map_eq_some_iff]
  constructor
  · rintro ⟨⟨t,events⟩,h,rfl⟩
    exact ⟨events,h⟩
  · rintro ⟨events,h⟩
    exact ⟨(t,events),h,rfl⟩

theorem events_of_transition (h : transition s a = some (t,events)) : s.events a = events := by
  rw [PlyDecoder.events, h]
  rfl

/-- What a step does, case by case. -/
inductive Moves (s : PlyDecoder) : PlayAction → PlyDecoder → List PlayEvent → Prop
  | cacheFirst {p slack ts time} (hcaching : s.caching = none) (hfirst : s.sysFastVideoTime = 0) :
    Moves s (.cacheH264Data p slack ts time)
      {s with sysFastVideoTime := UInt32.ofNat time, caching := some (.timing ⟨p,slack,true,ts⟩)} []
  | cacheH264Data {p slack ts time} (hcaching : s.caching = none) (hfirst : s.sysFastVideoTime ≠ 0) :
    Moves s (.cacheH264Data p slack ts time) {s with caching := some (.pushing ⟨p,slack,true,ts⟩)} []
  | setVideoTime {pkt} (hcaching : s.caching = some (.timing pkt)) :
    Moves s .setVideoTime {s with rtmpFastVideoTime := pkt.dts, caching := some (.pushing pkt)} []
  | pushVideo {pkt} (hcaching : s.caching = some (.pushing pkt)) :
    Moves s .pushVideo {s with lstVideoBuffer := s.lstVideoBuffer ++ [pkt], caching := none} [.cachedPicture pkt]
  | cachePcmData {p ts time sys rtmp} (hcaching : s.caching = none)
      (hsys : sys = s.sysFastVideoTime ∨ sys = UInt32.ofNat time) :
    Moves s (.cachePcmData p ts time)
      {s with
        gotAudio := true
        lstAudioBuffer := s.lstAudioBuffer ++ [⟨p,[],false,ts⟩]
        sysFastVideoTime := sys
        rtmpFastVideoTime := rtmp} [.cachedSound ⟨p,[],false,ts⟩]
  | waitOn {time} : Moves s (.doDecode time) s []
  | startPlay {time cur} (hsys : s.sysFastVideoTime ≠ 0) (hstatus : s.plyStatus = .fast)
      (hgap : plyRedTime ≤ UInt32.ofNat time - s.sysFastVideoTime) :
    Moves s (.doDecode time) {s with plyStatus := .normal, playCurTime := cur, playing := true} [.onPlay]
  | beginTick {time cur play} (htick : s.tick = none) (hstatus : s.plyStatus ≠ .fast)
      (hdue : s.plyStatus = .cache → s.rtmpCacheTime.toNat ≤ time) :
    Moves s (.doDecode time) {s with tick := some (.measuring cur play)} []
  | measureNone {cur play} (htick : s.tick = some (.measuring cur play)) :
    Moves s .measureAudio {s with tick := some (.measuringVideo cur play)} []
  | measureAudio {cur play} (htick : s.tick = some (.measuring cur play)) :
    Moves s .measureAudio (s.measured (bufTime s.lstAudioBuffer) play) []
  | measureVideo {cur play media play'} (htick : s.tick = some (.measuringVideo cur play)) :
    Moves s .measureVideo (s.measured media play') []
  | takeNone {media play} (htick : s.tick = some (.choosing media play)) :
    Moves s .takeVideo {s with tick := some (.deciding media)} []
  | takeVideo {media play front rest u out} (htick : s.tick = some (.choosing media play))
      (hlist : s.lstVideoBuffer = front :: rest)
      (hneed : {s with tick := some (.deciding media), lstVideoBuffer := rest}.onNeedDecodeData front = some (u,out)) :
    Moves s .takeVideo u out
  | keepPlaying {media time buf} (htick : s.tick = some (.deciding media)) (hstatus : s.plyStatus = .normal) :
    Moves s (.decide time) {s with tick := none, bufCacheTime := buf} []
  | pause {media time buf} (htick : s.tick = some (.deciding media)) (hstatus : s.plyStatus = .normal) :
    Moves s (.decide time) {s with
      tick := none
      bufCacheTime := buf
      playing := false
      plyStatus := .cache
      cacheTime := s.cacheDelta * 1000
      cacheDelta := if s.cacheDelta < plyMaxCache then s.cacheDelta * 2 else s.cacheDelta
      rtmpCacheTime := UInt32.ofNat (time + s.cacheDelta * 1000)} [.onPause]
  | resume {media time buf sys} (htick : s.tick = some (.deciding media)) (hstatus : s.plyStatus = .cache) :
    Moves s (.decide time) {s with
      tick := none
      sysFastVideoTime := sys
      bufCacheTime := buf
      plyStatus := .normal
      cacheDelta := if s.cacheDelta = plyMaxCache then s.cacheDelta / 2 else s.cacheDelta
      playing := true} [.onPlay]
  | waitLonger {media time buf sys} (htick : s.tick = some (.deciding media)) (hstatus : s.plyStatus = .cache) :
    Moves s (.decide time) {s with
      tick := none
      sysFastVideoTime := sys
      bufCacheTime := buf
      rtmpCacheTime := UInt32.ofNat (time + s.cacheTime)} []
  | decodeNext {pkt rest type} (htick : s.tick = none) (hlist : s.lstH264Buffer = pkt :: rest)
      (htype : pkt.frameType = some type) :
    Moves s .decodeNext {s with lstH264Buffer := rest} [.decoded pkt (type = nalSPS)]
  | decodeNone : Moves s .decodeNext s []
  | getPcmData (hfetching : s.fetching = false) : Moves s .getPcmData {s with fetching := s.playing} []
  | getPlayAudio {front rest} (hfetching : s.fetching) (hlist : s.lstAudioBuffer = front :: rest) :
    Moves s .getPlayAudio {s with lstAudioBuffer := rest, playCurTime := front.dts, fetching := false}
      [.played front]
  | getSilence (hfetching : s.fetching) : Moves s .getPlayAudio {s with fetching := false} []

theorem startPlay_cases (s : PlyDecoder) (gap : UInt32) :
    s.startPlay gap = (s,[]) ∨ plyRedTime ≤ gap ∧
      ∃ cur, s.startPlay gap = ({s with plyStatus := .normal, playCurTime := cur, playing := true},[.onPlay]) := by
  unfold PlyDecoder.startPlay
  dsimp only
  by_cases hgap : plyRedTime ≤ gap
  · rw [if_pos hgap]
    cases s.lstAudioBuffer.head? with
    | some front =>
      by_cases hred : plyRedTime < bufTime s.lstAudioBuffer
      · exact .inr ⟨hgap,_,if_pos hred⟩
      · exact .inl (if_neg hred)
    | none =>
      by_cases hlong : plyRedTime * 4 ≤ gap
      · dsimp only
        rw [if_pos hlong]
        cases s.lstVideoBuffer.head? with
        | some front => exact .inr ⟨hgap,_,rfl⟩
        | none => exact .inl rfl
      · exact .inl (if_neg hlong)
  · exact .inl (if_neg hgap)

theorem moves_startPlay {time : ℕ} (hsys : s.sysFastVideoTime ≠ 0) (hstatus : s.plyStatus = .fast)
    (h : s.startPlay (UInt32.ofNat time - s.sysFastVideoTime) = (t,events)) : Moves s (.doDecode time) t events := by
  obtain heq | ⟨hgap,cur,heq⟩ := startPlay_cases s (UInt32.ofNat time - s.sysFastVideoTime)
  · cases heq.symm.trans h
    exact .waitOn
  · cases heq.symm.trans h
    exact .startPlay hsys hstatus hgap

theorem moves_conclude {media : UInt32} {time : ℕ} (htick : s.tick = some (.deciding media))
    (h : {s with tick := none}.conclude media time = some (t,events)) : Moves s (.decide time) t events := by
  unfold PlyDecoder.conclude at h
  split at h
  · cases h
  · rename_i hstatus
    dsimp only at h
    by_cases hred : media ≤ plyRedTime
    · rw [if_pos hred] at h
      cases h
      exact .pause htick hstatus
    · rw [if_neg hred] at h
      cases h
      exact .keepPlaying htick hstatus
  · rename_i hstatus
    dsimp only at h
    by_cases hred : UInt32.ofNat s.cacheTime - plyRedTime ≤ media
    · rw [if_pos hred] at h
      cases h
      exact .resume htick hstatus
    · rw [if_neg hred] at h
      cases h
      exact .waitLonger htick hstatus

theorem moves (h : transition s a = some (t,events)) : Moves s a t events := by
  cases a with
  | cacheH264Data p slack ts time =>
    rw [transition] at h
    split_ifs at h with hif hfirst
    · cases h
      exact .cacheFirst hif.1 hfirst
    · cases h
      exact .cacheH264Data hif.1 hfirst
  | setVideoTime =>
    rw [transition] at h
    split at h
    · rename_i hcaching
      cases h
      exact .setVideoTime hcaching
    · cases h
  | pushVideo =>
    rw [transition] at h
    split at h
    · rename_i hcaching
      cases h
      exact .pushVideo hcaching
    · cases h
  | cachePcmData p ts time =>
    rw [transition] at h
    split_ifs at h with hcaching
    dsimp only at h
    split_ifs at h
    · cases h
      exact .cachePcmData hcaching (.inr rfl)
    · cases h
      exact .cachePcmData hcaching (.inl rfl)
  | doDecode time =>
    rw [transition] at h
    by_cases htick : s.tick = none
    · rw [if_pos htick] at h
      by_cases hsys : s.sysFastVideoTime = 0
      · rw [if_pos hsys] at h
        cases h
        exact .waitOn
      · rw [if_neg hsys] at h
        dsimp only at h
        split at h
        · rename_i hstatus
          exact moves_startPlay hsys hstatus (Option.some.inj h)
        · rename_i hstatus
          cases h
          exact .beginTick htick (by simp [hstatus]) (by simp [hstatus])
        · rename_i hstatus
          split_ifs at h with hdue
          · cases h
            exact .beginTick htick (by simp [hstatus]) fun _ => hdue
          · cases h
            exact .waitOn
    · rw [if_neg htick] at h
      cases h
  | measureAudio =>
    rw [transition] at h
    split at h
    · rename_i htick
      dsimp only at h
      split_ifs at h
      · cases h
        exact .measureNone htick
      · cases h
        exact .measureAudio htick
    · cases h
  | measureVideo =>
    rw [transition] at h
    split at h
    · rename_i htick
      split_ifs at h
      · cases h
        exact .measureVideo htick
      · cases h
        exact .measureVideo htick
    · cases h
  | takeVideo =>
    rw [transition] at h
    split at h
    · rename_i htick
      dsimp only at h
      split at h
      · rename_i hlist
        split_ifs at h
        · exact .takeVideo htick hlist h
        · cases h
          exact .takeNone htick
      · cases h
        exact .takeNone htick
    · cases h
  | decide time =>
    rw [transition] at h
    split at h
    · rename_i htick
      exact moves_conclude htick h
    · cases h
  | decodeNext =>
    rw [transition] at h
    split_ifs at h with htick
    split at h
    · rename_i hlist
      simp only [Option.map_eq_some_iff, Prod.mk.injEq] at h
      obtain ⟨type,htype,rfl,rfl⟩ := h
      exact .decodeNext htick hlist htype
    · cases h
      exact .decodeNone
  | getPcmData =>
    rw [transition] at h
    split_ifs at h with hfetching
    cases h
    exact .getPcmData (by simpa using hfetching)
  | getPlayAudio =>
    rw [transition] at h
    split_ifs at h with hfetching
    split at h
    · rename_i hlist
      cases h
      exact .getPlayAudio hfetching hlist
    · cases h
      exact .getSilence hfetching

theorem onNeedDecodeData_cases {pkt : PlyPacket} (h : s.onNeedDecodeData pkt = some (t,events)) :
    (pkt.bVideo = false ∧ t = s ∧ events = []) ∨
    (pkt.bVideo ∧ pkt.frameType = some nalSPS ∧ t = {s with lstH264Buffer := [pkt]} ∧
      events = s.lstH264Buffer.map .skipped ++ [.handed pkt]) ∨
    (pkt.bVideo ∧ pkt.frameType ≠ some nalSPS ∧ t = {s with lstH264Buffer := s.lstH264Buffer ++ [pkt]} ∧
      events = [.handed pkt]) := by
  unfold onNeedDecodeData at h
  split_ifs at h with hvideo
  · simp only [Option.map_eq_some_iff] at h
    obtain ⟨type,htype,h⟩ := h
    by_cases hkey : type = nalSPS
    · rw [if_pos hkey] at h
      cases h
      exact .inr (.inl ⟨hvideo,by rw [htype, hkey],rfl,rfl⟩)
    · rw [if_neg hkey] at h
      cases h
      exact .inr (.inr ⟨hvideo,by rw [htype]; exact fun h => hkey (Option.some.inj h),rfl,rfl⟩)
  · cases h
    exact .inl ⟨by simpa using hvideo,rfl,rfl⟩

end

/-- What is heard of a player, and at what times it starts and stops. -/
inductive Report
  | sound
  | play (time : ℕ)
  | pause (time : ℕ)
deriving DecidableEq, Repr

def report (times : List ℕ) : PlayEvent → List Report
  | .played _ => [.sound]
  | .onPlay => times.map .play
  | .onPause => times.map .pause
  | _ => []

def reports (s : PlyDecoder) (a : PlayAction) : List Report := (s.events a).flatMap (report a.times)

/-- With the number of pauses that are over, and the time of the last start or stop; one more sound may be under
way when a pause begins. -/
inductive Session
  | starting (since : ℕ)
  | playing (pauses last : ℕ)
  | paused (pauses since : ℕ) (underWay : Bool)
deriving DecidableEq, Repr

/-- The seconds a pause lasts at least, by the number of pauses before it. -/
def pauseSeconds (pauses : ℕ) : ℕ := min (2 ^ pauses) 8

/-- The end of the longest pause has a time of 32 bits. -/
def Alive (time : ℕ) : Prop := time + 8 * 1000 < 2 ^ 32

instance : DecidablePred Alive := fun time => inferInstanceAs (Decidable (time + 8 * 1000 < 2 ^ 32))

def Session.next : Session → Report → Option Session
  -- a time of 0 counts as none
  | .starting since, .play time =>
    if max since 1 + plyRedTime.toNat ≤ time ∧ Alive time then some (.playing 0 time) else none
  | .playing n last, .sound => some (.playing n last)
  | .playing n last, .pause time => if last ≤ time ∧ Alive time then some (.paused n time true) else none
  | .paused n since true, .sound => some (.paused n since false)
  | .paused n since _, .play time =>
    if since + pauseSeconds n * 1000 ≤ time ∧ Alive time then some (.playing (n + 1) time) else none
  | _, _ => none

def Follows : Session → PlyDecoder → ℕ → Prop
  | .starting since, s, now =>
    (s.plyStatus = .fast ∧ s.playing = false ∧ s.fetching = false ∧ s.cacheDelta = 1) ∧ since ≤ now ∧
      (s.sysFastVideoTime ≠ 0 → since ≤ s.sysFastVideoTime.toNat ∧ s.sysFastVideoTime.toNat ≤ now)
  | .playing n last, s, now => (s.plyStatus = .normal ∧ s.playing ∧ s.cacheDelta = pauseSeconds n) ∧ last ≤ now
  | .paused n since underWay, s, now =>
    (s.plyStatus = .cache ∧ s.playing = false ∧ (s.fetching → underWay) ∧
      s.cacheDelta = min (2 ^ (n + 1)) plyMaxCache ∧ s.cacheTime = pauseSeconds n * 1000) ∧ since ≤ now ∧
      since + pauseSeconds n * 1000 ≤ s.rtmpCacheTime.toNat ∧
      (s.tick ≠ none → since + pauseSeconds n * 1000 ≤ now)

theorem pauseSeconds_le (n : ℕ) : pauseSeconds n ≤ 8 := min_le_right _ _

theorem cacheDelta_pause (n : ℕ) :
    (if pauseSeconds n < plyMaxCache then pauseSeconds n * 2 else pauseSeconds n) = min (2 ^ (n + 1)) plyMaxCache := by
  have hlt : pauseSeconds n < plyMaxCache := (pauseSeconds_le n).trans_lt (by decide)
  rw [if_pos hlt, pauseSeconds, plyMaxCache, pow_succ]
  omega

/-- The longest wait is given up as soon as it has been reached. -/
theorem cacheDelta_resume (n : ℕ) :
    (if min (2 ^ n) plyMaxCache = plyMaxCache then min (2 ^ n) plyMaxCache / 2 else min (2 ^ n) plyMaxCache) =
      pauseSeconds n := by
  rcases Nat.lt_or_ge n 4 with hn | hn
  · interval_cases n <;> rfl
  · have hpow : plyMaxCache ≤ 2 ^ n := Nat.pow_le_pow_right (n := 2) (by decide) hn
    rw [min_eq_right hpow, if_pos rfl, pauseSeconds, min_eq_right (le_trans (by decide) hpow)]
    rfl

theorem Alive.toNat_ofNat {time : ℕ} (h : Alive time) : (UInt32.ofNat time).toNat = time :=
  UInt32.toNat_ofNat_of_lt' ((Nat.le_add_right _ _).trans_lt h)

theorem Alive.toNat_end {time : ℕ} (h : Alive time) (n : ℕ) :
    (UInt32.ofNat (time + pauseSeconds n * 1000)).toNat = time + pauseSeconds n * 1000 := by
  have hle := pauseSeconds_le n
  exact UInt32.toNat_ofNat_of_lt' ((Nat.add_le_add_left (Nat.mul_le_mul_right _ hle) _).trans_lt h)

theorem Alive.toNat_gap {time : ℕ} (h : Alive time) {u : UInt32} (hle : u.toNat ≤ time) :
    (UInt32.ofNat time - u).toNat = time - u.toNat := by
  rw [UInt32.toNat_sub_of_le, h.toNat_ofNat]
  rw [UInt32.le_iff_toNat_le, h.toNat_ofNat]
  exact hle

section
variable {s t : PlyDecoder} {events : List PlayEvent} {a : PlayAction} {q : Session} {n now later time : ℕ}

theorem flatMap_report_skipped (times : List ℕ) (l : List PlyPacket) :
    (l.map PlayEvent.skipped).flatMap (report times) = [] := by
  induction l with
  | nil => rfl
  | cons pkt l ih => exact ih

theorem reading_singleton (h : exec (reading Alive) now [time] = some later) :
    now ≤ time ∧ Alive time ∧ later = time := by
  obtain ⟨u,hu,h⟩ := (exec_cons_eq_some _).mp h
  cases h
  exact reading_eq_some.mp hu

/-- Most of what happens concerns the lists only. -/
theorem Follows.of_frame (h : Follows q s now) (hle : now ≤ later) (hstatus : t.plyStatus = s.plyStatus)
    (hplaying : t.playing = s.playing) (hfetching : t.fetching = s.fetching) (hdelta : t.cacheDelta = s.cacheDelta)
    (hcache : t.cacheTime = s.cacheTime) (hrtmp : t.rtmpCacheTime = s.rtmpCacheTime)
    (hsys : t.sysFastVideoTime = s.sysFastVideoTime ∨ now ≤ t.sysFastVideoTime.toNat ∧
      t.sysFastVideoTime.toNat ≤ later)
    (htick : t.tick ≠ none → s.tick ≠ none) : Follows q t later := by
  cases q with
  | starting since =>
    obtain ⟨hs,hsince,hfast⟩ := h
    rw [← hstatus, ← hplaying, ← hfetching, ← hdelta] at hs
    refine ⟨hs,hsince.trans hle,fun hne => ?_⟩
    rcases hsys with hsys | hsys
    · rw [hsys] at hne ⊢
      exact ⟨(hfast hne).1,(hfast hne).2.trans hle⟩
    · exact ⟨hsince.trans hsys.1,hsys.2⟩
  | playing n last =>
    obtain ⟨hs,hlast⟩ := h
    rw [← hstatus, ← hplaying, ← hdelta] at hs
    exact ⟨hs,hlast.trans hle⟩
  | paused n since underWay =>
    obtain ⟨hs,hsince,hend,hdue⟩ := h
    rw [← hstatus, ← hplaying, ← hfetching, ← hdelta, ← hcache] at hs
    rw [← hrtmp] at hend
    exact ⟨hs,hsince.trans hle,hend,fun h => (hdue (htick h)).trans hle⟩

/-- The status tells whether the playing has started, goes on or is stopped. -/
theorem Follows.exists_starting (h : Follows q s now) (hstatus : s.plyStatus = .fast) :
    ∃ since, q = .starting since := by
  cases q with
  | starting since => exact ⟨since,rfl⟩
  | playing n last => cases h.1.1.symm.trans hstatus
  | paused n since underWay => cases h.1.1.symm.trans hstatus

theorem Follows.exists_playing (h : Follows q s now) (hstatus : s.plyStatus = .normal) :
    ∃ n last, q = .playing n last := by
  cases q with
  | starting since => cases h.1.1.symm.trans hstatus
  | playing n last => exact ⟨n,last,rfl⟩
  | paused n since underWay => cases h.1.1.symm.trans hstatus

theorem Follows.exists_paused (h : Follows q s now) (hstatus : s.plyStatus = .cache) :
    ∃ n since underWay, q = .paused n since underWay := by
  cases q with
  | starting since => cases h.1.1.symm.trans hstatus
  | playing n last => cases h.1.1.symm.trans hstatus
  | paused n since underWay => exact ⟨n,since,underWay,rfl⟩

theorem Follows.moves (h : Follows q s now) (hm : Moves s a t events)
    (hclock : exec (reading Alive) now a.times = some later) :
    ∃ r, exec Session.next q (events.flatMap (report a.times)) = some r ∧ Follows r t later := by
  have hle := exec_reading_le hclock
  cases hm with
  | cacheFirst _ _ =>
    obtain ⟨hnow,halive,rfl⟩ := reading_singleton hclock
    have htime := halive.toNat_ofNat
    exact ⟨q,rfl,h.of_frame hnow rfl rfl rfl rfl rfl rfl (.inr ⟨hnow.trans htime.ge,htime.le⟩) id⟩
  | cachePcmData _ hsys =>
    obtain ⟨hnow,halive,rfl⟩ := reading_singleton hclock
    have htime := halive.toNat_ofNat
    refine ⟨q,rfl,h.of_frame hnow rfl rfl rfl rfl rfl rfl (hsys.imp_right fun hsys => ?_) id⟩
    rw [hsys]
    exact ⟨hnow.trans htime.ge,htime.le⟩
  | startPlay hsys hstatus hgap =>
    obtain ⟨hnow,halive,rfl⟩ := reading_singleton hclock
    obtain ⟨since,rfl⟩ := h.exists_starting hstatus
    obtain ⟨hs,hsince,hfast⟩ := h
    obtain ⟨hlow,hhigh⟩ := hfast hsys
    have hpos : 0 < s.sysFastVideoTime.toNat := by
      rw [Nat.pos_iff_ne_zero]
      exact fun h => hsys (UInt32.toNat_inj.mp h)
    rw [UInt32.le_iff_toNat_le, halive.toNat_gap (hhigh.trans hnow)] at hgap
    refine ⟨.playing 0 _,?_,⟨rfl,rfl,hs.2.2.2⟩,le_rfl⟩
    exact (exec_cons_eq_some _).mpr ⟨_,if_pos ⟨by omega,halive⟩,rfl⟩
  | beginTick _ hstatus hdue =>
    obtain ⟨hnow,halive,rfl⟩ := reading_singleton hclock
    cases q with
    | starting since => exact absurd h.1.1 hstatus
    | playing n last => exact ⟨_,rfl,h.1,h.2.trans hnow⟩
    | paused n since underWay =>
      obtain ⟨hs,hsince,hend,-⟩ := h
      exact ⟨_,rfl,hs,hsince.trans hnow,hend,fun _ => hend.trans (hdue hs.1)⟩
  | takeVideo htick _ hneed =>
    have hticking : s.tick ≠ none := by rw [htick]; exact Option.some_ne_none _
    obtain ⟨_,rfl,rfl⟩ | ⟨_,_,rfl,rfl⟩ | ⟨_,_,rfl,rfl⟩ := onNeedDecodeData_cases hneed
    · exact ⟨q,rfl,h.of_frame hle rfl rfl rfl rfl rfl rfl (.inl rfl) fun _ => hticking⟩
    · refine ⟨q,?_,h.of_frame hle rfl rfl rfl rfl rfl rfl (.inl rfl) fun _ => hticking⟩
      rw [List.flatMap_append, flatMap_report_skipped]
      rfl
    · exact ⟨q,rfl,h.of_frame hle rfl rfl rfl rfl rfl rfl (.inl rfl) fun _ => hticking⟩
  | pause _ hstatus =>
    obtain ⟨hnow,halive,rfl⟩ := reading_singleton hclock
    obtain ⟨n,last,rfl⟩ := h.exists_playing hstatus
    obtain ⟨⟨-,-,hdelta⟩,hlast⟩ := h
    refine ⟨.paused n _ true,?_,⟨rfl,rfl,fun _ => rfl,?_,?_⟩,le_rfl,?_,fun h => absurd rfl h⟩
    · exact (exec_cons_eq_some _).mpr ⟨_,if_pos ⟨hlast.trans hnow,halive⟩,rfl⟩
    · dsimp only
      rw [hdelta]
      exact cacheDelta_pause n
    · dsimp only
      rw [hdelta]
    · dsimp only
      rw [hdelta, halive.toNat_end]
  | resume htick hstatus =>
    obtain ⟨hnow,halive,rfl⟩ := reading_singleton hclock
    obtain ⟨n,since,underWay,rfl⟩ := h.exists_paused hstatus
    obtain ⟨⟨-,-,-,hdelta,-⟩,-,-,hdue⟩ := h
    have hend := hdue (by rw [htick]; exact Option.some_ne_none _)
    refine ⟨.playing (n + 1) _,?_,⟨rfl,rfl,?_⟩,le_rfl⟩
    · refine (exec_cons_eq_some _).mpr ⟨_,?_,rfl⟩
      cases underWay <;> exact if_pos ⟨hend.trans hnow,halive⟩
    · dsimp only
      rw [hdelta]
      exact cacheDelta_resume (n + 1)
  | waitLonger _ hstatus =>
    obtain ⟨hnow,halive,rfl⟩ := reading_singleton hclock
    obtain ⟨n,since,underWay,rfl⟩ := h.exists_paused hstatus
    obtain ⟨hs,hsince,-,-⟩ := h
    refine ⟨_,rfl,hs,hsince.trans hnow,?_,fun h => absurd rfl h⟩
    dsimp only
    rw [hs.2.2.2.2, halive.toNat_end]
    omega
  | getPcmData hfetching =>
    cases hclock
    cases q with
    | starting since => exact ⟨_,rfl,⟨h.1.1,h.1.2.1,h.1.2.1,h.1.2.2.2⟩,h.2⟩
    | playing n last => exact ⟨_,rfl,h⟩
    | paused n since underWay =>
      obtain ⟨⟨hstatus,hplaying,-,hdelta⟩,h⟩ := h
      exact ⟨_,rfl,⟨hstatus,hplaying,fun h' => (by simp [hplaying] at h'),hdelta⟩,h⟩
  | getPlayAudio hfetching _ =>
    cases hclock
    cases q with
    | starting since => rw [h.1.2.2.1] at hfetching; cases hfetching
    | playing n last => exact ⟨.playing n last,rfl,h⟩
    | paused n since underWay =>
      obtain ⟨⟨hstatus,hplaying,hunder,hdelta⟩,h⟩ := h
      cases hunder hfetching
      exact ⟨.paused n since false,rfl,⟨hstatus,hplaying,fun h' => (by cases h'),hdelta⟩,h⟩
  | getSilence hfetching =>
    cases hclock
    cases q with
    | starting since => rw [h.1.2.2.1] at hfetching; cases hfetching
    | playing n last => exact ⟨_,rfl,h⟩
    | paused n since underWay =>
      obtain ⟨⟨hstatus,hplaying,-,hdelta⟩,h⟩ := h
      exact ⟨_,rfl,⟨hstatus,hplaying,fun h' => (by cases h'),hdelta⟩,h⟩
  | measureNone htick | measureAudio htick | measureVideo htick | takeNone htick =>
    exact ⟨q,rfl,h.of_frame hle rfl rfl rfl rfl rfl rfl (.inl rfl) fun _ => by simp [htick]⟩
  | keepPlaying _ _ => exact ⟨q,rfl,h.of_frame hle rfl rfl rfl rfl rfl rfl (.inl rfl) fun h => absurd rfl h⟩
  | _ => exact ⟨q,rfl,h.of_frame hle rfl rfl rfl rfl rfl rfl (.inl rfl) id⟩

end

theorem bufTime_concat (front back : PlyPacket) (l : List PlyPacket) :
    bufTime (front :: (l ++ [back])) = back.dts - front.dts := by
  rw [bufTime, ← List.cons_append, List.getLast?_concat]
  rfl

/-- A player with no picture, whose threads are between two pieces of work. -/
def Rests (s : PlyDecoder) : Prop :=
  s.gotAudio ∧ s.sysFastVideoTime ≠ 0 ∧ s.lstAudioBuffer ≠ [] ∧ s.lstVideoBuffer = [] ∧ s.caching = none ∧
    s.tick = none

def Ready : Session → PlyDecoder → ℕ → Prop
  | .starting since, s, now => s = .new ∧ now = since
  | .playing n last, s, now =>
    (s.Rests ∧ s.plyStatus = .normal ∧ s.playing ∧ s.fetching ∧ s.cacheDelta = pauseSeconds n) ∧ now = last ∧ Alive now
  | .paused n since underWay, s, now =>
    (s.Rests ∧ s.plyStatus = .cache ∧ s.playing = false ∧ s.fetching = underWay ∧
      s.cacheDelta = min (2 ^ (n + 1)) plyMaxCache) ∧ now = since ∧ Alive now ∧
      s.rtmpCacheTime.toNat = since + pauseSeconds n * 1000

section
variable {s : PlyDecoder} {n now last since time : ℕ}

theorem Ready.started (hgap : max since 1 + plyRedTime.toNat ≤ time) (halive : Alive time) :
    ∃ as t, exec step new as = some t ∧ exec (reading Alive) since (as.flatMap PlayAction.times) = some time ∧
      trace step reports new as = [.play time] ∧ Ready (.playing 0 time) t time := by
  have hfirst : Alive (max since 1) := (Nat.add_le_add_right (by omega) _).trans_lt halive
  have htoNat := hfirst.toNat_ofNat
  have hsys : UInt32.ofNat (max since 1) ≠ 0 := by
    intro h
    rw [h] at htoNat
    change 0 = _ at htoNat
    omega
  have hred : plyRedTime ≤ UInt32.ofNat time - UInt32.ofNat (max since 1) := by
    rw [UInt32.le_iff_toNat_le, halive.toNat_gap (by omega), htoNat]
    omega
  have hdelay : plyMaxDelay ≤ bufTime [⟨[],[],false,0⟩,⟨[],[],false,1000⟩] := by decide
  have hbuf : plyRedTime < bufTime [⟨[],[],false,0⟩,⟨[],[],false,1000⟩] := by decide
  have hnone : ¬ plyMaxDelay ≤ bufTime [⟨[],[],false,0⟩] := by decide
  refine ⟨[.cachePcmData [] 0 (max since 1),.cachePcmData [] 1000 (max since 1),.doDecode time,.getPcmData],
    {new with
      gotAudio := true
      lstAudioBuffer := [⟨[],[],false,0⟩,⟨[],[],false,1000⟩]
      sysFastVideoTime := UInt32.ofNat (max since 1)
      rtmpFastVideoTime := 1000
      plyStatus := .normal
      playing := true
      fetching := true},?_,?_,?_,⟨⟨rfl,hsys,by simp,rfl,rfl,rfl⟩,rfl,rfl,rfl,rfl⟩,rfl,halive⟩
  · simp [exec_cons, step, transition, new, startPlay, hsys, hred, hdelay, hbuf, hnone]
  · have hle : max since 1 ≤ time := by omega
    simp [PlayAction.times, exec_cons, reading, hfirst, halive, le_total 1 since, max_le_iff.mp hle]
  · simp [trace, reports, PlyDecoder.events, step, transition, new, startPlay, hsys, hred, hdelay, hbuf, hnone, report,
      PlayAction.times]

theorem Ready.sound (h : Ready (.playing n last) s now) :
    ∃ as t, exec step s as = some t ∧ exec (reading Alive) now (as.flatMap PlayAction.times) = some now ∧
      trace step reports s as = [.sound] ∧ Ready (.playing n last) t now := by
  obtain ⟨⟨⟨hgot,hsys,hlist,hvideo,hcaching,htick⟩,hstatus,hplaying,hfetching,hdelta⟩,hnow,halive⟩ := h
  obtain ⟨front,rest,hlist⟩ := List.exists_cons_of_ne_nil hlist
  refine ⟨[.cachePcmData [] 0 now,.getPlayAudio,.getPcmData],
    {s with gotAudio := true, lstAudioBuffer := rest ++ [⟨[],[],false,0⟩], playCurTime := front.dts},?_,?_,?_,
    ⟨⟨rfl,hsys,by simp,hvideo,hcaching,htick⟩,hstatus,hplaying,hfetching,hdelta⟩,hnow,halive⟩
  · simp [exec_cons, step, transition, hsys, hlist, hcaching, hfetching, hplaying]
  · simp [PlayAction.times, exec_cons, reading, halive]
  · simp [trace, reports, PlyDecoder.events, step, transition, hsys, hlist, hcaching, hfetching, report]

theorem Ready.lastSound (h : Ready (.paused n since true) s now) :
    ∃ as t, exec step s as = some t ∧ exec (reading Alive) now (as.flatMap PlayAction.times) = some now ∧
      trace step reports s as = [.sound] ∧ Ready (.paused n since false) t now := by
  obtain ⟨⟨⟨hgot,hsys,hlist,hvideo,hcaching,htick⟩,hstatus,hplaying,hfetching,hdelta⟩,hnow,halive,hend⟩ := h
  obtain ⟨front,rest,hlist⟩ := List.exists_cons_of_ne_nil hlist
  refine ⟨[.cachePcmData [] 0 now,.getPlayAudio],
    {s with
      gotAudio := true
      lstAudioBuffer := rest ++ [⟨[],[],false,0⟩]
      playCurTime := front.dts
      fetching := false},?_,?_,?_,
    ⟨⟨rfl,hsys,by simp,hvideo,hcaching,htick⟩,hstatus,hplaying,rfl,hdelta⟩,hnow,halive,hend⟩
  · simp [exec_cons, step, transition, hsys, hlist, hcaching, hfetching]
  · simp [PlayAction.times, exec_cons, reading, halive]
  · simp [trace, reports, PlyDecoder.events, step, transition, hsys, hlist, hcaching, hfetching, report]

/-- A sound of the same time as the first one leaves nothing to play. -/
theorem Ready.pause (h : Ready (.playing n last) s now) (hle : last ≤ time) (htime : Alive time) :
    ∃ as t, exec step s as = some t ∧ exec (reading Alive) now (as.flatMap PlayAction.times) = some time ∧
      trace step reports s as = [.pause time] ∧ Ready (.paused n time true) t time := by
  obtain ⟨⟨⟨hgot,hsys,hlist,hvideo,hcaching,htick⟩,hstatus,hplaying,hfetching,hdelta⟩,rfl,halive⟩ := h
  obtain ⟨front,rest,hlist⟩ := List.exists_cons_of_ne_nil hlist
  have hbuf : bufTime (front :: (rest ++ [⟨[],[],false,front.dts⟩])) = 0 := by simp [bufTime_concat]
  have hred : (0 : UInt32) ≤ plyRedTime := by decide
  refine ⟨[.cachePcmData [] front.dts time,.doDecode time,.measureAudio,.takeVideo,.decide time],
    {s with
      gotAudio := true
      lstAudioBuffer := front :: (rest ++ [⟨[],[],false,front.dts⟩])
      bufCacheTime := 0
      playing := false
      plyStatus := .cache
      cacheTime := pauseSeconds n * 1000
      cacheDelta := min (2 ^ (n + 1)) plyMaxCache
      rtmpCacheTime := UInt32.ofNat (time + pauseSeconds n * 1000)},?_,?_,?_,
    ⟨⟨rfl,hsys,by simp,hvideo,hcaching,htick⟩,rfl,rfl,hfetching,rfl⟩,rfl,htime,htime.toNat_end n⟩
  · simp [exec_cons, step, transition, hsys, hlist, hcaching, htick, hstatus, hbuf, measured, hvideo, conclude, hred,
      hdelta, cacheDelta_pause]
  · simp [PlayAction.times, exec_cons, reading, htime, hle]
  · simp [trace, reports, PlyDecoder.events, step, transition, hsys, hlist, hcaching, htick, hstatus, hbuf, measured,
      hvideo, conclude, hred, hdelta, report, PlayAction.times]

/-- A sound just before the first one is, by the clock's arithmetic, the longest way behind it. -/
theorem Ready.resume {underWay : Bool} (h : Ready (.paused n since underWay) s now)
    (hle : since + pauseSeconds n * 1000 ≤ time) (htime : Alive time) :
    ∃ as t, exec step s as = some t ∧ exec (reading Alive) now (as.flatMap PlayAction.times) = some time ∧
      trace step reports s as = [.play time] ∧ Ready (.playing (n + 1) time) t time := by
  obtain ⟨⟨⟨hgot,hsys,hlist,hvideo,hcaching,htick⟩,hstatus,hplaying,hfetching,hdelta⟩,rfl,halive,hend⟩ := h
  obtain ⟨front,rest,hlist⟩ := List.exists_cons_of_ne_nil hlist
  have hbuf : bufTime (front :: (rest ++ [⟨[],[],false,front.dts - 1⟩])) = -1 := by
    simp [bufTime_concat]
  have hred : UInt32.ofNat s.cacheTime - plyRedTime ≤ -1 := by
    rw [UInt32.le_iff_toNat_le]
    exact Nat.le_of_lt_succ (UInt32.toNat_lt _)
  have hdue : s.rtmpCacheTime.toNat ≤ time := hend.trans_le hle
  have hnow : now ≤ time := (Nat.le_add_right _ _).trans hle
  let resumed : PlyDecoder := {s with
    gotAudio := true
    lstAudioBuffer := front :: (rest ++ [⟨[],[],false,front.dts - 1⟩])
    bufCacheTime := (-1 : UInt32).toInt32
    plyStatus := .normal
    cacheDelta := pauseSeconds (n + 1)
    playing := true}
  have hexec : exec step s [.cachePcmData [] (front.dts - 1) time,.doDecode time,.measureAudio,.decide time] =
      some resumed := by
    simpa [exec_cons, step, transition, hsys, hlist, hcaching, htick, hstatus, hbuf, measured, conclude, hred, hdue,
      hdelta, resumed] using cacheDelta_resume (n + 1)
  have htrace : trace step reports s
      [.cachePcmData [] (front.dts - 1) time,.doDecode time,.measureAudio,.decide time] = [.play time] := by
    simp [trace, reports, PlyDecoder.events, step, transition, hsys, hlist, hcaching, htick, hstatus, hbuf, measured,
      conclude, hred, hdue, report, PlayAction.times]
  have hrests : resumed.Rests := ⟨rfl,hsys,by simp [resumed],hvideo,hcaching,htick⟩
  cases underWay with
  | true =>
    refine ⟨_,resumed,hexec,?_,htrace,⟨hrests,rfl,rfl,hfetching,rfl⟩,rfl,htime⟩
    simp [PlayAction.times, exec_cons, reading, htime, hnow]
  | false =>
    have hstep : step resumed .getPcmData = some {resumed with fetching := true} := by
      simp [step, transition, resumed, hfetching]
    refine ⟨_ ++ [.getPcmData],{resumed with fetching := true},
      (exec_append_eq_some step).mpr ⟨resumed,hexec,?_⟩,?_,?_,⟨hrests,rfl,rfl,rfl,rfl⟩,rfl,htime⟩
    · exact (exec_cons_eq_some step).mpr ⟨_,hstep,rfl⟩
    · simp [PlayAction.times, exec_cons, reading, htime, hnow]
    · rw [trace_append hexec, htrace]
      simp [trace, reports, PlyDecoder.events, step, transition, resumed, hfetching]

/-- Whatever may come next is brought about by some run. -/
theorem Ready.next (q : Session) (s : PlyDecoder) (now : ℕ) (b : Report) (r : Session) (h : Ready q s now)
    (hnext : Session.next q b = some r) :
    ∃ as t later, exec step s as = some t ∧ exec (reading Alive) now (as.flatMap PlayAction.times) = some later ∧
      trace step reports s as = [b] ∧ Ready r t later := by
  cases q with
  | starting since =>
    cases b with
    | play time =>
      rw [Session.next] at hnext
      split_ifs at hnext with htime
      cases hnext
      obtain ⟨rfl,rfl⟩ := h
      obtain ⟨as,t,h⟩ := Ready.started htime.1 htime.2
      exact ⟨as,t,time,h⟩
    | sound => cases hnext
    | pause time => cases hnext
  | playing n last =>
    cases b with
    | sound =>
      cases hnext
      obtain ⟨as,t,h⟩ := h.sound
      exact ⟨as,t,now,h⟩
    | pause time =>
      rw [Session.next] at hnext
      split_ifs at hnext with htime
      cases hnext
      obtain ⟨as,t,h⟩ := h.pause htime.1 htime.2
      exact ⟨as,t,time,h⟩
    | play time => cases hnext
  | paused n since underWay =>
    cases b with
    | sound =>
      cases underWay with
      | true =>
        cases hnext
        obtain ⟨as,t,h⟩ := h.lastSound
        exact ⟨as,t,now,h⟩
      | false => cases hnext
    | play time =>
      have hplay : (since + pauseSeconds n * 1000 ≤ time ∧ Alive time) ∧ r = .playing (n + 1) time := by
        cases underWay <;> rw [Session.next] at hnext <;> split_ifs at hnext with htime <;> cases hnext <;>
          exact ⟨htime,rfl⟩
      obtain ⟨htime,rfl⟩ := hplay
      obtain ⟨as,t,h⟩ := h.resume htime.1 htime.2
      exact ⟨as,t,time,h⟩
    | pause time => cases underWay <;> cases hnext

theorem Follows.next (q : Session) (s : PlyDecoder) (now : ℕ) (a : PlayAction) (t : PlyDecoder) (later : ℕ)
    (h : Follows q s now) (hclock : exec (reading Alive) now a.times = some later) (hstep : step s a = some t) :
    ∃ r, exec Session.next q (s.reports a) = some r ∧ Follows r t later := by
  obtain ⟨events,htransition⟩ := step_eq_some.mp hstep
  rw [reports, events_of_transition htransition]
  exact h.moves (PlyDecoder.moves htransition) hclock

end

end AdSystem.Stream.PlyDecoder
