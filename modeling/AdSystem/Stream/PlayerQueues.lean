import AdSystem.Library.Skipping
import AdSystem.Stream.PlayerRuns

/-! # What becomes of the pictures and sounds a player has

The sounds are heard in the order they came. The pictures go through two lists: from the second one
stretches may be thrown away, but what the decoder gets next is then a key frame.
-/
namespace AdSystem.Stream.PlyDecoder
open Transition Observer

/-- A picture that the decoder can start from. -/
def IsKey (pkt : PlyPacket) : Prop := pkt.frameType = some nalSPS

def cachedPicture : PlayEvent → List PlyPacket
  | .cachedPicture pkt => [pkt]
  | _ => []

def handedPicture : PlayEvent → List PlyPacket
  | .handed pkt => [pkt]
  | _ => []

def skippedPicture : PlayEvent → List PlyPacket
  | .skipped pkt => [pkt]
  | _ => []

def decodedPicture : PlayEvent → List PlyPacket
  | .decoded pkt _ => [pkt]
  | _ => []

def cachedSound : PlayEvent → List PlyPacket
  | .cachedSound pkt => [pkt]
  | _ => []

def playedSound : PlayEvent → List PlyPacket
  | .played pkt => [pkt]
  | _ => []

/-- Only pictures are among the pictures. -/
def OnlyPictures (s : PlyDecoder) : Prop :=
  (∀ pkt ∈ s.lstVideoBuffer, pkt.bVideo) ∧
    ∀ pkt, s.caching = some (.timing pkt) ∨ s.caching = some (.pushing pkt) → pkt.bVideo

section
variable {s t : PlyDecoder} {events : List PlayEvent} {a : PlayAction}

theorem flatMap_skipped (l : List PlyPacket) :
    (l.map PlayEvent.skipped).flatMap cachedPicture = [] ∧ (l.map PlayEvent.skipped).flatMap handedPicture = [] ∧
      (l.map PlayEvent.skipped).flatMap skippedPicture = l ∧
      (l.map PlayEvent.skipped).flatMap decodedPicture = [] ∧
      (l.map PlayEvent.skipped).flatMap cachedSound = [] ∧ (l.map PlayEvent.skipped).flatMap playedSound = [] := by
  simp [List.flatMap_map, cachedPicture, handedPicture, skippedPicture, decodedPicture, cachedSound, playedSound]

theorem Moves.onlyPictures (hs : s.OnlyPictures) (h : Moves s a t events) : t.OnlyPictures := by
  obtain ⟨hlist,hcaching⟩ := hs
  cases h with
  | cacheFirst _ _ => exact ⟨hlist,fun pkt h => by rcases h with h | h <;> cases h; rfl⟩
  | cacheH264Data _ _ => exact ⟨hlist,fun pkt h => by rcases h with h | h <;> cases h; rfl⟩
  | setVideoTime h => exact ⟨hlist,fun pkt h' => by rcases h' with h' | h' <;> cases h'; exact hcaching _ (.inl h)⟩
  | pushVideo h =>
    refine ⟨fun pkt hpkt => ?_,fun pkt h' => by rcases h' with h' | h' <;> cases h'⟩
    rcases List.mem_append.mp hpkt with hpkt | hpkt
    · exact hlist pkt hpkt
    · cases List.mem_singleton.mp hpkt
      exact hcaching _ (.inr h)
  | takeVideo _ hfront hneed =>
    rw [hfront, List.forall_mem_cons] at hlist
    obtain ⟨_,rfl,_⟩ | ⟨_,_,rfl,_⟩ | ⟨_,_,rfl,_⟩ := onNeedDecodeData_cases hneed <;> exact ⟨hlist.2,hcaching⟩
  | _ => exact ⟨hlist,hcaching⟩

/-- The pictures wait in a queue until their time comes. -/
theorem Moves.pictures (hs : s.OnlyPictures) (h : Moves s a t events) :
    s.lstVideoBuffer ++ events.flatMap cachedPicture = events.flatMap handedPicture ++ t.lstVideoBuffer := by
  cases h with
  | takeVideo _ hlist hneed =>
    have hvideo := hs.1 _ (by rw [hlist]; exact List.mem_cons_self)
    obtain ⟨h,_⟩ | ⟨_,_,rfl,rfl⟩ | ⟨_,_,rfl,rfl⟩ := onNeedDecodeData_cases hneed
    · rw [h] at hvideo; cases hvideo
    · obtain ⟨hc,hh,_⟩ := flatMap_skipped s.lstH264Buffer
      simp [hlist, hc, hh, cachedPicture, handedPicture]
    · simp [hlist, cachedPicture, handedPicture]
  | _ => simp [cachedPicture, handedPicture, measured]

/-- The sounds wait in a queue until the device asks for them. -/
theorem Moves.sounds (h : Moves s a t events) :
    s.lstAudioBuffer ++ events.flatMap cachedSound = events.flatMap playedSound ++ t.lstAudioBuffer := by
  cases h with
  | takeVideo _ _ hneed =>
    obtain ⟨_,rfl,rfl⟩ | ⟨_,_,rfl,rfl⟩ | ⟨_,_,rfl,rfl⟩ := onNeedDecodeData_cases hneed
    · simp
    · obtain ⟨_,_,_,_,hc,hp⟩ := flatMap_skipped s.lstH264Buffer
      simp [hc, hp, cachedSound, playedSound]
    · simp [cachedSound, playedSound]
  | getPlayAudio _ hlist => simp [hlist, cachedSound, playedSound]
  | _ => simp [cachedSound, playedSound, measured]

/-- What the decoder has had and has still to come to keeps up with what it was given. -/
theorem Moves.skips {handed decoded : List PlyPacket} (hs : Skips IsKey handed (decoded ++ s.lstH264Buffer))
    (h : Moves s a t events) :
    Skips IsKey (handed ++ events.flatMap handedPicture)
      (decoded ++ events.flatMap decodedPicture ++ t.lstH264Buffer) := by
  cases h with
  | takeVideo _ _ hneed =>
    obtain ⟨_,rfl,rfl⟩ | ⟨_,hkey,rfl,rfl⟩ | ⟨_,_,rfl,rfl⟩ := onNeedDecodeData_cases hneed
    · simpa using hs
    · obtain ⟨_,hh,_,hd,_⟩ := flatMap_skipped s.lstH264Buffer
      have hskip : Skips IsKey (handed ++ [_]) (decoded ++ [_]) := .skip hkey hs
      simpa [hh, hd, handedPicture, decodedPicture] using hskip
    · simpa [handedPicture, decodedPicture] using hs.keep
  | decodeNext _ hlist _ =>
    rw [hlist] at hs
    simpa [handedPicture, decodedPicture] using hs
  | _ => simpa [handedPicture, decodedPicture, measured] using hs

/-- A picture the decoder is given is decoded, thrown away or waits. -/
theorem Moves.freed (h : Moves s a t events) (pkt : PlyPacket) :
    s.lstH264Buffer.count pkt + (events.flatMap handedPicture).count pkt =
      (events.flatMap decodedPicture).count pkt + (events.flatMap skippedPicture).count pkt +
        t.lstH264Buffer.count pkt := by
  cases h with
  | takeVideo _ _ hneed =>
    obtain ⟨_,rfl,rfl⟩ | ⟨_,_,rfl,rfl⟩ | ⟨_,_,rfl,rfl⟩ := onNeedDecodeData_cases hneed
    · simp
    · obtain ⟨_,hh,hk,hd,_⟩ := flatMap_skipped s.lstH264Buffer
      simp [hh, hk, hd, handedPicture, decodedPicture, skippedPicture]
    · simp [handedPicture, decodedPicture, skippedPicture]
  | decodeNext _ hlist _ =>
    rw [hlist]
    simp [handedPicture, decodedPicture, skippedPicture, List.count_cons]
    omega
  | _ => simp [handedPicture, decodedPicture, skippedPicture, measured]

end

section
variable (as : List PlayAction)

/-- What runs have put into the two lists and taken out of them. -/
def allCachedPictures : List PlyPacket := (trace step PlyDecoder.events new as).flatMap cachedPicture
def allHanded : List PlyPacket := (trace step PlyDecoder.events new as).flatMap handedPicture
def allSkipped : List PlyPacket := (trace step PlyDecoder.events new as).flatMap skippedPicture
def allDecoded : List PlyPacket := (trace step PlyDecoder.events new as).flatMap decodedPicture
def allCachedSounds : List PlyPacket := (trace step PlyDecoder.events new as).flatMap cachedSound
def allPlayed : List PlyPacket := (trace step PlyDecoder.events new as).flatMap playedSound

structure KeepsUp (t : PlyDecoder) : Prop where
  onlyPictures : t.OnlyPictures
  pictures : allCachedPictures as = allHanded as ++ t.lstVideoBuffer
  sounds : allCachedSounds as = allPlayed as ++ t.lstAudioBuffer
  skips : Skips IsKey (allHanded as) (allDecoded as ++ t.lstH264Buffer)
  freed : ∀ pkt, (allHanded as).count pkt = (allDecoded as ++ allSkipped as ++ t.lstH264Buffer).count pkt

end

theorem KeepsUp.step {as : List PlayAction} {s t : PlyDecoder} {a : PlayAction} (he : exec step new as = some s)
    (h : KeepsUp as s) (hstep : step s a = some t) : KeepsUp (as ++ [a]) t := by
  obtain ⟨events,htransition⟩ := step_eq_some.mp hstep
  have hm := moves htransition
  have hevents := events_of_transition htransition
  refine ⟨hm.onlyPictures h.onlyPictures,?_,?_,?_,fun pkt => ?_⟩
  · have hpictures := h.pictures
    simp only [allCachedPictures, allHanded, trace_append_singleton _ he, hevents, List.flatMap_append] at hpictures ⊢
    rw [hpictures, List.append_assoc, hm.pictures h.onlyPictures, List.append_assoc]
  · have hsounds := h.sounds
    simp only [allCachedSounds, allPlayed, trace_append_singleton _ he, hevents, List.flatMap_append] at hsounds ⊢
    rw [hsounds, List.append_assoc, hm.sounds, List.append_assoc]
  · have hskips := h.skips
    simp only [allHanded, allDecoded, trace_append_singleton _ he, hevents, List.flatMap_append] at hskips ⊢
    exact hm.skips hskips
  · have hbefore := h.freed pkt
    have hfreed := hm.freed pkt
    simp only [allHanded, allDecoded, allSkipped, trace_append_singleton _ he, hevents, List.flatMap_append,
      List.count_append] at hbefore hfreed ⊢
    omega

theorem keepsUp {as : List PlayAction} {t : PlyDecoder} (he : exec step new as = some t) : KeepsUp as t := by
  have hnew : KeepsUp [] new := ⟨⟨by simp [new],by simp [new]⟩,rfl,rfl,.nil,fun _ => rfl⟩
  exact exec_history hnew (fun as s a t he h hstep => h.step he hstep) he

/-- In every run: the sounds are heard in the order they came; every picture is given to the decoder in
the order it came, and is then decoded, thrown away or still waiting; the decoder has had the pictures up
to some point but for stretches right before a key frame, so that it decodes any other picture right
after the one that came before it. -/
theorem pictures_keep_up (as : List PlayAction) (t : PlyDecoder) (he : exec step new as = some t) :
    allCachedSounds as = allPlayed as ++ t.lstAudioBuffer ∧
      allCachedPictures as = allHanded as ++ t.lstVideoBuffer ∧
      (allHanded as).Perm (allDecoded as ++ allSkipped as ++ t.lstH264Buffer) ∧
      (∃ given, given <+: allCachedPictures as ∧ Skips IsKey given (allDecoded as)) ∧
      ∀ before x y after, allDecoded as = before ++ x :: y :: after → ¬ IsKey y →
        ∃ front back, allCachedPictures as = front ++ x :: y :: back := by
  have h := keepsUp he
  obtain ⟨given,hgiven,hskips⟩ := h.skips.of_append
  have hfront : given <+: allCachedPictures as := by
    rw [h.pictures]
    exact hgiven.trans (List.prefix_append _ _)
  refine ⟨h.sounds,h.pictures,List.perm_iff_count.mpr h.freed,⟨given,hfront,hskips⟩,?_⟩
  intro before x y after hdecoded hy
  rw [hdecoded] at hskips
  obtain ⟨front,back,hall⟩ := hskips.adjacent hy
  obtain ⟨rest,hrest⟩ := hfront
  exact ⟨front,back ++ rest,by rw [← hrest, hall]; simp⟩

/-- A sound is played; of three pictures the decoder comes to the first, and the second is thrown away for the key
frame behind it. -/
def skippedRun : List PlayAction :=
  [.cachePcmData [1] 0 1000,.cachePcmData [2] 1000 1000,.cachePcmData [3] 2000 1000,.doDecode 1300,
    .getPcmData,.getPlayAudio,
    .cacheH264Data [0,0,0,1,0x67] (List.replicate 8 0) 0 1300,.pushVideo,
    .cacheH264Data [0,0,0,1,0x41] (List.replicate 8 0) 0 1300,.pushVideo,
    .cacheH264Data [0,0,0,1,0x67] (List.replicate 8 1) 0 1300,.pushVideo,
    .doDecode 1305,.measureAudio,.takeVideo,.decide 1305,.decodeNext,
    .doDecode 1310,.measureAudio,.takeVideo,.decide 1310,
    .doDecode 1315,.measureAudio,.takeVideo,.decide 1315,.decodeNext]

theorem pictures_keep_up_skipped : ∃ t, exec step new skippedRun = some t ∧
    allCachedSounds skippedRun = allPlayed skippedRun ++ t.lstAudioBuffer ∧
      (allPlayed skippedRun).map PlyPacket.data = [[1]] ∧
      (allHanded skippedRun).Perm (allDecoded skippedRun ++ allSkipped skippedRun ++ t.lstH264Buffer) ∧
      (allDecoded skippedRun).map PlyPacket.data = [[0,0,0,1,0x67],[0,0,0,1,0x67]] ∧
      (allSkipped skippedRun).map PlyPacket.data = [[0,0,0,1,0x41]] := by
  obtain ⟨t,he⟩ : ∃ t, exec step new skippedRun = some t := Option.isSome_iff_exists.mp (by decide +kernel)
  have h := pictures_keep_up skippedRun t he
  exact ⟨t,he,h.1,by decide +kernel,h.2.2.1,by decide +kernel,by decide +kernel⟩

end AdSystem.Stream.PlyDecoder
