import AdSystem.Stream.PushRuns

/-! # What becomes of the queued data

The thread takes the data out in the order it was queued. Everything it takes is freed once, unless
the connection fails on it: that packet is never freed.
-/
namespace AdSystem.Stream.AnyRtmpPush
open Transition Observer

def queuedData : PushEvent → List EncData
  | .queued e => [e]
  | _ => []

def takenData : PushEvent → List EncData
  | .taken e => [e]
  | _ => []

def freedData : PushEvent → List EncData
  | .freed e => [e]
  | _ => []

section
variable (s : AnyRtmpPush)

/-- The packet that is being written. -/
def inHand : List EncData :=
  match s.turn with
  | some (.sending (some e)) => [e]
  | _ => []

/-- What the call under way has still to queue. -/
def pending : List EncData :=
  match s.call with
  | .queueing pieces => pieces
  | _ => []

/-- The packet whose writing breaks the connection. -/
def failedOn : PushAction → List EncData
  | .writeData net _ _ =>
    match s.turn, s.rtmp with
    | some (.sending (some e)), some ctx =>
      match write net s.sound ctx e with
      | some (ret,_) => if Passes e ret then [] else [e]
      | none => []
    | _, _ => []
  | _ => []

/-- Metadata is never queued. -/
def Media : Prop := ∀ e ∈ s.pending ++ (s.lstEncData ++ s.inHand), e.type ≠ .metaData

/-- Whether there is a connection left that can be lost. -/
def connections : ℕ :=
  match s.turn with
  | none => if s.rtmpStatus = .published then 1 else 0
  | some .taking => 1
  | some (.sending _) => 1
  | _ => 0

end

section
variable {s t : AnyRtmpPush} {events : List PushEvent} {a : PushAction}

theorem flatMap_taken (l : List EncData) : (l.flatMap fun e => [.taken e,.freed e]).flatMap takenData = l := by
  induction l with
  | nil => rfl
  | cons e l ih => rw [List.flatMap_cons, List.flatMap_append, ih]; rfl

theorem flatMap_freed (l : List EncData) : (l.flatMap fun e => [.taken e,.freed e]).flatMap freedData = l := by
  induction l with
  | nil => rfl
  | cons e l ih => rw [List.flatMap_cons, List.flatMap_append, ih]; rfl

theorem flatMap_queued (l : List EncData) : (l.flatMap fun e => [.taken e,.freed e]).flatMap queuedData = [] := by
  induction l with
  | nil => rfl
  | cons e l ih => rw [List.flatMap_cons, List.flatMap_append, ih]; rfl

/-- The statistics touch none of the data. -/
theorem statics_frame (s : AnyRtmpPush) (now later : ℤ) :
    (∃ statTime netBand, (s.statics now later).1 = {s with statTime := statTime, netBand := netBand}) ∧
      (s.statics now later).2.flatMap queuedData = [] ∧ (s.statics now later).2.flatMap takenData = [] ∧
      (s.statics now later).2.flatMap freedData = [] := by
  obtain ⟨_,_,_,heq⟩ | ⟨_,heq⟩ := s.statics_cases now later <;> rw [heq]
  · exact ⟨⟨_,_,rfl⟩,rfl,rfl,rfl⟩
  · exact ⟨⟨_,_,rfl⟩,rfl,rfl,rfl⟩

theorem callDisconnect_frame (s : AnyRtmpPush) :
    (∃ rtmp status retrys, status ≠ .published ∧ s.callDisconnect.1 =
      {s with needKeyframe := true, rtmp := rtmp, rtmpStatus := status, retrys := retrys}) ∧
      s.callDisconnect.2.flatMap queuedData = [] ∧ s.callDisconnect.2.flatMap takenData = [] ∧
      s.callDisconnect.2.flatMap freedData = [] := by
  have hinit : RtmpStatus.init ≠ .published := by decide
  have hclosed : RtmpStatus.closed ≠ .published := by decide
  obtain ⟨h,heq⟩ | ⟨_,_,heq⟩ | ⟨_,_,heq⟩ := s.callDisconnect_cases <;> rw [heq]
  · exact ⟨⟨none,.closed,s.retrys,hclosed,by rw [← h]⟩,rfl,rfl,rfl⟩
  · exact ⟨⟨_,_,_,hinit,rfl⟩,rfl,rfl,rfl⟩
  · exact ⟨⟨_,_,_,hinit,rfl⟩,rfl,rfl,rfl⟩

/-- The queue is a queue. -/
theorem Moves.queue (h : Moves s a t events) :
    s.lstEncData ++ events.flatMap queuedData = events.flatMap takenData ++ t.lstEncData := by
  cases h with
  | refuse _ =>
    obtain ⟨⟨_,_,_,_,heq⟩,hq,ht,_⟩ := callDisconnect_frame {s with turn := none}
    rw [heq, hq, ht]
    simp
  | fail _ _ _ _ _ =>
    obtain ⟨⟨_,_,_,_,heq⟩,hq,ht,_⟩ := callDisconnect_frame {s with turn := none, rtmp := _}
    rw [heq, hq, ht]
    simp
  | sendNothing _ _ =>
    obtain ⟨⟨_,_,heq⟩,hq,ht,_⟩ := statics_frame {s with turn := none} _ _
    rw [heq, hq, ht]
    simp
  | send _ _ _ _ _ =>
    obtain ⟨⟨_,_,heq⟩,hq,ht,_⟩ := statics_frame {s with turn := none, rtmp := _, netBand := _} _ _
    rw [heq, List.flatMap_cons, List.flatMap_cons, hq, ht]
    simp [queuedData, takenData]
  | clear _ =>
    rw [List.flatMap_append, List.flatMap_append, flatMap_queued, flatMap_taken]
    simp [queuedData, takenData]
  | destroy _ _ =>
    rw [flatMap_queued, flatMap_taken]
  | takeData _ => cases hl : s.lstEncData <;> simp [queuedData, takenData]
  | _ => simp [queuedData, takenData]

theorem Media.mono (hs : s.Media) (hcall : t.pending ⊆ s.pending)
    (hrest : t.lstEncData ++ t.inHand ⊆ s.lstEncData ++ s.inHand) : t.Media := fun e he =>
  hs e (List.append_subset.mpr
    ⟨fun _ h => List.mem_append_left _ (hcall h),fun _ h => List.mem_append_right _ (hrest h)⟩ he)

/-- A turn that has ended has nothing in hand. -/
theorem Media.ended (hs : s.Media) (hcall : t.call = s.call) (hlist : t.lstEncData = s.lstEncData)
    (hturn : t.turn = none) : t.Media := by
  refine hs.mono (by rw [pending, pending, hcall]; exact List.Subset.refl _) ?_
  rw [hlist, inHand, hturn]
  exact fun _ h => List.mem_append_left _ (by simpa using h)

theorem Moves.media (hs : s.Media) (h : Moves s a t events) : t.Media := by
  cases h with
  | setH264Data _ _ _ | dropFrame _ _ => exact hs.mono (List.nil_subset _) (List.Subset.refl _)
  | takeFrame _ _ =>
    intro e he
    rcases List.mem_append.mp he with he | he
    · obtain ⟨nal,_,rfl⟩ := List.mem_map.mp he
      exact fun h => by cases h
    · exact hs e (List.mem_append_right _ he)
  | takeSound _ _ _ =>
    intro e he
    rcases List.mem_append.mp he with he | he
    · cases List.mem_singleton.mp he
      exact fun h => by cases h
    · exact hs e (List.mem_append_right _ he)
  | queueData hcall =>
    rename_i e pieces
    have hpending : s.pending = e :: pieces := by rw [pending, hcall]
    intro x hx
    refine hs x ?_
    rw [hpending]
    have hrest : pending {s with
        call := if pieces = [] then .idle else .queueing pieces
        lstEncData := s.lstEncData ++ [e]} = pieces := by
      simp only [pending]
      split_ifs with hnil
      · rw [hnil]
      · rfl
    rw [hrest] at hx
    simp only [List.mem_append, List.mem_cons, List.not_mem_nil, or_false] at hx ⊢
    have hhand : inHand {s with
        call := if pieces = [] then .idle else .queueing pieces
        lstEncData := s.lstEncData ++ [e]} = s.inHand := rfl
    rw [hhand] at hx
    tauto
  | refuse _ =>
    obtain ⟨⟨_,_,_,_,heq⟩,_⟩ := callDisconnect_frame {s with turn := none}
    rw [heq]
    exact hs.ended rfl rfl rfl
  | fail _ _ _ _ _ =>
    obtain ⟨⟨_,_,_,_,heq⟩,_⟩ := callDisconnect_frame {s with turn := none, rtmp := _}
    rw [heq]
    exact hs.ended rfl rfl rfl
  | sendNothing _ _ =>
    obtain ⟨⟨_,_,heq⟩,_⟩ := statics_frame {s with turn := none} _ _
    rw [heq]
    exact hs.ended rfl rfl rfl
  | send _ _ _ _ _ =>
    obtain ⟨⟨_,_,heq⟩,_⟩ := statics_frame {s with turn := none, rtmp := _, netBand := _} _ _
    rw [heq]
    exact hs.ended rfl rfl rfl
  | takeData _ =>
    refine hs.mono (List.Subset.refl _) ?_
    cases hl : s.lstEncData with
    | nil => simp [inHand]
    | cons e l =>
      intro x hx
      simp only [inHand, List.head?_cons, List.tail_cons, List.mem_append, List.mem_singleton] at hx
      simp only [List.mem_append, List.mem_cons]
      tauto
  | sendMeta _ _ _ _ | advance _ _ => exact hs.ended rfl rfl rfl
  | clear _ => exact hs.mono (List.Subset.refl _) (List.nil_subset _)
  | destroy _ _ => exact hs.mono (List.Subset.refl _) (List.subset_append_right _ _)
  | publish _ | beginTaking _ _ _ _ | beginTrying _ _ _ _ _ =>
    exact hs.mono (List.Subset.refl _) fun _ h => List.mem_append_left _ (by simpa [inHand] using h)
  | dropSound _ | enableOnlyAudioMode | close _ _ => exact hs

theorem failedOn_of_write {net : Network} {now later : ℤ} {e : EncData} {ctx ctx' : Context} {ret : ℤ}
    (hturn : s.turn = some (.sending (some e))) (hrtmp : s.rtmp = some ctx)
    (hwrite : write net s.sound ctx e = some (ret,ctx')) :
    s.failedOn (.writeData net now later) = if Passes e ret then [] else [e] := by
  simp only [failedOn, hturn, hrtmp, hwrite]

theorem inHand_of_turn {data : Option EncData} (h : s.turn = some (.sending data)) : s.inHand = data.toList := by
  cases data <;> simp [inHand, h]

theorem inHand_of_ne (h : ∀ data, s.turn ≠ some (.sending data)) : s.inHand = [] := by
  rw [inHand]
  split
  · rename_i e hturn
    exact absurd hturn (h _)
  · rfl

theorem Media.inHand {e : EncData} (hs : s.Media) (h : s.turn = some (.sending (some e))) : e.type ≠ .metaData := by
  refine hs e (List.mem_append_right _ (List.mem_append_right _ ?_))
  rw [inHand_of_turn h]
  exact List.mem_singleton.mpr rfl

/-- What is taken is freed, in hand, or the packet the connection fails on. -/
theorem Moves.hand (hs : s.Media) (h : Moves s a t events) (e : EncData) :
    (s.inHand ++ events.flatMap takenData).count e =
      (events.flatMap freedData ++ t.inHand ++ s.failedOn a).count e := by
  cases h with
  | refuse hturn =>
    obtain ⟨⟨_,_,_,_,heq⟩,_,ht,hf⟩ := callDisconnect_frame {s with turn := none}
    rw [heq, ht, hf, inHand_of_ne (by simp [hturn])]
    simp [inHand, failedOn]
  | fail hturn hrtmp _ hwrite hpass =>
    obtain ⟨⟨_,_,_,_,heq⟩,_,ht,hf⟩ := callDisconnect_frame {s with turn := none, rtmp := _}
    rw [heq, ht, hf, inHand_of_turn hturn, failedOn_of_write hturn hrtmp hwrite, if_neg hpass]
    simp [inHand]
  | sendNothing hturn _ =>
    obtain ⟨⟨_,_,heq⟩,_,ht,hf⟩ := statics_frame {s with turn := none} _ _
    rw [heq, ht, hf, inHand_of_turn hturn]
    simp [inHand, failedOn, hturn]
  | send hturn hrtmp _ hwrite hpass =>
    obtain ⟨⟨_,_,heq⟩,_,ht,hf⟩ := statics_frame {s with turn := none, rtmp := _, netBand := _} _ _
    rw [heq, List.flatMap_cons, List.flatMap_cons, ht, hf, inHand_of_turn hturn, failedOn_of_write hturn hrtmp hwrite,
      if_pos hpass]
    simp [inHand, takenData, freedData]
  | sendMeta hturn _ hmeta _ => exact absurd hmeta (hs.inHand hturn)
  | clear hturn =>
    rw [List.flatMap_append, List.flatMap_append, flatMap_freed, flatMap_taken, inHand_of_ne (by simp [hturn])]
    simp [takenData, freedData, inHand, failedOn]
  | destroy _ hturn =>
    rw [flatMap_freed, flatMap_taken, inHand_of_ne (by simp [hturn])]
    simp [inHand, failedOn, hturn]
  | takeData hturn =>
    rw [inHand_of_ne (by simp [hturn])]
    cases hl : s.lstEncData <;> simp [inHand, takenData, freedData, failedOn]
  | beginTaking _ hturn _ _ | beginTrying _ hturn _ _ _ | advance hturn _ | publish hturn =>
    rw [inHand_of_ne (by simp [hturn])]
    simp [inHand, failedOn]
  | _ => simp [inHand, takenData, freedData, failedOn]

theorem Moves.connections (hs : s.Media) (h : Moves s a t events) :
    (s.failedOn a).length + t.connections ≤ s.connections + (events.flatMap report).count .connected := by
  cases h with
  | refuse hturn =>
    obtain ⟨⟨_,_,_,hstatus,heq⟩,_⟩ := callDisconnect_frame {s with turn := none}
    rw [heq]
    simp [AnyRtmpPush.connections, failedOn, hstatus]
  | fail hturn hrtmp _ hwrite hpass =>
    obtain ⟨⟨_,_,_,hstatus,heq⟩,_⟩ := callDisconnect_frame {s with turn := none, rtmp := _}
    rw [heq, failedOn_of_write hturn hrtmp hwrite, if_neg hpass]
    simp [AnyRtmpPush.connections, hstatus, hturn]
  | sendNothing hturn _ =>
    obtain ⟨⟨_,_,heq⟩,_⟩ := statics_frame {s with turn := none} _ _
    rw [heq]
    simp only [AnyRtmpPush.connections, failedOn, hturn, List.length_nil]
    split_ifs <;> omega
  | send hturn hrtmp _ hwrite hpass =>
    obtain ⟨⟨_,_,heq⟩,_⟩ := statics_frame {s with turn := none, rtmp := _, netBand := _} _ _
    rw [heq, failedOn_of_write hturn hrtmp hwrite, if_pos hpass]
    simp only [AnyRtmpPush.connections, hturn, List.length_nil]
    split_ifs <;> omega
  | sendMeta hturn _ hmeta _ => exact absurd hmeta (hs.inHand hturn)
  | clear hturn =>
    rw [List.flatMap_append, flatMap_report_taken]
    simp only [AnyRtmpPush.connections, failedOn, hturn]
    split_ifs <;> simp [report]
  | beginTaking _ hturn _ hstatus => simp [AnyRtmpPush.connections, failedOn, hturn, hstatus]
  | beginTrying _ hturn _ _ _ => simp [AnyRtmpPush.connections, failedOn]
  | advance hturn hnext =>
    rcases hnext with ⟨_,rfl⟩ | ⟨_,rfl⟩ <;> simp [AnyRtmpPush.connections, failedOn]
  | publish hturn => simp [AnyRtmpPush.connections, failedOn]
  | takeData hturn => simp [AnyRtmpPush.connections, failedOn, hturn]
  | close _ _ =>
    simp only [AnyRtmpPush.connections, failedOn, List.length_nil]
    cases s.turn with
    | none => simp
    | some turn => cases turn <;> simp
  | destroy _ hturn => simp [AnyRtmpPush.connections, failedOn, hturn]
  | _ => simp [AnyRtmpPush.connections, failedOn]

end

section
variable (sound : SoundFormat) (as : List PushAction)

/-- What runs have queued, taken out, freed, and lost in memory. -/
def allQueued : List EncData := (trace step AnyRtmpPush.events (new sound) as).flatMap queuedData
def allTaken : List EncData := (trace step AnyRtmpPush.events (new sound) as).flatMap takenData
def allFreed : List EncData := (trace step AnyRtmpPush.events (new sound) as).flatMap freedData
def allFailed : List EncData := trace step failedOn (new sound) as

structure Accounted (t : AnyRtmpPush) : Prop where
  media : t.Media
  queue : allQueued sound as = allTaken sound as ++ t.lstEncData
  hand : ∀ e, (allTaken sound as).count e = (allFreed sound as ++ t.inHand ++ allFailed sound as).count e
  lost : (allFailed sound as).length + t.connections ≤ (trace step reports (new sound) as).count .connected

end

theorem Accounted.step {sound : SoundFormat} {as : List PushAction} {s t : AnyRtmpPush} {a : PushAction}
    (he : exec step (new sound) as = some s) (h : Accounted sound as s) (hstep : step s a = some t) :
    Accounted sound (as ++ [a]) t := by
  obtain ⟨events,htransition⟩ := step_eq_some.mp hstep
  have hm := moves htransition
  have hevents := events_of_transition htransition
  refine ⟨hm.media h.media,?_,fun e => ?_,?_⟩
  · have hqueue := h.queue
    simp only [allQueued, allTaken, trace_append_singleton _ he, hevents, List.flatMap_append] at hqueue ⊢
    rw [hqueue, List.append_assoc, hm.queue, List.append_assoc]
  · have hbefore := h.hand e
    have hhand := hm.hand h.media e
    simp only [allTaken, allFreed, allFailed, trace_append_singleton _ he, hevents, List.flatMap_append,
      List.count_append] at hbefore hhand ⊢
    omega
  · have hbefore := h.lost
    have hlost := hm.connections h.media
    simp only [allFailed, trace_append_singleton _ he, reports, hevents, List.length_append,
      List.count_append] at hbefore hlost ⊢
    omega

/-- In every run: the data is taken out in the order it was queued; everything taken is freed once, is
in the thread's hand, or is a packet the connection failed on; and there are no more of these than
connections were made. -/
theorem queue_accounted (sound : SoundFormat) (as : List PushAction) (t : AnyRtmpPush)
    (he : exec step (new sound) as = some t) :
    allQueued sound as = allTaken sound as ++ t.lstEncData ∧
      (allTaken sound as).Perm (allFreed sound as ++ t.inHand ++ allFailed sound as) ∧
      (allFailed sound as).length ≤ (trace step reports (new sound) as).count .connected := by
  have hnew : Accounted sound [] (new sound) := ⟨by simp [Media, pending, inHand, new],rfl,fun _ => rfl,Nat.zero_le _⟩
  have h : Accounted sound as t := exec_history hnew (fun as s a t he h hstep => h.step he hstep) he
  have hlost := h.lost
  exact ⟨h.queue,List.perm_iff_count.mpr h.hand,by omega⟩

/-- Of three sounds the first is sent, and the connection fails on the second, which is no sound. -/
def failedRun : List PushAction :=
  [.enableOnlyAudioMode,.beginTurn,.answered true,.beginTurn,.answered true,.beginTurn,.answered true,.clear,
    .setAacData [0xff,0xf9,0x50,0x40,0x01,0x1f,0xfc,0x21] 5,.queueData,.setAacData [1] 6,.queueData,
    .setAacData [2] 7,.queueData,.beginTurn,.takeData,.writeData (fun _ _ => 0) 0 0,
    .beginTurn,.takeData,.writeData (fun _ _ => 0) 1 1]

theorem queue_accounted_failed : ∃ t, exec step (new ⟨10,3,1,0⟩) failedRun = some t ∧
    (allTaken ⟨10,3,1,0⟩ failedRun).Perm (allFreed ⟨10,3,1,0⟩ failedRun ++ t.inHand ++ allFailed ⟨10,3,1,0⟩ failedRun) ∧
      allFreed ⟨10,3,1,0⟩ failedRun = [⟨[0xff,0xf9,0x50,0x40,0x01,0x1f,0xfc,0x21],.audioData,5⟩] ∧
      allFailed ⟨10,3,1,0⟩ failedRun = [⟨[1],.audioData,6⟩] := by
  obtain ⟨t,he⟩ : ∃ t, exec step (new ⟨10,3,1,0⟩) failedRun = some t := Option.isSome_iff_exists.mp (by decide +kernel)
  exact ⟨t,he,(queue_accounted _ failedRun t he).2.1,by decide +kernel,by decide +kernel⟩

end AdSystem.Stream.AnyRtmpPush
