import AdSystem.Camera.FrameAssembly

/-! # Which frames the user is given

The calling thread looks at the frame's error twice: before it copies the frame, and after it has let the
lock go. The frame it looks at the second time may be another one.
-/
namespace AdSystem.Camera.UvcStream
open Transition Observer

def publishedHold : StreamEvent → List HoldBuf
  | .published hold => [hold]
  | _ => []

def deliveredFrame : StreamEvent → List UvcFrame
  | .delivered frame => [frame]
  | _ => []

/-- The frames that came without an error. -/
def good (holds : List HoldBuf) : List (List UInt8) := (holds.filter (·.bfhErr = 0)).map HoldBuf.bytes

/-- No good frame takes the place of a bad one that the calling thread is just passing over. -/
def Quiet (s : UvcStream) (a : StreamAction) : Prop :=
  s.calling → s.hold.bfhErr ≠ 0 → ∀ hold ∈ (s.events a).flatMap publishedHold, hold.bfhErr ≠ 0

instance (s : UvcStream) (a : StreamAction) : Decidable (s.Quiet a) := inferInstanceAs (Decidable (_ → _))

section
variable {s t : UvcStream} {events : List StreamEvent} {a : StreamAction} {holds : List HoldBuf}

theorem good_append (holds others : List HoldBuf) : good (holds ++ others) = good holds ++ good others := by
  simp only [good, List.filter_append, List.map_append]

/-- The reading thread leaves alone what the calling thread has. -/
theorem Moves.reading (h : Moves s a t events) (ha : a = .data ∨ ∃ pkt, a = .header pkt) :
    t.lastSeq = s.lastSeq ∧ t.calling = s.calling ∧ t.frame = s.frame ∧ events.flatMap deliveredFrame = [] ∧
      (events.flatMap publishedHold = [] ∧ t.hold = s.hold ∧ t.seq = s.seq ∨
        ∃ hold, events.flatMap publishedHold = [hold] ∧ hold.seq = s.seq ∧ t.hold = hold ∧ t.seq = s.seq + 1) := by
  cases h with
  | fault _ _ => exact ⟨rfl,rfl,rfl,rfl,.inl ⟨rfl,rfl,rfl⟩⟩
  | ignore _ _ => exact ⟨rfl,rfl,rfl,rfl,.inl ⟨rfl,rfl,rfl⟩⟩
  | turn _ _ _ _ => exact ⟨rfl,rfl,rfl,rfl,.inr ⟨_,rfl,rfl,rfl,rfl⟩⟩
  | follow _ _ _ => exact ⟨rfl,rfl,rfl,rfl,.inl ⟨rfl,rfl,rfl⟩⟩
  | bogus _ _ => exact ⟨rfl,rfl,rfl,rfl,.inl ⟨rfl,rfl,rfl⟩⟩
  | append _ _ => exact ⟨rfl,rfl,rfl,rfl,.inl ⟨rfl,rfl,rfl⟩⟩
  | finish _ _ _ => exact ⟨rfl,rfl,rfl,rfl,.inr ⟨_,rfl,rfl,rfl,rfl⟩⟩
  | _ => obtain h | ⟨_,h⟩ := ha <;> cases h

/-- The frames the calling thread has come past are the first, which it takes for one it has seen, and
`seen` more of them. -/
structure Delivering (s : UvcStream) (holds : List HoldBuf) (frames : List UvcFrame) (seen : ℕ) : Prop where
  seen_le : seen ≤ holds.tail.length
  lastSeq : s.lastSeq = UInt32.ofNat seen
  seq : s.seq = UInt32.ofNat holds.length
  holdSeq : s.hold.seq = UInt32.ofNat holds.tail.length
  last : ∀ hold, holds.getLast? = some hold → s.hold = hold
  delivered : (frames.map UvcFrame.data).Sublist (good (holds.tail.take seen))
  calling : s.calling → s.hold.bfhErr ≠ 0 ∨
    (frames.map UvcFrame.data ++ [s.frame.data]).Sublist (good (holds.tail.take seen))

variable {frames : List UvcFrame} {seen : ℕ}

theorem tail_take_append {l : List HoldBuf} (h : seen ≤ l.tail.length) (m : List HoldBuf) :
    (l ++ m).tail.take seen = l.tail.take seen := by
  cases l with
  | nil =>
    cases Nat.le_zero.mp h
    rfl
  | cons a l => exact List.take_append_of_le_length h

theorem Delivering.reads (h : Delivering s holds frames seen) (hm : Moves s a t events) (hquiet : s.Quiet a)
    (hevents : s.events a = events) (ha : a = .data ∨ ∃ pkt, a = .header pkt) :
    Delivering t (holds ++ events.flatMap publishedHold) (frames ++ events.flatMap deliveredFrame) seen := by
  obtain ⟨hlast,hcalling,hframe,hnone,hpublished⟩ := hm.reading ha
  rw [hnone, List.append_nil]
  obtain ⟨hp,hhold,hseq⟩ | ⟨hold,hp,hholdSeq,hhold,hseq⟩ := hpublished
  · rw [hp, List.append_nil]
    exact ⟨h.seen_le,by rw [hlast]; exact h.lastSeq,by rw [hseq]; exact h.seq,by rw [hhold]; exact h.holdSeq,
      by rw [hhold]; exact h.last,h.delivered,by rw [hcalling, hhold, hframe]; exact h.calling⟩
  · rw [hp]
    have htail : (holds ++ [hold]).tail.length = holds.length := by simp
    refine ⟨?_,by rw [hlast]; exact h.lastSeq,?_,?_,?_,?_,?_⟩
    · rw [htail]
      exact h.seen_le.trans (by simp)
    · rw [hseq, h.seq, List.length_append]
      exact (UInt32.ofNat_add _ _).symm
    · rw [hhold, hholdSeq, h.seq, htail]
    · intro last hl
      rw [List.getLast?_concat] at hl
      cases hl
      exact hhold
    · rw [tail_take_append h.seen_le]
      exact h.delivered
    · intro hc
      rw [hcalling] at hc
      rw [tail_take_append h.seen_le, hframe, hhold]
      refine (h.calling hc).imp_left fun hbad => ?_
      exact hquiet hc hbad hold (by rw [hevents, hp]; exact List.mem_singleton_self hold)

/-- What has been published since is all in the part not yet come past. -/
theorem Delivering.lt_of_ne (h : Delivering s holds frames seen) (hseq : s.lastSeq ≠ s.hold.seq) :
    seen < holds.tail.length ∧ holds.getLast? = some s.hold := by
  have hne : seen ≠ holds.tail.length := by
    rintro rfl
    exact hseq (h.lastSeq.trans h.holdSeq.symm)
  have hlt := lt_of_le_of_ne h.seen_le hne
  have hnonempty : holds ≠ [] := by
    rintro rfl
    exact absurd hlt (Nat.not_lt_zero _)
  exact ⟨hlt,by rw [List.getLast?_eq_some_getLast hnonempty, h.last _ (List.getLast?_eq_some_getLast hnonempty)]⟩

theorem Delivering.sublist_all (h : Delivering s holds frames seen) :
    (frames.map UvcFrame.data).Sublist (good (holds.tail.take holds.tail.length)) := by
  refine h.delivered.trans ?_
  rw [List.take_length]
  conv_rhs => rw [← List.take_append_drop seen holds.tail, good_append]
  exact List.sublist_append_left _ _

/-- The frame that is copied is the last one. -/
theorem Delivering.sublist_copied (h : Delivering s holds frames seen) (hseq : s.lastSeq ≠ s.hold.seq)
    (hgood : s.hold.bfhErr = 0) :
    (frames.map UvcFrame.data ++ [s.hold.bytes]).Sublist (good (holds.tail.take holds.tail.length)) := by
  obtain ⟨hlt,hlast⟩ := h.lt_of_ne hseq
  obtain ⟨init,hinit⟩ := List.getLast?_eq_some_iff.mp hlast
  have hdelivered := h.delivered
  rw [List.take_length]
  cases init with
  | nil =>
    rw [hinit] at hlt
    exact absurd hlt (Nat.not_lt_zero _)
  | cons first init =>
    have htail : holds.tail = init ++ [s.hold] := by rw [hinit]; rfl
    rw [htail] at hlt hdelivered ⊢
    have hle : seen ≤ init.length := by
      rw [List.length_append, List.length_singleton] at hlt
      omega
    have hone : good [s.hold] = [s.hold.bytes] := by simp [good, hgood]
    rw [List.take_append_of_le_length hle] at hdelivered
    rw [good_append, hone]
    refine (hdelivered.trans ?_).append (List.Sublist.refl _)
    conv_rhs => rw [← List.take_append_drop seen init, good_append]
    exact List.sublist_append_left _ _

theorem Delivering.moves (h : Delivering s holds frames seen) (hm : Moves s a t events) (hquiet : s.Quiet a)
    (hevents : s.events a = events) :
    ∃ seen', Delivering t (holds ++ events.flatMap publishedHold) (frames ++ events.flatMap deliveredFrame) seen' := by
  have hreads := h.reads hm hquiet hevents
  cases hm with
  | wakeGood _ hseq hgood =>
    rw [List.flatMap_nil, List.flatMap_nil, List.append_nil, List.append_nil]
    exact ⟨holds.tail.length,le_rfl,h.holdSeq,h.seq,h.holdSeq,h.last,h.sublist_all,
      fun _ => .inr (h.sublist_copied hseq hgood)⟩
  | wakeBad _ hseq hbad =>
    rw [List.flatMap_nil, List.flatMap_nil, List.append_nil, List.append_nil]
    exact ⟨holds.tail.length,le_rfl,h.holdSeq,h.seq,h.holdSeq,h.last,h.sublist_all,fun _ => .inl hbad⟩
  | callGood hcalling hgood =>
    have hcopied := (h.calling hcalling).resolve_left (not_not.mpr hgood)
    refine ⟨seen,?_⟩
    simp only [List.flatMap_singleton, publishedHold, deliveredFrame, List.append_nil]
    exact ⟨h.seen_le,h.lastSeq,h.seq,h.holdSeq,h.last,by simpa using hcopied,fun h => (by cases h)⟩
  | callBad _ _ =>
    rw [List.flatMap_nil, List.flatMap_nil, List.append_nil, List.append_nil]
    exact ⟨seen,h.seen_le,h.lastSeq,h.seq,h.holdSeq,h.last,h.delivered,fun h => (by cases h)⟩
  | stop =>
    rw [List.flatMap_nil, List.flatMap_nil, List.append_nil, List.append_nil]
    exact ⟨seen,h.seen_le,h.lastSeq,h.seq,h.holdSeq,h.last,h.delivered,h.calling⟩
  | fault _ _ | ignore _ _ | turn _ _ _ _ | follow _ _ _ => exact ⟨seen,hreads (.inr ⟨_,rfl⟩)⟩
  | bogus _ _ | append _ _ | finish _ _ _ => exact ⟨seen,hreads (.inl rfl)⟩

end

section
variable (as : List StreamAction)

/-- What a run has published, with the errors, and what the user was given. -/
def allHolds : List HoldBuf := (trace step UvcStream.events start as).flatMap publishedHold
def allDelivered : List UvcFrame := (trace step UvcStream.events start as).flatMap deliveredFrame

end

theorem delivering {as : List StreamAction} {t : UvcStream} (he : exec step start as = some t) :
    Along step Quiet start as → ∃ seen, Delivering t (allHolds as) (allDelivered as) seen := by
  have hstart : Along step Quiet start [] → ∃ seen, Delivering start (allHolds []) (allDelivered []) seen := by
    refine fun _ => ⟨0,le_rfl,rfl,rfl,rfl,fun hold h => ?_,List.Sublist.refl _,fun h => ?_⟩ <;> cases h
  refine exec_history (I := fun as s => Along step Quiet start as → ∃ seen, Delivering s (allHolds as)
    (allDelivered as) seen) hstart (fun as s a t he h hstep hquiet => ?_) he
  obtain ⟨hbefore,hquiet⟩ := (along_append_singleton he).mp hquiet
  obtain ⟨seen,h⟩ := h hbefore
  obtain ⟨events,htransition⟩ := step_eq_some.mp hstep
  have hevents := events_of_transition htransition
  obtain ⟨seen',h'⟩ := h.moves (UvcStream.moves htransition) hquiet hevents
  refine ⟨seen',?_⟩
  simpa only [allHolds, allDelivered, trace_append_singleton _ he, hevents, List.flatMap_append] using h'

/-- The user is given good frames, each once and in their order, and never the first one published. -/
theorem frames_delivered (as : List StreamAction) (t : UvcStream) (he : exec step start as = some t)
    (hquiet : Along step Quiet start as) :
    ((allDelivered as).map UvcFrame.data).Sublist (good (allHolds as).tail) := by
  obtain ⟨seen,h⟩ := delivering he hquiet
  refine h.delivered.trans ?_
  conv_rhs => rw [← List.take_append_drop seen (allHolds as).tail, good_append]
  exact List.sublist_append_left _ _

/-- A packet of one byte, the last of its frame. -/
def onePacket (fid byte : UInt8) : IsoPacket := ⟨0,3,some [2,fid ||| uvcStreamEof,byte]⟩

def twoFrames : List StreamAction :=
  [.header (onePacket 0 5),.data,.header (onePacket 1 6),.data,.wake,.call]

theorem frames_delivered_twoFrames :
    ∃ t, exec step start twoFrames = some t ∧ ((allDelivered twoFrames).map UvcFrame.data).Sublist [[6]] := by
  exact ⟨_,rfl,frames_delivered twoFrames _ rfl (by decide)⟩

/-- A bad frame is passed over, and a good one comes before the second look: the frame of the first call is
given out again. -/
example : (allDelivered (twoFrames ++ [.header ⟨1,0,none⟩,.header (onePacket 0 7),.data,.wake,
    .header (onePacket 1 8),.data,.call])).map UvcFrame.data = [[6],[6]] := by decide

end AdSystem.Camera.UvcStream
