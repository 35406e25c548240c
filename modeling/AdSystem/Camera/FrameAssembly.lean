import AdSystem.Library.Grouping
import AdSystem.Library.Observer
import AdSystem.Camera.UvcStream

/-! # How packets become frames

Of a packet with a good header the stream keeps the bytes, to which of two frames in turn they belong, and
whether they are the frame's last. What it publishes are the runs of packets that belong together.
-/
namespace AdSystem.Camera
open Transition Observer

/-- What a packet brings to the stream. -/
structure Piece where
  fid : UInt8
  eof : Bool
  data : List UInt8
deriving DecidableEq, Repr

/-- A packet shorter than its header brings nothing but the turn of the frame. -/
def IsoPacket.piece (pkt : IsoPacket) : Option Piece :=
  match pkt.pktbuf with
  | some (headerLen :: headerInfo :: buf) =>
    if pkt.status ≠ 0 ∨ pkt.actualLength = 0 ∨ headerInfo &&& uvcStreamErr ≠ 0 then none
    else if pkt.actualLength < headerLen.toNat then some ⟨headerInfo &&& uvcStreamFid,false,[]⟩
    else some ⟨headerInfo &&& uvcStreamFid,headerInfo &&& uvcStreamEof ≠ 0,
      ((headerLen :: headerInfo :: buf).take pkt.actualLength).drop headerLen.toNat⟩
  | _ => none

namespace UvcStream

section
variable {s t : UvcStream} {events : List StreamEvent} {a : StreamAction}

theorem step_eq_some : step s a = some t ↔ ∃ events, transition s a = some (t,events) := by
  rw [step, Option.map_eq_some_iff]
  constructor
  · rintro ⟨⟨t,events⟩,h,rfl⟩
    exact ⟨events,h⟩
  · rintro ⟨events,h⟩
    exact ⟨(t,events),h,rfl⟩

theorem events_of_transition (h : transition s a = some (t,events)) : s.events a = events := by
  rw [UvcStream.events, h]
  rfl

/-- What a step does, case by case. -/
inductive Moves (s : UvcStream) : StreamAction → UvcStream → List StreamEvent → Prop
  | fault {pkt} (hpacket : s.packet = none) (hpiece : pkt.piece = none) : Moves s (.header pkt) s.fault []
  | ignore {pkt} (hpacket : s.packet = none) (hpiece : pkt.piece = none) : Moves s (.header pkt) s []
  | turn {pkt piece pts scr} (hpacket : s.packet = none) (hpiece : pkt.piece = some piece)
      (hfid : s.fid ≠ piece.fid) (hout : s.outbuf ≠ []) :
    Moves s (.header pkt)
      {s.swapBuffers.1 with fid := piece.fid, packet := some pkt, pts := pts, lastScr := scr} s.swapBuffers.2
  | follow {pkt piece pts scr} (hpacket : s.packet = none) (hpiece : pkt.piece = some piece)
      (hturn : s.fid = piece.fid ∨ s.outbuf = []) :
    Moves s (.header pkt) {s with fid := piece.fid, packet := some pkt, pts := pts, lastScr := scr} []
  | bogus {pkt} (hpacket : s.packet = some pkt)
      (hpiece : ∀ piece, pkt.piece = some piece → piece.eof = false ∧ piece.data = []) :
    Moves s .data {s with packet := none}.fault [.read pkt]
  | append {pkt data} (hpacket : s.packet = some pkt)
      (hpiece : ∀ piece, pkt.piece = some piece → (piece.eof = false ∨ s.outbuf ++ data = []) ∧ piece.data = data) :
    Moves s .data {s with packet := none, outbuf := s.outbuf ++ data} [.read pkt]
  | finish {pkt data} (hpacket : s.packet = some pkt)
      (hpiece : ∀ piece, pkt.piece = some piece → piece.eof ∧ piece.data = data) (hout : s.outbuf ++ data ≠ []) :
    Moves s .data {s with packet := none, outbuf := s.outbuf ++ data}.swapBuffers.1
      (.read pkt :: {s with packet := none, outbuf := s.outbuf ++ data}.swapBuffers.2)
  | wakeGood (hcalling : s.calling = false) (hseq : s.lastSeq ≠ s.hold.seq) (hgood : s.hold.bfhErr = 0) :
    Moves s .wake {s with lastSeq := s.hold.seq, calling := true}.populateFrame []
  | wakeBad (hcalling : s.calling = false) (hseq : s.lastSeq ≠ s.hold.seq) (hbad : s.hold.bfhErr ≠ 0) :
    Moves s .wake {s with lastSeq := s.hold.seq, calling := true} []
  | callGood (hcalling : s.calling) (hgood : s.hold.bfhErr = 0) :
    Moves s .call {s with calling := false} [.delivered s.frame]
  | callBad (hcalling : s.calling) (hbad : s.hold.bfhErr ≠ 0) : Moves s .call {s with calling := false} []
  | stop : Moves s .stop {s with running := false} []

theorem readTimes_eq {headerLen headerInfo : UInt8} {buf : List UInt8}
    (h : s.readTimes headerLen headerInfo buf = some t) : ∃ pts scr, t = {s with pts := pts, lastScr := scr} := by
  simp only [readTimes, Option.bind_eq_some_iff, Option.map_eq_some_iff] at h
  obtain ⟨pts,_,scr,_,rfl⟩ := h
  exact ⟨pts,scr,rfl⟩

theorem moves_readHeader {pkt : IsoPacket} (hpacket : s.packet = none) (h : s.readHeader pkt = some (t,events)) :
    Moves s (.header pkt) t events := by
  unfold readHeader at h
  by_cases hstatus : pkt.status = 0
  · rw [if_neg (not_not.mpr hstatus)] at h
    by_cases hlen : pkt.actualLength = 0
    · rw [if_pos hlen] at h
      cases h
      refine .ignore hpacket ?_
      unfold IsoPacket.piece
      split
      · rw [if_pos (.inr (.inl hlen))]
      · rfl
    · rw [if_neg hlen] at h
      split at h
      · rename_i hbuf
        cases h
        exact .fault hpacket (by unfold IsoPacket.piece; rw [hbuf])
      · rename_i headerLen headerInfo buf hbuf
        by_cases herr : headerInfo &&& uvcStreamErr = 0
        · rw [if_neg (not_not.mpr herr)] at h
          obtain ⟨piece,hpiece,hfid⟩ : ∃ piece, pkt.piece = some piece ∧ piece.fid = headerInfo &&& uvcStreamFid := by
            unfold IsoPacket.piece
            rw [hbuf]
            dsimp only
            rw [if_neg (by simp [hstatus, hlen, herr])]
            split_ifs <;> exact ⟨_,rfl,rfl⟩
          dsimp only at h
          by_cases hturn : s.fid ≠ headerInfo &&& uvcStreamFid ∧ s.outbuf ≠ []
          · rw [if_pos hturn, Option.map_eq_some_iff] at h
            obtain ⟨u,hu,h⟩ := h
            obtain ⟨pts,scr,rfl⟩ := readTimes_eq hu
            cases h
            rw [← hfid] at hturn ⊢
            exact .turn hpacket hpiece hturn.1 hturn.2
          · rw [if_neg hturn, Option.map_eq_some_iff] at h
            obtain ⟨u,hu,h⟩ := h
            obtain ⟨pts,scr,rfl⟩ := readTimes_eq hu
            cases h
            rw [← hfid] at hturn ⊢
            exact .follow hpacket hpiece (by tauto)
        · rw [if_pos herr] at h
          cases h
          refine .ignore hpacket ?_
          unfold IsoPacket.piece
          rw [hbuf]
          dsimp only
          rw [if_pos (.inr (.inr herr))]
      · cases h
  · rw [if_pos hstatus] at h
    cases h
    refine .fault hpacket ?_
    unfold IsoPacket.piece
    split
    · rw [if_pos (.inl hstatus)]
    · rfl

theorem moves_readData {pkt : IsoPacket} (hpacket : s.packet = some pkt)
    (h : {s with packet := none}.readData pkt = some (t,events)) : Moves s .data t events := by
  unfold readData at h
  split at h
  · rename_i headerLen headerInfo buf hbuf
    by_cases hshort : pkt.actualLength < headerLen.toNat
    · rw [if_pos hshort] at h
      cases h
      refine .bogus hpacket fun piece hpiece => ?_
      simp only [IsoPacket.piece, hbuf, if_pos hshort] at hpiece
      split_ifs at hpiece
      cases hpiece
      exact ⟨rfl,rfl⟩
    · rw [if_neg hshort] at h
      dsimp only at h
      split_ifs at h with hfits heof
      · cases h
        refine .finish hpacket (fun piece hpiece => ?_) heof.2
        simp only [IsoPacket.piece, hbuf, if_neg hshort] at hpiece
        split_ifs at hpiece
        cases hpiece
        exact ⟨by simpa using heof.1,rfl⟩
      · cases h
        refine .append hpacket fun piece hpiece => ?_
        simp only [IsoPacket.piece, hbuf, if_neg hshort] at hpiece
        split_ifs at hpiece
        cases hpiece
        refine ⟨?_,rfl⟩
        by_cases hbit : headerInfo &&& uvcStreamEof = 0
        · exact .inl (by simp [hbit])
        · exact .inr (not_not.mp (not_and.mp heof hbit))
  · cases h

theorem moves (h : transition s a = some (t,events)) : Moves s a t events := by
  cases a with
  | header pkt =>
    rw [transition] at h
    split_ifs at h with hif
    exact moves_readHeader hif.1 h
  | data =>
    rw [transition, Option.bind_eq_some_iff] at h
    obtain ⟨pkt,hpacket,h⟩ := h
    exact moves_readData hpacket h
  | wake =>
    rw [transition] at h
    by_cases hif : s.running ∧ s.calling = false ∧ s.lastSeq ≠ s.hold.seq
    · rw [if_pos hif] at h
      dsimp only at h
      by_cases hgood : s.hold.bfhErr = 0
      · rw [if_pos hgood] at h
        cases h
        exact .wakeGood hif.2.1 hif.2.2 hgood
      · rw [if_neg hgood] at h
        cases h
        exact .wakeBad hif.2.1 hif.2.2 hgood
    · rw [if_neg hif] at h
      cases h
  | call =>
    rw [transition] at h
    by_cases hcalling : s.calling
    · rw [if_pos hcalling] at h
      by_cases hgood : s.hold.bfhErr = 0
      · rw [if_pos hgood] at h
        cases h
        exact .callGood hcalling hgood
      · rw [if_neg hgood] at h
        cases h
        exact .callBad hcalling hgood
    · rw [if_neg hcalling] at h
      cases h
  | stop =>
    rw [transition] at h
    split_ifs at h
    cases h
    exact .stop

end
end UvcStream

/-! ## Frames as runs of pieces -/

namespace Piece

/-- The next piece goes on with the frame. -/
def goesOn (p q : Piece) : Bool := !p.eof && p.fid == q.fid

def bytes (l : List Piece) : List UInt8 := l.flatMap Piece.data

/-- The frames that runs of pieces make: a run without a byte is none. -/
def framesOf (runs : List (List Piece)) : List (List UInt8) := (runs.map bytes).filter (· ≠ [])

theorem framesOf_append (runs others : List (List Piece)) :
    framesOf (runs ++ others) = framesOf runs ++ framesOf others := by
  simp only [framesOf, List.map_append, List.filter_append]

theorem framesOf_singleton (run : List Piece) : framesOf [run] = if bytes run = [] then [] else [bytes run] := by
  rw [framesOf, List.map_singleton, List.filter_singleton]
  split_ifs <;> simp_all

/-- The frames that are complete, the bytes of the one that is not, and the turn of the last piece. -/
inductive Gathered : List Piece → List (List UInt8) → List UInt8 → UInt8 → Prop
  | nil (fid : UInt8) : Gathered [] [] [] fid
  | ended {l runs run p} (h : l.splitBy goesOn = runs ++ [run ++ [p]]) (heof : p.eof) :
    Gathered l (framesOf (l.splitBy goesOn)) [] p.fid
  | pending {l runs run p} (h : l.splitBy goesOn = runs ++ [run ++ [p]]) (heof : p.eof = false) :
    Gathered l (framesOf runs) (bytes (run ++ [p])) p.fid

variable {l : List Piece} {frames : List (List UInt8)} {out : List UInt8} {fid : UInt8}

theorem Gathered.all (h : Gathered l frames out fid) :
    framesOf (l.splitBy goesOn) = frames ++ if out = [] then [] else [out] := by
  cases h with
  | nil => rfl
  | ended h heof => rw [if_pos rfl, List.append_nil]
  | pending h heof => rw [h, framesOf_append, framesOf_singleton]

/-- The first part of a piece's turn is done: a frame that it does not belong to is complete. -/
def Turned (l : List Piece) (q : Piece) (frames : List (List UInt8)) (out : List UInt8) : Prop :=
  ∃ before rest fid, Gathered l before rest fid ∧
    ((fid = q.fid ∨ rest = []) ∧ frames = before ∧ out = rest ∨
      fid ≠ q.fid ∧ rest ≠ [] ∧ frames = before ++ [rest] ∧ out = [])

variable {q : Piece}

theorem Turned.all (h : Turned l q frames out) :
    framesOf (l.splitBy goesOn) = frames ++ if out = [] then [] else [out] := by
  obtain ⟨before,rest,fid,h,⟨_,rfl,rfl⟩ | ⟨_,hrest,rfl,rfl⟩⟩ := h
  · exact h.all
  · rw [h.all, if_neg hrest, if_pos rfl, List.append_nil]

/-- The piece goes to the run that is open, or begins one. -/
theorem Turned.run (h : Turned l q frames out) :
    ∃ runs run, (l ++ [q]).splitBy goesOn = runs ++ [run ++ [q]] ∧ frames = framesOf runs ∧ out = bytes run := by
  have hall := h.all
  obtain ⟨before,rest,fid,h,hturn⟩ := h
  cases h with
  | nil =>
    obtain ⟨_,rfl,rfl⟩ | ⟨_,hrest,_⟩ := hturn
    · exact ⟨[],[],rfl,rfl,rfl⟩
    · exact absurd rfl hrest
  | ended h heof =>
    obtain ⟨_,rfl,rfl⟩ | ⟨_,hrest,_⟩ := hturn
    · exact ⟨_,[],splitBy_concat_of_not h (by simp [goesOn, heof]),rfl,rfl⟩
    · exact absurd rfl hrest
  | pending h heof =>
    rename_i runs run p
    by_cases hfid : p.fid = q.fid
    · obtain ⟨_,rfl,rfl⟩ | ⟨hne,_⟩ := hturn
      · exact ⟨runs,run ++ [p],splitBy_concat_of_rel h (by simp [goesOn, heof, hfid]),rfl,rfl⟩
      · exact absurd hfid hne
    · have hout : out = [] := by
        obtain ⟨h,_,rfl⟩ | ⟨_,_,_,rfl⟩ := hturn
        · exact h.resolve_left hfid
        · rfl
      rw [hout, if_pos rfl, List.append_nil] at hall
      exact ⟨_,[],splitBy_concat_of_not h (by simp [goesOn, hfid]),hall.symm,hout⟩

theorem Turned.append (h : Turned l q frames out) (hq : q.eof = false ∨ out ++ q.data = []) :
    Gathered (l ++ [q]) frames (out ++ q.data) q.fid := by
  obtain ⟨runs,run,hruns,rfl,rfl⟩ := h.run
  have hbytes : bytes run ++ q.data = bytes (run ++ [q]) := by simp [bytes]
  rw [hbytes] at hq ⊢
  cases heof : q.eof with
  | false => exact .pending hruns heof
  | true =>
    have hnone := hq.resolve_left (by simp [heof])
    have hended := Gathered.ended hruns heof
    rw [hruns, framesOf_append, framesOf_singleton, if_pos hnone, List.append_nil] at hended
    rw [hnone]
    exact hended

theorem Turned.finish (h : Turned l q frames out) (heof : q.eof) (hout : out ++ q.data ≠ []) :
    Gathered (l ++ [q]) (frames ++ [out ++ q.data]) [] q.fid := by
  obtain ⟨runs,run,hruns,rfl,rfl⟩ := h.run
  have hbytes : bytes run ++ q.data = bytes (run ++ [q]) := by simp [bytes]
  have hended := Gathered.ended hruns heof
  rw [hbytes] at hout ⊢
  rwa [hruns, framesOf_append, framesOf_singleton, if_neg hout] at hended

end Piece

namespace UvcStream
open Piece

def readPiece : StreamEvent → List Piece
  | .read pkt => pkt.piece.toList
  | _ => []

def publishedBytes : StreamEvent → List (List UInt8)
  | .published hold => [hold.bytes]
  | _ => []

/-- What has been made of the pieces so far. -/
def Assembled (s : UvcStream) (l : List Piece) (frames : List (List UInt8)) : Prop :=
  match s.packet with
  | none => Gathered l frames s.outbuf s.fid
  | some pkt => ∃ q, pkt.piece = some q ∧ s.fid = q.fid ∧ Turned l q frames s.outbuf

section
variable {s t : UvcStream} {events : List StreamEvent} {a : StreamAction} {l : List Piece}
  {frames : List (List UInt8)}

theorem Assembled.gathered (h : Assembled s l frames) (hpacket : s.packet = none) :
    Gathered l frames s.outbuf s.fid := by
  simpa only [Assembled, hpacket] using h

theorem Assembled.turned {pkt : IsoPacket} (h : Assembled s l frames) (hpacket : s.packet = some pkt) :
    ∃ q, pkt.piece = some q ∧ s.fid = q.fid ∧ Turned l q frames s.outbuf := by
  simpa only [Assembled, hpacket] using h

theorem Assembled.all (h : Assembled s l frames) :
    framesOf (l.splitBy goesOn) = frames ++ if s.outbuf = [] then [] else [s.outbuf] := by
  cases hpacket : s.packet with
  | none => exact (h.gathered hpacket).all
  | some pkt =>
    obtain ⟨_,_,_,h⟩ := h.turned hpacket
    exact h.all

theorem Assembled.moves (h : Assembled s l frames) (hm : Moves s a t events) :
    Assembled t (l ++ events.flatMap readPiece) (frames ++ events.flatMap publishedBytes) := by
  cases hm with
  | fault _ _ => simpa [Assembled, UvcStream.fault] using h
  | ignore _ _ => simpa using h
  | turn hpacket hpiece hfid hout =>
    have hg := h.gathered hpacket
    simp only [Assembled, swapBuffers, List.flatMap_singleton, readPiece, publishedBytes, List.append_nil]
    exact ⟨_,hpiece,rfl,_,_,_,hg,.inr ⟨hfid,hout,rfl,rfl⟩⟩
  | follow hpacket hpiece hturn =>
    have hg := h.gathered hpacket
    simp only [Assembled, List.flatMap_nil, List.append_nil]
    exact ⟨_,hpiece,rfl,_,_,_,hg,.inl ⟨hturn,rfl,rfl⟩⟩
  | bogus hpacket hpiece =>
    obtain ⟨q,hq,hfid,hturned⟩ := h.turned hpacket
    obtain ⟨heof,hdata⟩ := hpiece q hq
    have happend := hturned.append (.inl heof)
    rw [hdata, List.append_nil, ← hfid] at happend
    simpa [Assembled, UvcStream.fault, readPiece, publishedBytes, hq] using happend
  | append hpacket hpiece =>
    obtain ⟨q,hq,hfid,hturned⟩ := h.turned hpacket
    obtain ⟨heof,rfl⟩ := hpiece q hq
    have happend := hturned.append heof
    rw [← hfid] at happend
    simpa [Assembled, readPiece, publishedBytes, hq] using happend
  | finish hpacket hpiece hout =>
    obtain ⟨q,hq,hfid,hturned⟩ := h.turned hpacket
    obtain ⟨heof,rfl⟩ := hpiece q hq
    have hfinish := hturned.finish heof hout
    rw [← hfid] at hfinish
    simpa [Assembled, swapBuffers, readPiece, publishedBytes, hq] using hfinish
  | wakeGood _ _ _ => simpa [Assembled, populateFrame] using h
  | callGood _ _ => simpa [Assembled, readPiece, publishedBytes] using h
  | _ => simpa [Assembled] using h

end

section
variable (as : List StreamAction)

/-- What a run has read and published. -/
def allRead : List Piece := (trace step UvcStream.events start as).flatMap readPiece
def allPublished : List (List UInt8) := (trace step UvcStream.events start as).flatMap publishedBytes

end

theorem Assembled.step {as : List StreamAction} {s t : UvcStream} {a : StreamAction}
    (he : exec step start as = some s) (h : Assembled s (allRead as) (allPublished as)) (hstep : step s a = some t) :
    Assembled t (allRead (as ++ [a])) (allPublished (as ++ [a])) := by
  obtain ⟨events,htransition⟩ := step_eq_some.mp hstep
  have hmoves := h.moves (UvcStream.moves htransition)
  simpa only [allRead, allPublished, trace_append_singleton _ he, events_of_transition htransition,
    List.flatMap_append] using hmoves

theorem assembled {as : List StreamAction} {t : UvcStream} (he : exec step start as = some t) :
    Assembled t (allRead as) (allPublished as) := by
  have hstart : Assembled start (allRead []) (allPublished []) := .nil 0
  exact exec_history (I := fun as s => Assembled s (allRead as) (allPublished as)) hstart
    (fun as s a t he h hstep => h.step he hstep) he

end UvcStream
end AdSystem.Camera
