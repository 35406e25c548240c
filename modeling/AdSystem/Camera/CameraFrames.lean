import AdSystem.Camera.FrameAssembly

/-! # The frames a camera sends

A camera cuts each frame into pieces of its turn, even or odd, and may mark the last one. Where nothing is
lost, what is published are the frames; where packets are lost, two frames are taken for one only if the end
of the first is lost together with an odd number of whole frames.
-/
namespace AdSystem.Camera
open Transition

namespace Piece

/-- The turn of the camera's `n`th frame. -/
def turn (n : ℕ) : UInt8 := UInt8.ofNat (n % 2)

theorem turn_eq_iff {m n : ℕ} : turn m = turn n ↔ m % 2 = n % 2 := by
  rcases Nat.mod_two_eq_zero_or_one m with hm | hm <;> rcases Nat.mod_two_eq_zero_or_one n with hn | hn <;>
    rw [turn, turn, hm, hn] <;> decide

variable {n : ℕ} {shot : List Piece} {shots : List (List Piece)}

/-- Pieces with the number of their frame. -/
abbrev Arrived := List (ℕ × Piece)

/-- The pieces that are taken for one frame. -/
def runsOf (arrived : Arrived) : List Arrived := arrived.splitBy fun x y => goesOn x.2 y.2

theorem runsOf_unmixed_iff {arrived : Arrived} (h : ∀ x ∈ arrived, x.2.fid = Piece.turn x.1) :
    (∀ run ∈ runsOf arrived, ∀ x ∈ run, ∀ y ∈ run, x.1 = y.1) ↔
      ∀ before x y after, arrived = before ++ x :: y :: after → x.2.eof = false → x.1 % 2 = y.1 % 2 → x.1 = y.1 := by
  rw [runsOf, splitBy_const_iff Prod.fst, List.isChain_iff_forall_rel_of_append_cons_cons]
  have hgoes : ∀ x ∈ arrived, ∀ y ∈ arrived, goesOn x.2 y.2 ↔ x.2.eof = false ∧ x.1 % 2 = y.1 % 2 := by
    intro x hx y hy
    simp [goesOn, h x hx, h y hy, turn_eq_iff]
  constructor
  · intro hrel before x y after hsplit heof hparity
    exact hrel hsplit ((hgoes x (by rw [hsplit]; simp) y (by rw [hsplit]; simp)).mpr ⟨heof,hparity⟩)
  · intro hall x y before after hsplit hxy
    obtain ⟨heof,hparity⟩ := (hgoes x (by rw [hsplit]; simp) y (by rw [hsplit]; simp)).mp hxy
    exact hall before x y after hsplit heof hparity

end Piece

namespace UvcStream
open Piece

/-- Whatever is lost: what is published are the runs of pieces that belong together, and these are of one frame
each unless a piece without the end bit is followed by one of another frame of the same turn. -/
theorem frames_unmixed_iff {as : List StreamAction} {t : UvcStream} {arrived : Arrived}
    (he : exec step start as = some t) (hturn : ∀ x ∈ arrived, x.2.fid = Piece.turn x.1)
    (hread : allRead as = arrived.map Prod.snd) :
    allPublished as ++ (if t.outbuf = [] then [] else [t.outbuf]) =
        framesOf ((runsOf arrived).map (List.map Prod.snd)) ∧
      ((∀ run ∈ runsOf arrived, ∀ x ∈ run, ∀ y ∈ run, x.1 = y.1) ↔
        ∀ before x y after, arrived = before ++ x :: y :: after →
          x.2.eof = false → x.1 % 2 = y.1 % 2 → x.1 = y.1) := by
  refine ⟨?_,runsOf_unmixed_iff hturn⟩
  rw [← (assembled he).all, hread, splitBy_map, runsOf]

end UvcStream

/-! ## Packets that can be read are -/

/-- The packet lies in the transfer's memory, with room for the longest times of a header. -/
def IsoPacket.Readable (pkt : IsoPacket) : Prop :=
  ∀ buf, pkt.pktbuf = some buf → pkt.actualLength ≤ buf.length ∧ 10 ≤ buf.length

namespace UvcStream
open Piece

section
variable {s : UvcStream} {pkt : IsoPacket} {piece : Piece}

end

/-- The reading of packets one after the other. -/
def readings (pkts : List IsoPacket) : List StreamAction :=
  pkts.flatMap fun pkt => if pkt.piece = none then [.header pkt] else [.header pkt,.data]

theorem Moves.readPiece {s t : UvcStream} {a : StreamAction} {events : List StreamEvent} (h : Moves s a t events) :
    events.flatMap UvcStream.readPiece = if a = .data then (s.packet.bind IsoPacket.piece).toList else [] := by
  cases h with
  | bogus hpacket _ | append hpacket _ | finish hpacket _ _ => simp [hpacket, UvcStream.readPiece, swapBuffers]
  | _ => rfl

/-- The end of the camera's frame 0 and its frame 1 are lost: frame 2 is taken for the rest of frame 0. -/
def lostPackets : List IsoPacket := [⟨0,3,some [2,0,5,0,0,0,0,0,0,0]⟩,⟨0,3,some [2,uvcStreamEof,9,0,0,0,0,0,0,0]⟩]

theorem frames_unmixed_lostPackets : ∃ t, exec step start (readings lostPackets) = some t ∧
    allPublished (readings lostPackets) ++ (if t.outbuf = [] then [] else [t.outbuf]) =
      framesOf ((runsOf [(0,⟨0,false,[5]⟩),(2,⟨0,true,[9]⟩)]).map (List.map Prod.snd)) ∧
    allPublished (readings lostPackets) = [[5,9]] ∧
      ¬ ∀ run ∈ runsOf [(0,⟨0,false,[5]⟩),(2,⟨0,true,[9]⟩)], ∀ x ∈ run, ∀ y ∈ run, x.1 = y.1 := by
  have hread : allRead (readings lostPackets) = [((0 : ℕ),(⟨0,false,[5]⟩ : Piece)),(2,⟨0,true,[9]⟩)].map Prod.snd := by
    decide
  have h := frames_unmixed_iff rfl (by decide) hread
  refine ⟨_,rfl,h.1,by decide,fun hunmixed => ?_⟩
  exact absurd (h.2.mp hunmixed [] _ _ [] rfl rfl rfl) (by decide)

end UvcStream
end AdSystem.Camera
