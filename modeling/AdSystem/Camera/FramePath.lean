import AdSystem.Library.Heap
import AdSystem.Library.Transition

/-! # The path of a frame to its observer

The camera's frames are copied to one array, and tasks that hold this array wait on the
camera thread. What a task delivers is what the array holds when it runs.
-/
namespace AdSystem.Camera
open References Transition

/-- The arrays of frames, the tasks that hold one, and what the camera has captured and the
observer has got. -/
structure FramePath where
  arrays : Heap (List UInt8)
  isFirstFrame : Bool
  frameData : Option ℕ
  frameSize : ℕ
  tasks : List ℕ
  captured : List (List UInt8)
  delivered : List (List UInt8)
  threw : Bool

inductive FrameAction where
  | onFrame (frame : List UInt8)
  | runTask
  deriving DecidableEq

namespace FramePath

def initial : FramePath := ⟨.empty,true,none,0,[],[],[],false⟩

/-- The first frame makes the array, as long as it is. -/
def allocate (s : FramePath) (frame : List UInt8) : FramePath :=
  if s.isFirstFrame then
    let made := s.arrays.alloc (List.replicate frame.length 0)
    { s with arrays := made.1, isFirstFrame := false, frameData := some made.2, frameSize := frame.length }
  else s

/-- `frame.get(frameData)` fills the array, and throws when the frame is shorter. -/
def onFrame (s : FramePath) (frame : List UInt8) : FramePath :=
  let s := { s.allocate frame with captured := s.captured ++ [frame] }
  match s.frameData with
  | none => s
  | some frameData =>
    match s.arrays.get frameData with
    | none => s
    | some dst =>
      if frame.length < dst.length then { s with threw := true }
      else
        { s with
          arrays := s.arrays.modify frameData fun dst => frame.take dst.length
          tasks := s.tasks ++ [frameData] }

def step (s : FramePath) : FrameAction → Option FramePath
  | .onFrame frame => some (s.onFrame frame)
  | .runTask =>
    match s.tasks with
    | [] => none
    | frameData :: tasks =>
      (s.arrays.get frameData).map fun data => { s with tasks, delivered := s.delivered ++ [data] }

/-- No frame made the path throw, and the frames delivered are those captured, in order. -/
def Intact (s : FramePath) : Prop := s.threw = false ∧ s.delivered <+: s.captured

/-- A frame is the first one, or as long as the first one; and while a task waits, it is the
frame that the array holds already. -/
def Fits (s : FramePath) : FrameAction → Prop
  | .onFrame frame => s.isFirstFrame = true ∨
    frame.length = s.frameSize ∧ (s.tasks = [] ∨ s.frameData.bind s.arrays.get = some frame)
  | .runTask => True

instance : DecidablePred Intact := fun _ => inferInstanceAs (Decidable (_ ∧ _))

instance (s : FramePath) (a : FrameAction) : Decidable (s.Fits a) :=
  match a with
  | .onFrame _ => inferInstanceAs (Decidable (_ ∨ _))
  | .runTask => isTrue trivial

variable {s t : FramePath} {frame data : List UInt8} {a : FrameAction} {r : ℕ}

/-- The tasks wait for the frames not delivered, which are all the one in the array. -/
structure Holding (s : FramePath) (r : ℕ) (data : List UInt8) : Prop where
  notFirst : s.isFirstFrame = false
  reference : s.frameData = some r
  array : s.arrays.get r = some data
  frameSize : s.frameSize = data.length
  tasks : s.tasks = List.replicate s.tasks.length r
  captured : s.captured = s.delivered ++ List.replicate s.tasks.length data
  quiet : s.threw = false

/-- Nothing was captured, or the array holds what the tasks are to deliver. -/
def InStep (s : FramePath) : Prop :=
  s.isFirstFrame = true ∧ s.tasks = [] ∧ s.captured = [] ∧ s.delivered = [] ∧ s.threw = false ∨
    ∃ r data, s.Holding r data

theorem initial_inStep : initial.InStep := Or.inl ⟨rfl,rfl,rfl,rfl,rfl⟩

theorem InStep.intact (hs : s.InStep) : s.Intact := by
  rcases hs with ⟨_,_,hc,hd,hq⟩ | ⟨r,data,hs⟩
  · exact ⟨hq,by simp [hc, hd]⟩
  · exact ⟨hs.quiet,by rw [hs.captured]; exact List.prefix_append _ _⟩

/-- What a frame does to an array that is there. -/
theorem onFrame_array (hs : s.Holding r data) (frame : List UInt8) :
    s.onFrame frame = if frame.length < data.length then
      { s with captured := s.captured ++ [frame], threw := true }
    else
      { s with
        arrays := s.arrays.modify r fun dst => frame.take dst.length
        tasks := s.tasks ++ [r]
        captured := s.captured ++ [frame] } := by
  simp only [onFrame, allocate, hs.notFirst, Bool.false_eq_true, if_false, hs.reference, hs.array]

theorem onFrame_first (hfirst : s.isFirstFrame = true) (htasks : s.tasks = []) (hc : s.captured = [])
    (hd : s.delivered = []) (hq : s.threw = false) (frame : List UInt8) :
    ∃ r, (s.onFrame frame).Holding r frame := by
  have hget : (s.arrays.alloc (List.replicate frame.length 0)).1.get
      (s.arrays.alloc (List.replicate frame.length 0)).2 = some (List.replicate frame.length 0) :=
    Heap.get_alloc_self
  have hrun : s.onFrame frame =
      { s with
        arrays := (s.arrays.alloc (List.replicate frame.length 0)).1.modify
          (s.arrays.alloc (List.replicate frame.length 0)).2 fun dst => frame.take dst.length
        isFirstFrame := false
        frameData := some (s.arrays.alloc (List.replicate frame.length 0)).2
        frameSize := frame.length
        tasks := [(s.arrays.alloc (List.replicate frame.length 0)).2]
        captured := [frame] } := by
    simp [onFrame, allocate, hfirst, hget, htasks, hc]
  rw [hrun]
  exact ⟨_,rfl,rfl,by simp [hget],rfl,rfl,by simp [hd],hq⟩

theorem onFrame_holding (hs : s.Holding r data) (hsize : frame.length = s.frameSize)
    (hsame : s.tasks = [] ∨ data = frame) : (s.onFrame frame).Holding r frame := by
  rw [hs.frameSize] at hsize
  rw [onFrame_array hs, if_neg (by omega)]
  refine ⟨hs.notFirst,hs.reference,?_,hs.frameSize.trans hsize.symm,?_,?_,hs.quiet⟩
  · simp only [Heap.get_modify_self, hs.array, Option.map_some, ← hsize, List.take_length]
  · rw [List.length_append, List.length_singleton, List.replicate_succ', ← hs.tasks]
  · rw [List.length_append, List.length_singleton, List.replicate_succ', ← List.append_assoc, hs.captured]
    rcases hsame with hnil | rfl
    · simp [hnil]
    · rfl

theorem step_inStep (hs : s.InStep) (hfits : s.Fits a) (h : s.step a = some t) : t.InStep := by
  cases a with
  | onFrame frame =>
    cases h
    rcases hs with ⟨hfirst,htasks,hc,hd,hq⟩ | ⟨r,data,hs⟩
    · obtain ⟨r,hr⟩ := onFrame_first hfirst htasks hc hd hq frame
      exact Or.inr ⟨r,frame,hr⟩
    · obtain ⟨hsize,hsame⟩ := hfits.resolve_left (by rw [hs.notFirst]; decide)
      rw [hs.reference, Option.bind_some, hs.array, Option.some.injEq] at hsame
      exact Or.inr ⟨r,frame,onFrame_holding hs hsize hsame⟩
  | runTask =>
    rcases hs with ⟨_,htasks,_⟩ | ⟨r,data,hs⟩
    · simp only [step, htasks] at h
      cases h
    · cases htasks : s.tasks with
      | nil =>
        simp only [step, htasks] at h
        cases h
      | cons r' tasks =>
        have hall := hs.tasks
        rw [htasks, List.length_cons, List.replicate_succ, List.cons_eq_cons] at hall
        obtain ⟨rfl,htail⟩ := hall
        simp only [step, htasks, hs.array, Option.map_some, Option.some.injEq] at h
        subst h
        refine Or.inr ⟨r',data,hs.notFirst,hs.reference,hs.array,hs.frameSize,htail,?_,hs.quiet⟩
        rw [hs.captured, htasks, List.length_cons, List.replicate_succ, List.append_assoc]
        rfl

theorem exec_runTask {n : ℕ} (hget : s.arrays.get r = some data) (htasks : s.tasks = List.replicate n r) :
    exec step s (List.replicate n .runTask) =
      some { s with tasks := [], delivered := s.delivered ++ List.replicate n data } := by
  induction n generalizing s with
  | zero =>
    have hnil : s.tasks = [] := htasks
    simp only [List.replicate_zero, exec_nil, List.append_nil, ← hnil]
  | succ n ih =>
    have hrun : s.step .runTask =
        some { s with tasks := List.replicate n r, delivered := s.delivered ++ [data] } := by
      rw [List.replicate_succ] at htasks
      simp only [step, htasks, hget, Option.map_some]
    rw [List.replicate_succ, exec_cons, hrun, Option.bind_some]
    apply (ih (s := { s with tasks := List.replicate n r, delivered := s.delivered ++ [data] }) hget rfl).trans
    simp [List.replicate_succ]

/-- All frames delivered at once were one, and the last frame captured is among them. -/
theorem eq_of_replicate_prefix {α : Type} {xs : List α} {n : ℕ} {a b c : α}
    (h : xs ++ List.replicate (n + 1) a <+: xs ++ List.replicate n b ++ [c]) : a = c ∧ (n ≠ 0 → b = c) := by
  rw [List.append_assoc, List.prefix_append_right_inj] at h
  have heq : List.replicate (n + 1) a = List.replicate n b ++ [c] := h.eq_of_length (by simp)
  have hc : c ∈ List.replicate (n + 1) a := by rw [heq]; simp
  have hca : c = a := List.eq_of_mem_replicate hc
  refine ⟨hca.symm,fun hn => ?_⟩
  have hb : b ∈ List.replicate (n + 1) a := by rw [heq]; simp [hn]
  exact (List.eq_of_mem_replicate hb).trans hca.symm

/-- A frame that does not fit shows when the waiting tasks have run. -/
theorem breaks (hs : s.InStep) (hfits : ¬ s.Fits a) (h : s.step a = some t) :
    ∃ cs u, (∀ c ∈ cs, c = .runTask) ∧ exec step t cs = some u ∧ ¬ u.Intact := by
  cases a with
  | runTask => exact absurd trivial hfits
  | onFrame frame =>
    rcases hs with ⟨hfirst,_⟩ | ⟨r,data,hs⟩
    · exact absurd (Or.inl hfirst) hfits
    cases h
    rw [onFrame_array hs]
    by_cases hshort : frame.length < data.length
    · rw [if_pos hshort]
      exact ⟨[],_,nofun,rfl,fun hintact => Bool.noConfusion hintact.1⟩
    rw [if_neg hshort]
    have hget : (s.arrays.modify r fun dst => frame.take dst.length).get r = some (frame.take data.length) := by
      rw [Heap.get_modify_self, hs.array, Option.map_some]
    have htasks : s.tasks ++ [r] = List.replicate (s.tasks.length + 1) r := by
      rw [List.replicate_succ', ← hs.tasks]
    refine ⟨List.replicate (s.tasks.length + 1) .runTask,_,fun c hc => List.eq_of_mem_replicate hc,
      exec_runTask hget htasks,fun hintact => hfits (Or.inr ?_)⟩
    obtain ⟨hlast,hwaiting⟩ := eq_of_replicate_prefix (hs.captured ▸ hintact.2)
    have hlen := congrArg List.length hlast
    rw [List.length_take] at hlen
    refine ⟨by rw [hs.frameSize]; omega,or_iff_not_imp_left.mpr fun hne => ?_⟩
    rw [hs.reference, Option.bind_some, hs.array,
      hwaiting fun hzero => hne (List.eq_nil_of_length_eq_zero hzero)]

/-- In every run, also when the waiting tasks are run after any part of it, the frames are
delivered intact if and only if each of its frames fits. -/
theorem intact_iff_fits {as : List FrameAction} (he : exec step initial as = some t) :
    Settles step (· = .runTask) Intact initial as ↔ Along step Fits initial as := by
  refine settles_iff_along (I := InStep) (fun s hs => hs.intact) (fun s a t hs hfits h => step_inStep hs hfits h)
    ?_ (fun s a t hs hfits h => breaks hs hfits h) initial_inStep he
  rintro s _ _ rfl
  trivial

theorem intact_iff_fits_one_by_one :
    Settles step (· = .runTask) Intact initial [.onFrame [1,2],.runTask,.onFrame [3,4],.runTask] :=
  (intact_iff_fits rfl).mpr (by decide)

/-- The second frame comes before the first one is delivered. -/
theorem not_intact_queued :
    ¬ ∀ (as : List FrameAction) (t : FramePath), exec step initial as = some t → t.Intact := by
  intro h
  have hrun : (exec step initial [.onFrame [1,2],.onFrame [3,4],.runTask]).map (fun s => decide s.Intact) =
      some false := by decide
  obtain ⟨t,ht,hbroken⟩ := Option.map_eq_some_iff.mp hrun
  exact of_decide_eq_false hbroken (h _ t ht)

end FramePath
end AdSystem.Camera
