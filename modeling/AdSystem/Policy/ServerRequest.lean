import AdSystem.Policy.CutOverSequence
import AdSystem.Policy.RestartEquivalence

/-! # Polling for policies

Poll responses name a schedule. A schedule that is not the mark of the active policy
becomes the mark at once, and a receiver fetches the text of its policy. A restarted
process has the mark of the saved text.
-/
namespace AdSystem.Policy
open Iteration Transition

inductive Connection where
  | response (code : ℕ)
  | malformedUrl
  | ioException
  deriving DecidableEq, Repr

inductive HandlerMessage where
  | questFileServerSuccess (xmlText : String)
  | malformedUrl
  | ioException
  deriving DecidableEq, Repr

/-- The message a fetch of the text ends with, if any. -/
def getRequestTextFile (xmlText : String) : Connection → Option HandlerMessage
  | .response code => if code = 200 then some (.questFileServerSuccess xmlText) else none
  | .malformedUrl => some .malformedUrl
  | .ioException => some .ioException

/-- What surrounds the process: its media path and iteration order, the parser, and the
texts that the server has for the schedules. -/
structure World where
  mMediaPath : String
  order : IterOrder NString
  parse : String → Except Thrown (Option AdMediaInfo)
  policyText : String → String

/-- A running process, with the schedules of its receivers and of the fetches under way,
and with what the outside remembers: the last schedule polled and those fetched. -/
structure Process where
  updates : Updates
  scheduleId : ℕ → String
  fetching : List String
  polled : Option String
  fetched : List String

inductive ProcessAction where
  | poll (scheduleId : String)
  | fetchEnds (i : ℕ) (connection : Connection)
  | downloadFinished (d : Download)
  | die (now : String)

namespace Process

/-- A process that has just been started, when these schedules have been fetched before. -/
def start (device : Device) (fetched : List String) : Process :=
  ⟨Updates.ofDevice device,fun _ => "",[],none,fetched⟩

def poll (s : Process) (scheduleId : String) : Process :=
  let info := s.updates.device.adMediaInfo
  if info.resolution = none ∨ info.resolution ≠ some scheduleId then
    { s with
      updates := { s.updates with
        device := { s.updates.device with adMediaInfo := { info with resolution := some scheduleId } } },
      fetching := s.fetching ++ [scheduleId],
      polled := some scheduleId }
  else { s with polled := some scheduleId }

variable (w : World)

/-- The handler of a receiver, for the schedule it has fetched. -/
def dispatchMessage (s : Process) (scheduleId : String) : Option HandlerMessage → Process
  | some (.questFileServerSuccess xmlText) =>
    { s with
      updates := s.updates.fetched w.order w.parse xmlText,
      scheduleId := Function.update s.scheduleId s.updates.receivers.length scheduleId,
      fetched := scheduleId :: s.fetched }
  | _ => s

def step (s : Process) : ProcessAction → Option Process
  | .poll scheduleId => if s.updates.crashed then none else some (s.poll scheduleId)
  | .fetchEnds i connection =>
    if s.updates.crashed then none
    else s.fetching[i]?.map fun scheduleId =>
      { s with fetching := s.fetching.eraseIdx i }.dispatchMessage w scheduleId
        (getRequestTextFile (w.policyText scheduleId) connection)
  | .downloadFinished d =>
    (s.updates.step w.mMediaPath w.order w.parse (.finished d)).map fun updates => { s with updates }
  | .die now =>
    (restart w.mMediaPath w.order w.parse s.updates.device.saved s.updates.device.storage now).map
      fun device => { s with updates := Updates.ofDevice device, scheduleId := fun _ => "", fetching := [] }

def RefersTo (scheduleId p : String) : Prop :=
  ∃ info, w.parse (w.policyText scheduleId) = .ok (some info) ∧ FileIn w.mMediaPath info p

/-- The policy of the schedule was fetched and all its files are there. -/
def Applied (s : Process) (scheduleId : String) : Prop :=
  scheduleId ∈ s.fetched ∧ ∀ p, RefersTo w scheduleId p → p ∈ s.updates.device.storage.files

def InProgress (s : Process) (scheduleId : String) : Prop :=
  scheduleId ∈ s.fetching ∨ ∃ d ∈ s.updates.downloads, s.scheduleId d.receiver = scheduleId

def fileOf (s : Process) (d : Download) : Option String :=
  s.updates.receivers[d.receiver]?.map fun r => mediaFile w.mMediaPath (r.resName d)

end Process
end AdSystem.Policy
