import AdSystem.Policy.ServerRequest

/-! # The policy in memory

The handler of a fetched text parses, processes and saves it, statement by statement,
and the process can die between any two. A null policy stops the handler before it
saves, so that no start reads a text that has no policy.
-/
namespace AdSystem.Policy
open Transition

/-- The handler of a receiver, before each of its statements. -/
inductive Handler where
  | parse (mXmlText : String)
  | getOld (mXmlText : String) (newMediaInfo : Option AdMediaInfo)
  | process (mXmlText : String) (newMediaInfo oldMediaInfo : Option AdMediaInfo)
  | save (mXmlText : String)

/-- A process: the active policy, which may be null, the handler that runs, and the
receivers whose policies were processed. -/
structure Running where
  adMediaInfo : Option AdMediaInfo
  handler : Option Handler
  receivers : List Receiver

/-- The preference `media_strategy`, and the process if there is one. -/
structure PolicyMemory where
  media_strategy : Option String
  running : Option Running

inductive MemoryAction where
  /-- The process starts: the constructor of `MediaStrategyMgr`. -/
  | start
  | questFileServerSuccess (xmlText : String)
  | questFailed
  /-- The next statement of the handler. -/
  | statement
  | poll (scheduleId : String)
  /-- The last download of a receiver's kind has called back. -/
  | downloadFinished (k : ℕ) (m : Media)
  | die

namespace PolicyMemory
variable (parse : String → Except Thrown (Option AdMediaInfo))

def installed : PolicyMemory := ⟨none,none⟩

/-- An uncaught exception kills the process. -/
def run (s : PolicyMemory) : Except Thrown Running → PolicyMemory
  | .ok r => { s with running := some r }
  | .error _ => { s with running := none }

def start (s : PolicyMemory) : PolicyMemory :=
  s.run ((loadPolicy parse s.media_strategy).map fun adMediaInfo => ⟨adMediaInfo,none,[]⟩)

/-- `process` dereferences both policies, the new one first. -/
def processed (newMedia oldMedia : Option AdMediaInfo) : Except Thrown Receiver := do
  let newMedia ← required newMedia
  let oldMedia ← required oldMedia
  return process oldMedia newMedia

def statement (s : PolicyMemory) (r : Running) : Handler → PolicyMemory
  | .parse xmlText => s.run ((parse xmlText).map fun new => { r with handler := some (.getOld xmlText new) })
  | .getOld xmlText new => s.run (.ok { r with handler := some (.process xmlText new r.adMediaInfo) })
  | .process xmlText new old =>
    s.run ((processed new old).map fun receiver =>
      { r with handler := some (.save xmlText), receivers := r.receivers ++ [receiver] })
  | .save xmlText => ⟨some xmlText,some { r with handler := none }⟩

/-- The resolution is compared and set on the policy; a null policy throws. -/
def pollHandler (r : Running) (scheduleId : String) : Except Thrown Running :=
  (required r.adMediaInfo).map fun info =>
    if info.resolution = none ∨ info.resolution ≠ some scheduleId then
      { r with adMediaInfo := some { info with resolution := some scheduleId } }
    else r

/-- `changeVideoContainer` and `changeImageContainer`; a null policy throws. -/
def changeContainer (r : Running) (m : Media) (receiver : Receiver) : Except Thrown Running :=
  (required r.adMediaInfo).map fun info =>
    { r with adMediaInfo := some (info.setContainer m (receiver.newMediaInfo.container m)) }

def step (s : PolicyMemory) (a : MemoryAction) : Option PolicyMemory :=
  match s.running, a with
  | none, .start => some (s.start parse)
  | none, _ => none
  | some _, .start => none
  | some r, .questFileServerSuccess xmlText =>
    if r.handler.isNone then some (s.run (.ok { r with handler := some (.parse xmlText) })) else none
  | some _, .questFailed => some s
  | some r, .statement => r.handler.map (s.statement parse r)
  | some r, .poll scheduleId => some (s.run (pollHandler r scheduleId))
  | some r, .downloadFinished k m => r.receivers[k]?.map fun receiver => s.run (changeContainer r m receiver)
  | some _, .die => some { s with running := none }

end PolicyMemory

def HasPolicy (parse : String → Except Thrown (Option AdMediaInfo)) (xmlText : String) : Prop :=
  ∃ info, parse xmlText = .ok (some info)

/-- What the handler holds is what the text parsed to; what it is to save has a policy. -/
def Handler.Holds (parse : String → Except Thrown (Option AdMediaInfo)) : Handler → Prop
  | .parse _ => True
  | .getOld xmlText new | .process xmlText new _ => parse xmlText = .ok new
  | .save xmlText => HasPolicy parse xmlText

/-- The process has a policy, and its handler holds what it should. -/
structure Running.Holds (parse : String → Except Thrown (Option AdMediaInfo)) (r : Running) : Prop where
  policy : r.adMediaInfo.isSome
  handler : ∀ h, r.handler = some h → h.Holds parse

namespace PolicyMemory
variable {parse : String → Except Thrown (Option AdMediaInfo)} {s t : PolicyMemory} {r : Running}
  {a : MemoryAction} {xmlText : String}

/-- What the preference and the process hold in every state. -/
structure Holds (parse : String → Except Thrown (Option AdMediaInfo)) (s : PolicyMemory) : Prop where
  saved : ∀ xmlText, s.media_strategy = some xmlText → HasPolicy parse xmlText
  running : ∀ r, s.running = some r → r.Holds parse

theorem run_holds (hs : s.Holds parse) {x : Except Thrown Running} (h : ∀ r, x = .ok r → r.Holds parse) :
    (s.run x).Holds parse := by
  cases x with
  | ok r =>
    refine ⟨hs.saved,?_⟩
    rintro _ ⟨⟩
    exact h r rfl
  | error e => exact ⟨hs.saved,fun _ h => nomatch h⟩

theorem loadPolicy_of_holds (hs : s.Holds parse) : ∃ info, loadPolicy parse s.media_strategy = .ok (some info) := by
  cases h : s.media_strategy with
  | none => exact ⟨.empty,rfl⟩
  | some xmlText => exact hs.saved xmlText h

theorem start_holds (hs : s.Holds parse) : (s.start parse).Holds parse := by
  apply run_holds hs
  obtain ⟨info,hinfo⟩ := loadPolicy_of_holds hs
  rw [hinfo]
  rintro _ ⟨⟩
  exact ⟨rfl,fun _ h => nomatch h⟩

theorem processed_ok {new old : Option AdMediaInfo} {receiver : Receiver}
    (h : processed new old = .ok receiver) : ∃ info, new = some info := by
  cases new with
  | none => cases h
  | some info => exact ⟨info,rfl⟩

theorem statement_holds (hs : s.Holds parse) (hr : r.Holds parse) {h : Handler} (hh : h.Holds parse) :
    (s.statement parse r h).Holds parse := by
  cases h with
  | parse xmlText =>
    apply run_holds hs
    intro r' hr'
    cases hp : parse xmlText with
    | error e => rw [hp] at hr'; cases hr'
    | ok new =>
      rw [hp] at hr'
      cases hr'
      refine ⟨hr.policy,?_⟩
      rintro _ ⟨⟩
      exact hp
  | getOld xmlText new =>
    refine ⟨hs.saved,?_⟩
    rintro _ ⟨⟩
    refine ⟨hr.policy,?_⟩
    rintro _ ⟨⟩
    exact hh
  | process xmlText new old =>
    apply run_holds hs
    intro r' hr'
    cases hp : processed new old with
    | error e => rw [hp] at hr'; cases hr'
    | ok receiver =>
      obtain ⟨info,rfl⟩ := processed_ok hp
      rw [hp] at hr'
      cases hr'
      refine ⟨hr.policy,?_⟩
      rintro _ ⟨⟩
      exact ⟨info,hh⟩
  | save xmlText =>
    refine ⟨?_,?_⟩
    · rintro _ ⟨⟩
      exact hh
    · rintro _ ⟨⟩
      exact ⟨hr.policy,fun _ h => nomatch h⟩

theorem run_map_required_holds (hs : s.Holds parse) (hr : r.Holds parse) {f : AdMediaInfo → Running}
    (hf : ∀ info, (f info).adMediaInfo.isSome ∧ (f info).handler = r.handler) :
    (s.run ((required r.adMediaInfo).map f)).Holds parse := by
  apply run_holds hs
  obtain ⟨info,hinfo⟩ := Option.isSome_iff_exists.mp hr.policy
  rw [hinfo]
  rintro _ ⟨⟩
  refine ⟨(hf info).1,?_⟩
  rw [(hf info).2]
  exact hr.handler

theorem step_holds (hs : s.Holds parse) (h : s.step parse a = some t) : t.Holds parse := by
  unfold step at h
  cases hrun : s.running with
  | none =>
    rw [hrun] at h
    cases a with
    | start =>
      cases h
      exact start_holds hs
    | questFileServerSuccess _ | questFailed | statement | poll _ | downloadFinished _ _ | die => cases h
  | some r =>
    rw [hrun] at h
    have hr := hs.running r hrun
    cases a with
    | start => cases h
    | questFileServerSuccess xmlText =>
      dsimp only at h
      split_ifs at h
      cases h
      apply run_holds hs
      rintro _ ⟨⟩
      refine ⟨hr.policy,?_⟩
      rintro _ ⟨⟩
      trivial
    | questFailed =>
      cases h
      exact hs
    | statement =>
      obtain ⟨handler,hh,rfl⟩ := Option.map_eq_some_iff.mp h
      exact statement_holds hs hr (hr.handler handler hh)
    | poll scheduleId =>
      cases h
      apply run_map_required_holds hs hr
      intro info
      split_ifs
      · exact ⟨rfl,rfl⟩
      · exact ⟨hr.policy,rfl⟩
    | downloadFinished k m =>
      obtain ⟨receiver,_,rfl⟩ := Option.map_eq_some_iff.mp h
      exact run_map_required_holds hs hr fun info => ⟨rfl,rfl⟩
    | die =>
      cases h
      exact ⟨hs.saved,fun _ h => nomatch h⟩

theorem installed_holds : installed.Holds parse where
  saved _ h := nomatch h
  running _ h := nomatch h

/-- In every state of every run the saved text has a policy, a start finds one, and that of
a running process is not null. -/
theorem policy_never_null {as : List MemoryAction} (he : exec (step parse) installed as = some t) :
    (∀ xmlText, t.media_strategy = some xmlText → HasPolicy parse xmlText) ∧
      (∃ info, loadPolicy parse t.media_strategy = .ok (some info)) ∧
        ∀ r, t.running = some r → r.adMediaInfo ≠ none := by
  have ht : t.Holds parse := exec_history (I := fun _ s => Holds parse s) installed_holds
    (fun _ _ _ _ _ hs h => step_holds hs h) he
  refine ⟨ht.saved,loadPolicy_of_holds ht,fun r hr hnone => ?_⟩
  have hpolicy := (ht.running r hr).policy
  rw [hnone] at hpolicy
  cases hpolicy

section Handler
variable {policy new : Option AdMediaInfo} {info old : AdMediaInfo} {receivers : List Receiver}
  {saved : Option String} {rest : List MemoryAction}

theorem exec_parse (hp : parse xmlText = .ok new) :
    exec (step parse) ⟨saved,some ⟨policy,none,receivers⟩⟩ (.questFileServerSuccess xmlText :: .statement :: rest) =
      exec (step parse) ⟨saved,some ⟨policy,some (.getOld xmlText new),receivers⟩⟩ rest := by
  simp [exec_cons, step, statement, run, Except.map, hp]

theorem exec_null :
    exec (step parse) ⟨saved,some ⟨policy,some (.getOld xmlText none),receivers⟩⟩
        (.statement :: .statement :: rest) =
      exec (step parse) ⟨saved,none⟩ rest := rfl

theorem exec_save :
    exec (step parse) ⟨saved,some ⟨some old,some (.getOld xmlText (some info)),receivers⟩⟩
        (.statement :: .statement :: .statement :: rest) =
      exec (step parse) ⟨some xmlText,some ⟨some old,none,receivers ++ [process old info]⟩⟩ rest := rfl

theorem exec_start (hp : parse xmlText = .ok (some info)) :
    exec (step parse) ⟨some xmlText,none⟩ (.start :: rest) =
      exec (step parse) ⟨some xmlText,some ⟨some info,none,[]⟩⟩ rest := by
  simp [exec_cons, step, start, loadPolicy, run, Except.map, hp]

end Handler

/-- The second text has no policy: the process dies before it saves, and starts again. -/
theorem policy_never_null_after_null :
    let parse : String → Except Thrown (Option AdMediaInfo) := fun xmlText =>
      .ok (if xmlText = "policy" then some .empty else none)
    HasPolicy parse "policy" ∧ ∃ info, loadPolicy parse (some "policy") = .ok (some info) := by
  intro parse
  have hpolicy : parse "policy" = .ok (some .empty) := by simp [parse]
  have hbusy : parse "busy" = .ok none := by simp [parse]
  clear_value parse
  let t : PolicyMemory := ⟨some "policy",some ⟨some .empty,none,[]⟩⟩
  have he : exec (step parse) installed
      [.start,.questFileServerSuccess "policy",.statement,.statement,.statement,.statement,
        .questFileServerSuccess "busy",.statement,.statement,.statement,.start] = some t :=
    calc exec (step parse) installed _
        = exec (step parse) ⟨none,some ⟨some .empty,none,[]⟩⟩ _ := rfl
      _ = exec (step parse) ⟨some "policy",some ⟨some .empty,none,[process .empty .empty]⟩⟩ _ :=
        (exec_parse hpolicy).trans exec_save
      _ = exec (step parse) ⟨some "policy",none⟩ _ := (exec_parse hbusy).trans exec_null
      _ = some t := (exec_start hpolicy).trans rfl
  obtain ⟨hsaved,hstart,_⟩ := policy_never_null he
  exact ⟨hsaved "policy" rfl,hstart⟩

/-- The process is that of the receivers' machine, between two of its steps. -/
structure Agrees (s : PolicyMemory) (u : Updates) : Prop where
  saved : s.media_strategy = u.device.saved
  running : s.running = if u.crashed then none else some ⟨some u.device.adMediaInfo,none,u.receivers⟩

/-- The statements of the handler, up to the one that throws, do what the handler does there. -/
theorem handler_agrees {order : Iteration.IterOrder NString} {u : Updates} (h : s.Agrees u)
    (hc : u.crashed = false) (xmlText : String) :
    ∃ n t, exec (step parse) s (.questFileServerSuccess xmlText :: List.replicate n .statement) = some t ∧
      t.Agrees (u.fetched order parse xmlText) := by
  obtain ⟨saved,running⟩ := s
  obtain ⟨rfl,hrun⟩ := h
  rw [hc] at hrun
  cases hrun
  unfold Updates.fetched
  cases hp : parse xmlText with
  | error e =>
    refine ⟨1,⟨u.device.saved,none⟩,?_,rfl,rfl⟩
    simp [exec_cons, step, statement, run, Except.map, hp]
  | ok new =>
    cases new with
    | none => exact ⟨3,_,(exec_parse hp).trans exec_null,rfl,rfl⟩
    | some info =>
      refine ⟨4,_,(exec_parse hp).trans exec_save,rfl,?_⟩
      simp only [hc]
      rfl

end PolicyMemory
end AdSystem.Policy
