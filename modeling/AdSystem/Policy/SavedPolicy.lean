import AdSystem.Library.Fallible
import AdSystem.Policy.ServerRequest

/-! # Starting from a saved policy

A text is saved when it parses. Its intervals name ids that no section has to contain,
and their bounds may be missing; a start at the wrong time looks at both.
-/
namespace AdSystem.Policy
open Fallible Iteration Transition

section Looking
variable (now : String) (info : AdMediaInfo) (m : Media)

def OneInterval.Around (one : OneInterval) : Prop :=
  ∃ start stop, one.begin = some start ∧ one.end = some stop ∧ 0 ≤ compareTo now start ∧ compareTo now stop ≤ 0

/-- The interval has the bounds that are looked at. -/
def OneInterval.Bounded (one : OneInterval) : Prop :=
  ∃ start, one.begin = some start ∧ (0 ≤ compareTo now start → one.end ≠ none)

def OneInterval.Resolves (one : OneInterval) : Prop := ∀ id ∈ one.fileContainer, id ∈ info.container m

/-- Each interval that no interval before it spares from being looked at has its bounds, and
if it is around the time, an entry for each of its ids. -/
def Startable (ids : List NString) : Prop :=
  ∀ before id after one, ids = before ++ id :: after → (info.intervalContainer m).lookup id = some one →
    (∀ i ∈ before, ∀ o, (info.intervalContainer m).lookup i = some o → ¬ o.Around now) →
      one.Bounded now ∧ (one.Around now → one.Resolves info m)

variable {now} {info} {m} {one : OneInterval} {mMediaPath : String} {order : IterOrder NString}

theorem isTimeInInterval_eq_ok {time : String} {timeStart timeEnd : NString} {b : Bool} :
    isTimeInInterval time timeStart timeEnd = .ok b ↔ ∃ start, timeStart = some start ∧
      if 0 ≤ compareTo time start then ∃ stop, timeEnd = some stop ∧ b = decide (compareTo time stop ≤ 0)
      else b = false := by
  cases timeStart with
  | none => simp [isTimeInInterval, required, bind, Except.bind]
  | some start =>
    by_cases hs : 0 ≤ compareTo time start
    · cases timeEnd <;> simp [isTimeInInterval, required, bind, Except.bind, pure, Except.pure, hs, eq_comm]
    · simp [isTimeInInterval, required, bind, Except.bind, pure, Except.pure, hs, eq_comm]

theorem OneInterval.around_iff : one.Around now ↔ isTimeInInterval now one.begin one.end = .ok true := by
  rw [isTimeInInterval_eq_ok, Around]
  constructor
  · rintro ⟨start,stop,hstart,hstop,hs,he⟩
    exact ⟨start,hstart,by rw [if_pos hs]; exact ⟨stop,hstop,(decide_eq_true he).symm⟩⟩
  · rintro ⟨start,hstart,h⟩
    split_ifs at h with hs
    obtain ⟨stop,hstop,he⟩ := h
    exact ⟨start,stop,hstart,hstop,hs,of_decide_eq_true he.symm⟩

theorem OneInterval.bounded_iff : one.Bounded now ↔ ∃ b, isTimeInInterval now one.begin one.end = .ok b := by
  simp only [isTimeInInterval_eq_ok, Bounded]
  constructor
  · rintro ⟨start,hstart,hend⟩
    by_cases hs : 0 ≤ compareTo now start
    · obtain ⟨stop,hstop⟩ := Option.ne_none_iff_exists'.mp (hend hs)
      exact ⟨_,start,hstart,by rw [if_pos hs]; exact ⟨stop,hstop,rfl⟩⟩
    · exact ⟨false,start,hstart,by rw [if_neg hs]⟩
  · rintro ⟨b,start,hstart,h⟩
    refine ⟨start,hstart,fun hs => ?_⟩
    rw [if_pos hs] at h
    obtain ⟨stop,hstop,_⟩ := h
    simp [hstop]

theorem exists_required {α : Type} {o : Option α} : (∃ a, required o = .ok a) ↔ o.isSome := by
  cases o <;> simp [required]

theorem intervalFiles_returns :
    (∃ list, intervalFiles mMediaPath order info m one = .ok list) ↔ one.Resolves info m := by
  rw [intervalFiles, exists_mapM_ok]
  apply forall_congr'
  intro id
  rw [order.mem]
  apply imp_congr_right
  intro _
  rw [exists_bind_ok, ← Finmap.lookup_isSome, ← exists_required]
  exact exists_congr fun entry => ⟨And.left,fun h => ⟨h,_,rfl⟩⟩

theorem startable_nil : Startable now info m [] := by
  intro before id after one heq
  simp at heq

theorem startable_cons {id : NString} {ids : List NString} (h : (info.intervalContainer m).lookup id = some one) :
    Startable now info m (id :: ids) ↔ one.Bounded now ∧ (one.Around now → one.Resolves info m) ∧
      (¬ one.Around now → Startable now info m ids) := by
  constructor
  · intro hs
    obtain ⟨hbounded,hresolves⟩ := hs [] id ids one rfl h nofun
    refine ⟨hbounded,hresolves,fun hnot before id' after one' heq hone hbefore => ?_⟩
    apply hs (id :: before) id' after one' (congrArg (id :: ·) heq) hone
    intro i hi o ho
    rcases List.mem_cons.mp hi with rfl | hi
    · cases h.symm.trans ho
      exact hnot
    · exact hbefore i hi o ho
  · rintro ⟨hbounded,hresolves,hrest⟩ before id' after one' heq hone hbefore
    cases before with
    | nil =>
      cases heq
      cases h.symm.trans hone
      exact ⟨hbounded,hresolves⟩
    | cons i before =>
      obtain ⟨rfl,htail⟩ := List.cons_eq_cons.mp heq
      rw [List.forall_mem_cons] at hbefore
      exact hrest (hbefore.1 one h) before id' after one' htail hone hbefore.2

/-- The loop returns if and only if it looks at nothing that is missing. -/
theorem intervalLoop_returns {ids : List NString} (h : ∀ id ∈ ids, id ∈ info.intervalContainer m) :
    (∃ list, intervalLoop mMediaPath order info m now ids = .ok list) ↔ Startable now info m ids := by
  induction ids with
  | nil =>
    exact iff_of_true ⟨_,rfl⟩ startable_nil
  | cons id ids ih =>
    rw [List.forall_mem_cons] at h
    obtain ⟨one,hone⟩ := Option.isSome_iff_exists.mp (Finmap.lookup_isSome.mpr h.1)
    rw [startable_cons hone, intervalLoop, hone, exists_bind_ok]
    simp only [required, Except.ok.injEq, exists_eq_left', exists_bind_ok]
    constructor
    · rintro ⟨b,hb,hrest⟩
      refine ⟨OneInterval.bounded_iff.mpr ⟨b,hb⟩,fun ha => ?_,fun ha => ?_⟩
      · cases (OneInterval.around_iff.mp ha).symm.trans hb
        exact intervalFiles_returns.mp hrest
      · cases b with
        | true => exact absurd (OneInterval.around_iff.mpr hb) ha
        | false => exact (ih h.2).mp hrest
    · rintro ⟨hbounded,hresolves,hrest⟩
      obtain ⟨b,hb⟩ := OneInterval.bounded_iff.mp hbounded
      refine ⟨b,hb,?_⟩
      cases b with
      | true => exact intervalFiles_returns.mpr (hresolves (OneInterval.around_iff.mpr hb))
      | false =>
        refine (ih h.2).mpr (hrest fun ha => ?_)
        cases (OneInterval.around_iff.mp ha).symm.trans hb

end Looking

/-- What a start does with a saved text at a time: the policy is there, and both lists of the
moment can be taken from it. -/
def Starts (w : World) (xmlText now : String) : Prop :=
  ∃ info, loadPolicy w.parse (some xmlText) = .ok (some info) ∧
    ∀ m, ∃ list, getListWithIntervalCheck w.mMediaPath w.order info m now = .ok list

/-- At the time, both kinds of intervals can be looked at. -/
def StartableText (w : World) (xmlText now : String) : Prop :=
  ∀ info, w.parse xmlText = .ok (some info) →
    ∀ m, Startable now info m (w.order.list (info.intervalContainer m).keys)

theorem starts_iff {w : World} {xmlText now : String} {info : AdMediaInfo}
    (h : w.parse xmlText = .ok (some info)) :
    Starts w xmlText now ↔ ∀ m, Startable now info m (w.order.list (info.intervalContainer m).keys) := by
  simp only [Starts, loadPolicy, h, Except.ok.injEq, Option.some.injEq, exists_eq_left']
  apply forall_congr'
  intro m
  exact intervalLoop_returns fun id hid => Finmap.mem_keys.mp ((w.order.mem _ _).mp hid)

namespace Process
variable {w : World} {s t : Process} {a : ProcessAction} {xmlText : String}

def SavesParsed (w : World) (s : Process) : Prop :=
  ∀ xmlText, s.updates.device.saved = some xmlText → ∃ info, w.parse xmlText = .ok (some info)

theorem poll_saved (s : Process) (scheduleId : String) :
    (s.poll scheduleId).updates.device.saved = s.updates.device.saved := by
  unfold poll
  simp only
  split_ifs <;> rfl

theorem fetched_savesParsed {u : Updates}
    (hs : ∀ x, u.device.saved = some x → ∃ info, w.parse x = .ok (some info)) :
    ∀ x, (u.fetched w.order w.parse xmlText).device.saved = some x → ∃ info, w.parse x = .ok (some info) := by
  unfold Updates.fetched
  split
  · rename_i info hinfo
    rintro x hx
    cases hx
    exact ⟨info,hinfo⟩
  · exact hs

theorem finish_saved (u : Updates) (d : Download) (r : Receiver) :
    (u.finish w.mMediaPath w.order d r).device.saved = u.device.saved := by
  unfold Updates.finish
  simp only
  split_ifs <;> rfl

theorem step_savesParsed (hs : s.SavesParsed w) (h : s.step w a = some t) : t.SavesParsed w := by
  cases a with
  | poll scheduleId =>
    simp only [step] at h
    split_ifs at h
    cases h
    intro x hx
    exact hs x ((poll_saved s scheduleId).symm.trans hx)
  | fetchEnds i connection =>
    simp only [step] at h
    split_ifs at h
    obtain ⟨scheduleId,_,rfl⟩ := Option.map_eq_some_iff.mp h
    cases getRequestTextFile (w.policyText scheduleId) connection with
    | none => exact hs
    | some msg =>
      cases msg with
      | questFileServerSuccess xmlText => exact fetched_savesParsed hs
      | malformedUrl => exact hs
      | ioException => exact hs
  | downloadFinished d =>
    obtain ⟨u,hu,rfl⟩ := Option.map_eq_some_iff.mp h
    obtain ⟨_,_,r,_,rfl⟩ := Updates.finished_eq hu
    intro x hx
    exact hs x ((finish_saved _ _ _).symm.trans hx)
  | die now =>
    obtain ⟨device,hd,rfl⟩ := Option.map_eq_some_iff.mp h
    obtain ⟨info,list,_,_,rfl⟩ := restart_eq_some.mp hd
    exact hs

theorem start_savesParsed {storage : Storage} {began : String} {device : Device} {fetched : List String}
    (hd : restart w.mMediaPath w.order w.parse none storage began = some device) :
    (start device fetched).SavesParsed w := by
  obtain ⟨info,list,_,_,rfl⟩ := restart_eq_some.mp hd
  intro x hx
  cases hx

/-- A text saved in any run starts the process at a time if and only if its intervals can be
looked at then. -/
theorem saved_starts_iff {storage : Storage} {began : String} {device : Device} {as : List ProcessAction}
    (hd : restart w.mMediaPath w.order w.parse none storage began = some device)
    (he : exec (Process.step w) (start device []) as = some s)
    (hsaved : s.updates.device.saved = some xmlText) (now : String) :
    Starts w xmlText now ↔ StartableText w xmlText now := by
  have hparsed : s.SavesParsed w := exec_history (I := fun _ s => SavesParsed w s) (start_savesParsed hd)
    (fun _ _ _ _ _ hs h => step_savesParsed hs h) he
  obtain ⟨info,hinfo⟩ := hparsed xmlText hsaved
  rw [starts_iff hinfo]
  constructor
  · rintro h _ hinfo'
    cases hinfo.symm.trans hinfo'
    exact h
  · intro h
    exact h info hinfo

section Example

/-- A policy with the video 1, and an interval of the whole day for one id. -/
def dayPolicy (id : String) : Element :=
  .mk "policy" [] [.mk "files" [] [.mk "media" [] [.mk "video" [("id","1"),("file","a.mp4")] []],.mk "pic" [] []],
    .mk "media_play" [] [.mk "interval" [("ID","9"),("begin","00:00:00"),("end","23:59:59")]
      [.mk "video" [("file",id)] []]],
    .mk "pic_play" [] []]

def dayInterval (id : String) : OneInterval := ⟨some "9",some "00:00:00",some "23:59:59",none,{some id}⟩

/-- The server has that policy for every schedule. -/
noncomputable def dayWorld (id : String) : World :=
  ⟨"",.some,parseXmlFromText fun _ => some (dayPolicy id),fun _ => "policy"⟩

variable {id : String}

def dayInfo (id : String) : AdMediaInfo :=
  { AdMediaInfo.empty with
    videoContainer := (∅ : Container).insert (some "1") (AdInfo.ofFile "1" "a.mp4")
    videoIntervalContainer := (∅ : IntervalContainer).insert (some "9") (dayInterval id) }

theorem dayWorld_parse (id : String) : (dayWorld id).parse "policy" = .ok (some (dayInfo id)) := rfl

theorem dayWorld_saved (id : String) : ∃ s,
    exec (Process.step (dayWorld id)) (start .started []) [.poll "S",.fetchEnds 0 (.response 200)] = some s ∧
      s.updates.device.saved = some "policy" :=
  ⟨_,rfl,rfl⟩

theorem dayInterval_around (id : String) : (dayInterval id).Around "12:00:00" :=
  ⟨_,_,rfl,rfl,by decide,by decide⟩

theorem starts_dayWorld : Starts (dayWorld id) "policy" "12:00:00" ↔ id = "1" := by
  have hkeys : (dayWorld id).order.list ((dayInfo id).intervalContainer .video).keys = [some "9"] := by
    refine Eq.trans (congrArg _ ?_) (IterOrder.singleton _ _)
    ext k
    rw [Finmap.mem_keys, Finset.mem_singleton]
    exact Finmap.mem_insert.trans (or_iff_left Finmap.notMem_empty)
  have hkeys' : (dayWorld id).order.list ((dayInfo id).intervalContainer .image).keys = [] :=
    (IterOrder.eq_nil _).mpr rfl
  have hone : ((dayInfo id).intervalContainer .video).lookup (some "9") = some (dayInterval id) :=
    Finmap.lookup_insert (∅ : IntervalContainer)
  have hentry : some id ∈ (dayInfo id).container .video ↔ id = "1" :=
    (Finmap.mem_insert.trans (or_iff_left Finmap.notMem_empty)).trans Option.some_inj
  rw [starts_iff (dayWorld_parse id)]
  constructor
  · intro h
    have hresolves := ((startable_cons hone).mp (hkeys ▸ h .video)).2.1 (dayInterval_around id)
    exact hentry.mp (hresolves (some id) (Finset.mem_singleton_self _))
  · rintro rfl m
    cases m with
    | video =>
      rw [hkeys, startable_cons hone]
      refine ⟨⟨_,rfl,fun _ => nofun⟩,fun _ id hid => ?_,fun h => absurd (dayInterval_around "1") h⟩
      rw [Finset.mem_singleton.mp hid]
      exact hentry.mpr rfl
    | image =>
      rw [hkeys']
      exact startable_nil

theorem starts_dayWorld_one : Starts (dayWorld "1") "policy" "12:00:00" := by
  obtain ⟨s,he,hsaved⟩ := dayWorld_saved "1"
  apply (saved_starts_iff (restart_nothing _ "") he hsaved "12:00:00").mpr
  rintro info hinfo
  cases hinfo
  exact (starts_iff (dayWorld_parse "1")).mp (starts_dayWorld.mpr rfl)

/-- An interval that lists an id without entry makes every start at its time fail. -/
theorem not_starts_missing_id :
    ¬ ∀ (w : World) (storage : Storage) (began : String) (device : Device) (as : List ProcessAction)
      (s : Process) (xmlText now : String),
      restart w.mMediaPath w.order w.parse none storage began = some device →
      exec (Process.step w) (start device []) as = some s →
      s.updates.device.saved = some xmlText → Starts w xmlText now := by
  intro h
  obtain ⟨s,he,hsaved⟩ := dayWorld_saved "2"
  have hstarts := h (dayWorld "2") ⟨∅,∅⟩ "" .started _ s "policy" "12:00:00" (restart_nothing _ "") he hsaved
  exact absurd (starts_dayWorld.mp hstarts) (by decide)

end Example
end Process
end AdSystem.Policy
