import AdSystem.Download.SessionSafety

/-! # How often one thread completes

The tick, the pause and the end of the stream each send a progress message. With
one thread and no restart, the messages of 100 percent can be counted phase by
phase, and only a tick at the last chunk makes them two.
-/
namespace AdSystem.Download
open SignedWord Transition Pool

def Call.isOnDownloadFinished : Call → Bool
  | .onDownloadFinished _ _ _ => true
  | _ => false

def Call.isBroadcast : Call → Bool
  | .sendBroadcastDownloadSuc _ => true
  | _ => false

def Call.isDeleteThread : Call → Bool
  | .deleteThread _ => true
  | _ => false

/-- Each of the three acts of a completion is done at most once. -/
def AtMostOnce (calls : List Call) : Prop :=
  calls.countP Call.isOnDownloadFinished ≤ 1 ∧ calls.countP Call.isBroadcast ≤ 1 ∧
    calls.countP Call.isDeleteThread ≤ 1

/-- What an action of the session calls. -/
def Session.calls (s : Session) : SessionAction → List Call
  | .handle => s.handlerCalls
  | _ => []

def SessionAction.uninterrupted : SessionAction → Bool
  | .restart => false
  | .die => false
  | .thread _ .ioException => false
  | _ => true

/-- One worker, answered with all it asks for; it may be paused but not restarted. -/
def SingleWorker (resource : List UInt8) (s : Session) (a : SessionAction) : Prop :=
  ServedBy resource 1 (Answers resource) s a ∧ a.uninterrupted

instance (resource : List UInt8) (s : Session) (a : SessionAction) :
    Decidable (SingleWorker resource s a) := inferInstanceAs (Decidable (_ ∧ _))

/-- After a late tick there is something left to read. -/
def TicksBeforeEnd (s : Session) : SessionAction → Prop
  | .thread i (.clock true) => ∀ w ∈ s.threads[i]?, w.inputStream ≠ []
  | _ => True

instance (s : Session) : DecidablePred (TicksBeforeEnd s)
  | .thread i (.clock true) => inferInstanceAs (Decidable (∀ w ∈ s.threads[i]?, w.inputStream ≠ []))
  | .thread _ (.clock false) | .thread _ (.connect _ _) | .thread _ (.read _) | .thread _ .checkPause
  | .thread _ .notify | .thread _ .persist | .thread _ .endOfStream | .thread _ .ioException
  | .initThread _ | .msgInit _ | .pause | .restart | .handle | .die => isTrue trivial

section Messages
variable {t : DownloadTask} {progress : ℤ}

theorem dispatchMessage_counts :
    (t.dispatchMessage progress).countP Call.isOnDownloadFinished = (t.finishes progress).toNat ∧
    (t.dispatchMessage progress).countP Call.isBroadcast = (t.finishes progress).toNat ∧
    (t.dispatchMessage progress).countP Call.isDeleteThread = (t.finishes progress).toNat := by
  unfold DownloadTask.dispatchMessage DownloadTask.finishes
  cases h : t.mTaskInfo.download with
  | none => exact ⟨rfl,rfl,rfl⟩
  | some d =>
    by_cases hp : 100 ≤ progress
    · simp only [if_pos hp, Option.isSome_some, Bool.true_and, decide_eq_true hp]
      exact ⟨rfl,rfl,rfl⟩
    · simp only [if_neg hp, Option.isSome_some, Bool.true_and, decide_eq_false hp]
      exact ⟨rfl,rfl,rfl⟩

/-- The messages of at least 100 percent. -/
def hundreds (messages : List ℤ) : ℕ := messages.countP (fun p => 100 ≤ p)

@[simp] theorem hundreds_nil : hundreds [] = 0 := rfl
@[simp] theorem hundreds_append (ps qs : List ℤ) : hundreds (ps ++ qs) = hundreds ps + hundreds qs :=
  List.countP_append

theorem hundreds_singleton {p : ℤ} {stream : List UInt8} (h : 100 ≤ p ↔ stream = []) :
    hundreds [p] = if stream = [] then 1 else 0 := by
  by_cases hs : stream = []
  · simp [hundreds, hs, h.mpr hs]
  · have hn : ¬ 100 ≤ p := fun hp => hs (h.mp hp)
    simp [hundreds, hs, hn]

end Messages

section Phases
variable {L : ℕ} {t : DownloadTask} {w : DownloadThread} {quiet : Prop} {R : ℕ}

/-- The only thread of a task, with the rest of the `L` bytes in its stream. -/
structure OnlyThread (L : ℕ) (w : DownloadThread) : Prop where
  id : w.threadInfo.id = 0
  nonneg : 0 ≤ w.threadInfo.finished
  queued : w.stage = .queued →
    w.threadInfo.start = 0 ∧ w.threadInfo.«end» = L ∧ w.threadInfo.finished = 0
  rest : w.stage ≠ .queued → w.threadInfo.finished + w.inputStream.length = L

/-- A task of one thread. -/
structure OnlyTask (L : ℕ) (info : TaskInfo) (t : DownloadTask) : Prop where
  taskInfo : t.mTaskInfo = { info with lenght := L }
  totals : t.mTotalFinished.length = 1

/-- `R` messages of 100 percent were sent so far; `quiet` says that no tick sent one. -/
def Reported (w : DownloadThread) (quiet : Prop) (R : ℕ) : Prop :=
  (quiet ∧ R = if w.stage = .persisting ∧ w.inputStream = [] then 1 else 0) ∨
  (¬ quiet ∧ w.inputStream = [] ∧ w.stage ≠ .queued ∧ w.stage ≠ .written ∧
    R = if w.stage = .persisting then 2 else 1)

/-- The same after the thread has gone. -/
def ReportedAll (quiet : Prop) (R : ℕ) : Prop := (quiet ∧ R ≤ 1) ∨ (¬ quiet ∧ R = 2)

/-- The report of the only thread reaches 100 percent exactly at the end of the stream. -/
theorem OnlyTask.notifyProgress {info : TaskInfo} (ht : OnlyTask L info t) (hw : OnlyThread L w)
    (hq : w.stage ≠ .queued) (h0 : 0 < L) (hL : L < 2147483648) :
    OnlyTask L info (t.notifyProgress w.threadInfo.id w.threadInfo.finished).1 ∧
    ∃ p, (t.notifyProgress w.threadInfo.id w.threadInfo.finished).2 = some p ∧
      (100 ≤ p ↔ w.inputStream = []) := by
  refine ⟨⟨by rw [notifyProgress_taskInfo, ht.taskInfo],by rw [notifyProgress_length, ht.totals]⟩,?_⟩
  have hrest := hw.rest hq
  have hnonneg := hw.nonneg
  obtain ⟨x,hx⟩ := List.length_eq_one_iff.mp ht.totals
  have hsum : sum32 [w.threadInfo.finished] = w.threadInfo.finished := by
    rw [sum32_eq (by simpa using hnonneg) (by simp only [List.sum_singleton]; omega), List.sum_singleton]
  have hl : t.mTaskInfo.lenght = L := by rw [ht.taskInfo]
  refine ⟨percent w.threadInfo.finished L,?_,?_⟩
  · rw [hw.id]
    simp only [DownloadTask.notifyProgress, hx, hl]
    simp [hsum]
  · rw [hundred_le_percent (by omega), ← List.length_eq_zero_iff]
    omega

theorem OnlyThread.moved (hw : OnlyThread L w) (hq : w.stage ≠ .queued) {stage : Stage} (hs : stage ≠ .queued) :
    OnlyThread L { w with stage } :=
  ⟨hw.id,hw.nonneg,fun h => absurd h hs,fun _ => hw.rest hq⟩

theorem OnlyThread.connected {resource body : List UInt8} {responseCode : ℕ}
    (hw : OnlyThread resource.length w) (hq : w.stage = .queued) (ha : Answers resource w responseCode body) :
    OnlyThread resource.length ⟨w.threadInfo,.reading,w.rangeStart.toNat,body⟩ := by
  obtain ⟨hstart,hend,hfin⟩ := hw.queued hq
  have hrange : w.rangeStart = 0 := by
    rw [DownloadThread.rangeStart, hstart, hfin]
    simp
  have hbody : body = resource := by
    rcases ha with ⟨_,hb⟩ | ⟨_,hb⟩
    · rw [hb, requestedBytes, hrange, hend, List.take_of_length_le (by omega)]
      rfl
    · exact hb
  refine ⟨hw.id,hw.nonneg,fun hq => ?_,fun _ => by simp [hbody, hfin]⟩
  cases hq

theorem OnlyThread.delivered {filePointer readLen : ℕ} (hw : OnlyThread L w) (hq : w.stage ≠ .queued)
    (hL : L < 2147483648) (hle : readLen ≤ w.inputStream.length) :
    OnlyThread L ⟨w.threadInfo.setFinished (i32 (w.threadInfo.finished + readLen)),.written,filePointer,
      w.inputStream.drop readLen⟩ := by
  have hrest := hw.rest hq
  have hnonneg := hw.nonneg
  have hfin : i32 (w.threadInfo.finished + readLen) = w.threadInfo.finished + readLen := by
    apply i32_eq
    constructor <;> omega
  refine ⟨hw.id,?_,fun hq => (nomatch hq),fun _ => ?_⟩
  · change 0 ≤ i32 _
    rw [hfin]
    omega
  · change i32 _ + ((w.inputStream.drop readLen).length : ℤ) = _
    rw [hfin, List.length_drop]
    omega

theorem run_reported {resource : List UInt8} {info : TaskInfo} {file : List UInt8}
    {rows : ThreadTable} {a : ThreadAction} {e : Effect} (h0 : 0 < resource.length)
    (hL : resource.length < 2147483648) (ht : OnlyTask resource.length info t)
    (hw : OnlyThread resource.length w) (hr : Reported w quiet R)
    (ha : ∀ responseCode body, a = .connect responseCode body → Answers resource w responseCode body)
    (hio : a ≠ .ioException) {quiet' : Prop}
    (hquiet : quiet' ↔ quiet ∧ (a = .clock true → w.inputStream ≠ []))
    (h : w.run t file rows a = some e) :
    OnlyTask resource.length info e.task ∧
    match e.thread with
    | some w' => OnlyThread resource.length w' ∧ Reported w' quiet' (R + hundreds e.posted.toList)
    | none => ReportedAll quiet' (R + hundreds e.posted.toList) := by
  -- only a late tick can end the quiet
  have hkeep : a ≠ .clock true → (quiet' ↔ quiet) := fun hne =>
    hquiet.trans (and_iff_left fun heq => absurd heq hne)
  cases run_acts h with
  | connected hc =>
    refine ⟨ht,hw.connected hc (ha _ _ rfl),?_⟩
    rcases hr with ⟨hq,hR⟩ | ⟨_,_,hq,_⟩
    · exact Or.inl ⟨(hkeep nofun).mpr hq,by simpa [hc] using hR⟩
    · exact absurd hc hq
  | refused _ hcode =>
    rcases ha _ _ rfl with ⟨hb,_⟩ | ⟨hb,_⟩
    · exact absurd (Or.inl hb) hcode
    · exact absurd (Or.inr hb) hcode
  | delivered hc hpos hle =>
    refine ⟨ht,hw.delivered (by rw [hc]; decide) hL hle,?_⟩
    rcases hr with ⟨hq,hR⟩ | ⟨_,hs,_,_,_⟩
    · exact Or.inl ⟨(hkeep nofun).mpr hq,by simpa [hc] using hR⟩
    · rw [hs] at hle
      exact absurd hle (by simp; omega)
  | early hc =>
    refine ⟨ht,hw.moved (by rw [hc]; decide) (by decide),?_⟩
    rcases hr with ⟨hq,hR⟩ | ⟨_,_,_,hwr,_⟩
    · exact Or.inl ⟨(hkeep nofun).mpr hq,by simpa [hc] using hR⟩
    · exact absurd hc hwr
  | late hc =>
    have hq : w.stage ≠ .queued := by rw [hc]; decide
    obtain ⟨ht',p,hp,h100⟩ := ht.notifyProgress hw hq h0 hL
    refine ⟨ht',hw.moved hq (by decide),?_⟩
    rcases hr with ⟨hqu,hR⟩ | ⟨_,_,_,hwr,_⟩
    · rw [hc] at hR
      have hR : R = 0 := by simpa using hR
      subst hR
      simp only [hp, Option.toList_some, hundreds_singleton h100]
      by_cases hs : w.inputStream = []
      · exact Or.inr ⟨fun hn => (hquiet.mp hn).2 rfl hs,hs,by simp,by simp,by simp [hs]⟩
      · exact Or.inl ⟨hquiet.mpr ⟨hqu,fun _ => hs⟩,by simp [hs]⟩
    · exact absurd hc hwr
  | checked hc =>
    refine ⟨ht,hw.moved (by rw [hc]; decide) (by split <;> decide),?_⟩
    rcases hr with ⟨hqu,hR⟩ | ⟨hqu,hs,_,_,hR⟩
    · refine Or.inl ⟨(hkeep nofun).mpr hqu,?_⟩
      cases hp : t.isPause <;> simpa [hc, hp] using hR
    · refine Or.inr ⟨fun hn => hqu ((hkeep nofun).mp hn),hs,?_⟩
      cases hp : t.isPause <;> simpa [hc, hp] using hR
  | notified hc =>
    have hq : w.stage ≠ .queued := by rw [hc]; decide
    obtain ⟨ht',p,hp,h100⟩ := ht.notifyProgress hw hq h0 hL
    refine ⟨ht',hw.moved hq (by decide),?_⟩
    simp only [hp, Option.toList_some, hundreds_singleton h100]
    rw [Reported, hc] at hr
    rcases hr with ⟨hqu,hR⟩ | ⟨hqu,hs,_,_,hR⟩
    · have hR : R = 0 := by simpa using hR
      exact Or.inl ⟨(hkeep nofun).mpr hqu,by simp [hR]⟩
    · exact Or.inr ⟨fun hn => hqu ((hkeep nofun).mp hn),hs,by simp,by simp,by simp [hR, hs]⟩
  | persisted hc =>
    refine ⟨ht,?_⟩
    rcases hr with ⟨hqu,hR⟩ | ⟨hqu,_,_,_,hR⟩
    · refine Or.inl ⟨(hkeep nofun).mpr hqu,?_⟩
      simp only [Option.toList_none, hundreds_nil, Nat.add_zero, hR]
      split_ifs <;> omega
    · exact Or.inr ⟨fun hn => hqu ((hkeep nofun).mp hn),by simpa [hc] using hR⟩
  | ended hc hnil =>
    obtain ⟨ht',p,hp,h100⟩ := ht.notifyProgress hw (by rw [hc]; decide) h0 hL
    refine ⟨ht',?_⟩
    simp only [hp, Option.toList_some, hundreds_singleton h100]
    rcases hr with ⟨hqu,hR⟩ | ⟨hqu,_,_,_,hR⟩
    · exact Or.inl ⟨(hkeep nofun).mpr hqu,by simp [hR, hc, hnil]⟩
    · exact Or.inr ⟨fun hn => hqu ((hkeep nofun).mp hn),by simp [hR, hc, hnil]⟩
  | failed => exact absurd rfl hio

end Phases

section Runs
variable {resource : List UInt8} {info : TaskInfo} {quiet : Prop} {R R' : ℕ} {s u : Session}

/-- The phases of a session with a single thread. -/
def Session.Single (resource : List UInt8) (info : TaskInfo) (quiet : Prop) (R : ℕ) (s : Session) :
    Prop :=
  (s.task = none ∧ s.threads = [] ∧ s.queue = [] ∧ quiet ∧ R = 0 ∧
    (∀ lenght ∈ s.announced, lenght = resource.length) ∧ getThread s.rows info.url = []) ∨
  ∃ t, s.task = some t ∧ OnlyTask resource.length info t ∧
    ((∃ w, s.threads = [w] ∧ OnlyThread resource.length w ∧ Reported w quiet R) ∨
      (s.threads = [] ∧ ReportedAll quiet R))

theorem msgInit_single (hL : resource.length < 2147483648)
    (hs : s.Single resource info quiet R) (h : s.step info (.msgInit 1) = some u) :
    u.Single resource info quiet R ∧ u.queue = s.queue := by
  cases Session.step_acts h with
  | @initialized _ lenght ann task =>
    refine ⟨Or.inr ?_,rfl⟩
    rcases hs with ⟨_,_,_,hq,hR,hann,hrows⟩ | ⟨t,ht',_⟩
    · obtain rfl := hann lenght ann
      let t := DownloadTask.init { info with lenght := resource.length } 1
      have hp : parts resource.length 1 = 1 := by
        unfold parts
        split_ifs <;> rfl
      have hnew : t.newThreads = [threadRow info.url resource.length 1 0] := by
        rw [newThreads_eq (L := resource.length) (T := 1) rfl hL rfl, hp]
        rfl
      have hstart : (t.downlaod s.rows).2 = [threadRow info.url resource.length 1 0] := by
        rcases downlaod_cases t s.rows with ⟨hne,_⟩ | ⟨_,he⟩
        · exact absurd hrows hne
        · rw [he, hnew]
      refine ⟨t,rfl,⟨rfl,rfl⟩,Or.inl ⟨DownloadThread.init (threadRow info.url resource.length 1 0),?_,?_,?_⟩⟩
      · change startThreads (t.downlaod s.rows).2 = _
        rw [hstart]
        rfl
      · exact ⟨rfl,le_rfl,fun _ => ⟨by simp [DownloadThread.init, Slices.sliceStart],rfl,rfl⟩,
          fun hq => absurd rfl hq⟩
      · exact Or.inl ⟨hq,by rw [hR]; rfl⟩
    · cases task.symm.trans ht'

theorem thread_single (h0 : 0 < resource.length) (hL : resource.length < 2147483648)
    (hs : s.Single resource info quiet R) {i : ℕ} {a : ThreadAction}
    (ha : SingleWorker resource s (.thread i a)) (h : s.step info (.thread i a) = some u)
    (hR : R' + hundreds s.queue = R + hundreds u.queue) :
    u.Single resource info (quiet ∧ TicksBeforeEnd s (.thread i a)) R' := by
  cases Session.step_acts h with
  | @ran t w _ _ e ht hw he =>
    dsimp only at hR
    rw [hundreds_append] at hR
    obtain rfl : R' = R + hundreds e.posted.toList := by omega
    rcases hs with ⟨ht',_⟩ | ⟨t',ht',hone,⟨w',hws,hw',hr⟩ | ⟨hws,_⟩⟩
    · exact nomatch ht.symm.trans ht'
    · cases ht.symm.trans ht'
      rw [hws] at hw
      have hi : i = 0 := by
        obtain ⟨hi,_⟩ := List.getElem?_eq_some_iff.mp hw
        simpa using hi
      subst hi
      cases hw
      have htick : (quiet ∧ TicksBeforeEnd s (.thread 0 a)) ↔
          quiet ∧ (a = .clock true → w.inputStream ≠ []) := by
        apply and_congr_right
        intro _
        cases a with
        | clock late => cases late <;> simp [TicksBeforeEnd, hws]
        | _ => simp [TicksBeforeEnd]
      obtain ⟨hone',hthread⟩ := run_reported h0 hL hone hw' hr
        (fun responseCode body hc => by
          subst hc
          exact ha.1 w (by rw [hws]; rfl))
        (fun hio => by subst hio; exact nomatch ha.2) htick he
      refine Or.inr ⟨e.task,rfl,hone',?_⟩
      cases hthr : e.thread with
      | some w' =>
        rw [hthr] at hthread
        exact Or.inl ⟨w',by rw [hws]; rfl,hthread⟩
      | none =>
        rw [hthr] at hthread
        exact Or.inr ⟨by rw [hws]; rfl,hthread⟩
    · rw [hws] at hw
      cases hw

theorem step_single (h0 : 0 < resource.length) (hL : resource.length < 2147483648)
    (hdown : info.download.isSome) (hs : s.Single resource info quiet R) {a : SessionAction}
    (ha : SingleWorker resource s a) (h : s.step info a = some u)
    (hR : R' + hundreds s.queue =
      R + hundreds u.queue + (s.calls a).countP Call.isOnDownloadFinished) :
    u.Single resource info (quiet ∧ TicksBeforeEnd s a) R' := by
  cases Session.step_acts h with
  | announced task _ =>
    obtain rfl := ha.1
    rcases hs with ⟨ht,hws,hq,hqu,h0,hann,hrows⟩ | ⟨t,ht,_⟩
    · rw [hq] at hR
      exact Or.inl ⟨ht,hws,hq,⟨hqu,trivial⟩,by simpa [Session.calls, h0] using hR,
        fun lenght he => by cases he; rfl,hrows⟩
    · exact nomatch task.symm.trans ht
  | @initialized threadCount lenght ann task =>
    obtain rfl : threadCount = 1 := ha.1
    obtain ⟨hu,hq⟩ := msgInit_single hL hs h
    rw [hq] at hR
    obtain rfl : R' = R := by
      have : (s.calls (.msgInit 1)).countP Call.isOnDownloadFinished = 0 := rfl
      omega
    simpa [TicksBeforeEnd] using hu
  | @paused t ht =>
    obtain rfl : R' = R := by simpa [Session.calls] using hR
    rcases hs with ⟨ht',_⟩ | ⟨t',ht',hone,hth⟩
    · exact nomatch ht.symm.trans ht'
    · cases ht.symm.trans ht'
      exact Or.inr ⟨t.pause,rfl,⟨hone.taskInfo,hone.totals⟩,by simpa [TicksBeforeEnd] using hth⟩
  | restarted => exact nomatch ha.2
  | ran => exact thread_single h0 hL hs ha h (by simpa [Session.calls] using hR)
  | @handled t progress queue ht hq =>
    rcases hs with ⟨ht',_⟩ | ⟨t',ht',hone,hth⟩
    · exact nomatch ht.symm.trans ht'
    · cases ht.symm.trans ht'
      have hcalls : (s.calls .handle).countP Call.isOnDownloadFinished = hundreds [progress] := by
        simp only [Session.calls, Session.handlerCalls, ht, hq]
        rw [dispatchMessage_counts.1, DownloadTask.finishes, hone.taskInfo, hdown]
        by_cases hp : 100 ≤ progress <;> simp [hundreds, hp]
      have hsplit : hundreds s.queue = hundreds [progress] + hundreds queue := by
        rw [hq, ← hundreds_append]
        rfl
      obtain rfl : R' = R := by
        dsimp only at hR
        omega
      exact Or.inr ⟨t,ht,hone,by simpa [TicksBeforeEnd] using hth⟩
  | died => exact nomatch ha.2

/-- The calls of a run, in order. -/
def runCalls (info : TaskInfo) : Session → List SessionAction → List Call :=
  trace (Session.step info) Session.calls

theorem runCalls_counts (info : TaskInfo) (s : Session) (as : List SessionAction) :
    (runCalls info s as).countP Call.isBroadcast = (runCalls info s as).countP Call.isOnDownloadFinished ∧
    (runCalls info s as).countP Call.isDeleteThread =
      (runCalls info s as).countP Call.isOnDownloadFinished := by
  have hcalls : ∀ (s : Session) (a : SessionAction),
      (s.calls a).countP Call.isBroadcast = (s.calls a).countP Call.isOnDownloadFinished ∧
      (s.calls a).countP Call.isDeleteThread = (s.calls a).countP Call.isOnDownloadFinished := by
    intro s a
    cases a <;> try exact ⟨rfl,rfl⟩
    simp only [Session.calls, Session.handlerCalls]
    split
    · rename_i t progress _ _ _
      obtain ⟨hf,hb,hd⟩ := @dispatchMessage_counts t progress
      exact ⟨hb.trans hf.symm,hd.trans hf.symm⟩
    · exact ⟨rfl,rfl⟩
  induction as generalizing s with
  | nil => exact ⟨rfl,rfl⟩
  | cons a as ih =>
    simp only [runCalls, trace, List.countP_append, hcalls s a]
    cases h : s.step info a with
    | none => exact ⟨rfl,rfl⟩
    | some u =>
      simp only [Option.elim_some, Nat.add_left_cancel_iff]
      exact ih u

/-- The task works on the order it was made for. -/
def Session.Ordered (info : TaskInfo) (s : Session) : Prop :=
  ∀ t, s.task = some t → t.mTaskInfo.download = info.download

theorem Session.Ordered.step (hs : s.Ordered info) {a : SessionAction}
    (h : s.step info a = some u) : u.Ordered info := by
  intro t' ht'
  cases Session.step_acts h with
  | announced | handled => exact hs t' ht'
  | initialized =>
    cases ht'
    rfl
  | @paused t task | @restarted t task =>
    cases ht'
    exact hs t task
  | ran task _ run =>
    cases ht'
    rw [(run_frame run).taskInfo]
    exact hs _ task
  | died => cases ht'

/-- Without a callback object the handler returns before it completes anything. -/
theorem runCalls_none (hd : info.download = none) (hs : s.Ordered info) (as : List SessionAction) :
    runCalls info s as = [] := by
  induction as generalizing s with
  | nil => rfl
  | cons a as ih =>
    have hcalls : s.calls a = [] := by
      cases a <;> try rfl
      simp only [Session.calls, Session.handlerCalls]
      split
      · rename_i t progress _ ht _
        rw [DownloadTask.dispatchMessage, hs t ht, hd]
      · rfl
    simp only [runCalls, trace, hcalls, List.nil_append]
    cases h : s.step info a with
    | none => rfl
    | some u => exact ih (hs.step h)

/-- A thread that is never restarted completes its task at most once exactly when no
tick falls on its last chunk. -/
theorem completion_at_most_once_iff (resource : List UInt8) (h0 : 1 ≤ resource.length)
    (hL : resource.length ≤ 2147483647) (info : TaskInfo) (rows : ThreadTable)
    (hrows : getThread rows info.url = []) (file : List UInt8) (as : List SessionAction) (s : Session)
    (hone : Along (Session.step info) (SingleWorker resource) (Session.fresh rows file) as)
    (he : exec (Session.step info) (Session.fresh rows file) as = some s)
    (hthreads : s.threads = []) (hqueue : s.queue = []) :
    AtMostOnce (runCalls info (Session.fresh rows file) as) ↔
      info.download = none ∨ Along (Session.step info) TicksBeforeEnd (Session.fresh rows file) as := by
  have hordered : (Session.fresh rows file).Ordered info := fun t ht => nomatch ht
  have hcounts := runCalls_counts info (Session.fresh rows file) as
  cases hd : info.download with
  | none =>
    rw [runCalls_none hd hordered]
    exact ⟨fun _ => Or.inl rfl,fun _ => ⟨Nat.zero_le 1,Nat.zero_le 1,Nat.zero_le 1⟩⟩
  | some d =>
    have hsome : info.download.isSome := by rw [hd]; rfl
    have hinv := exec_history
      (I := fun as s => Along (Session.step info) (SingleWorker resource) (Session.fresh rows file) as →
        s.Single resource info (Along (Session.step info) TicksBeforeEnd (Session.fresh rows file) as)
          ((runCalls info (Session.fresh rows file) as).countP Call.isOnDownloadFinished +
            hundreds s.queue))
      (fun _ => Or.inl ⟨rfl,rfl,rfl,trivial,rfl,fun _ h => (nomatch h),hrows⟩)
      (fun as t a u ht ih hu hone => by
        obtain ⟨hone,ha⟩ := (along_append_singleton ht).mp hone
        rw [along_append_singleton ht]
        refine step_single (by omega) (by omega) hsome (ih hone) ha hu ?_
        rw [runCalls, trace_append_singleton _ ht, List.countP_append]
        omega) he hone
    rw [hqueue, hundreds_nil, Nat.add_zero] at hinv
    simp only [AtMostOnce, hcounts, and_self, reduceCtorEq, false_or]
    rcases hinv with ⟨_,_,_,hq,hR,_⟩ | ⟨t,_,_,⟨w,hw,_⟩ | ⟨_,⟨hq,hR⟩ | ⟨hq,hR⟩⟩⟩
    · exact iff_of_true (by omega) hq
    · rw [hw] at hthreads
      cases hthreads
    · exact iff_of_true hR hq
    · exact iff_of_false (by omega) hq

end Runs

def undisturbedRun : List SessionAction :=
  [.initThread 2,.msgInit 1,.thread 0 (.connect 206 [7,8]),.thread 0 (.read 2),
    .thread 0 (.clock false),.thread 0 .checkPause,.thread 0 .endOfStream,.handle]

theorem completion_at_most_once_undisturbed :
    AtMostOnce (runCalls twoByteInfo (Session.fresh [] []) undisturbedRun) :=
  (completion_at_most_once_iff twoBytes (by decide) (by decide) twoByteInfo [] rfl [] undisturbedRun _
    (by decide) rfl rfl rfl).mpr (Or.inr (by decide))

/-- The last chunk arrives late: its tick and the end of the stream both send 100. -/
def lateTickRun : List SessionAction :=
  [.initThread 2,.msgInit 1,.thread 0 (.connect 206 [7,8]),.thread 0 (.read 2),
    .thread 0 (.clock true),.thread 0 .checkPause,.thread 0 .endOfStream,.handle,.handle]

theorem completion_reported_twice :
    ¬ ∀ (resource : List UInt8), 1 ≤ resource.length → resource.length ≤ 2147483647 →
      ∀ (info : TaskInfo) (rows : ThreadTable), getThread rows info.url = [] →
      ∀ (file : List UInt8) (as : List SessionAction) (s : Session),
        Along (Session.step info) (SingleWorker resource) (Session.fresh rows file) as →
        exec (Session.step info) (Session.fresh rows file) as = some s →
        AtMostOnce (runCalls info (Session.fresh rows file) as) := by
  intro h
  obtain ⟨s,he⟩ : ∃ s, exec (Session.step twoByteInfo) (Session.fresh [] []) lateTickRun = some s :=
    ⟨_,rfl⟩
  have honce := h twoBytes (by decide) (by decide) twoByteInfo [] rfl [] lateTickRun s (by decide) he
  exact absurd honce.1 (by decide)

end AdSystem.Download
