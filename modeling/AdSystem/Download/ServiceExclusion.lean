import AdSystem.Download.ServiceInvariant

/-! # When a url is downloaded by one thread only

A request looks for its url among the listed tasks only. It misses the init threads
and messages under way, and the threads of a paused task that are still running.
-/
namespace AdSystem.Download
open Pool Transition

namespace Service

/-- The thread that a worker is, as the table names it. -/
def key (w : Worker) : String × ℤ := (w.thread.threadInfo.url,w.thread.threadInfo.id)

/-- One listed task for a url and one live thread for a row. -/
def Exclusive (s : Service) : Prop :=
  (s.mListTask.map s.url).Nodup ∧ (s.workers.map key).Nodup

/-- No thread of the url is queued or running. -/
def Idle (s : Service) (link : String) : Prop := ∀ w ∈ s.workers, w.thread.threadInfo.url ≠ link

/-- Tasks are made for urls that are neither listed nor being downloaded, and a paused
task is only requested again after its threads have gone. -/
def Alone (s : Service) : ServiceAction → Prop
  | .download info => ∀ k ∈ s.find info.url, (s.task k).isPause = true → s.Idle info.url
  | .dispatch => ∀ info, s.queue.head? = some (.init info) → s.find info.url = none ∧ s.Idle info.url
  | _ => True

section Steps
variable {s u : Service} {link : String} {r : ThreadInfo} {k : ℕ}

theorem keys_addWorker (hs : s.Wf) (he : (s.workers.map key).Nodup) (hof : RowOf link r) :
    ((s.workers ++ [Worker.mk k (DownloadThread.init r)]).map key).Nodup ↔ s.Idle link := by
  have hkey : key (Worker.mk k (DownloadThread.init r)) = (link,0) := by
    simp only [key, DownloadThread.init, hof.url, hof.id]
  rw [List.map_append, List.map_singleton, hkey, List.nodup_append]
  constructor
  · rintro ⟨_,_,hne⟩ w hw rfl
    apply hne (key w) (List.mem_map_of_mem hw) _ List.mem_cons_self
    rw [key, (hs.workers w hw).id]
  · intro hidle
    refine ⟨he,List.nodup_singleton _,fun a ha b hb => ?_⟩
    obtain ⟨w,hw,rfl⟩ := List.mem_map.mp ha
    rw [List.mem_singleton.mp hb]
    intro heq
    exact hidle w hw (congrArg Prod.fst heq)

theorem download_exclusive (hs : s.Wf) (he : s.Exclusive) (info : TaskInfo) :
    (s.download info).Exclusive ↔ s.Alone (.download info) := by
  rcases download_cases hs info with ⟨k,r,rows,hf,hp,hd,hof,_⟩ | ⟨k,hf,hp,hd⟩ | ⟨hf,hd⟩
  · have hurl : (s.download info).url = s.url := by
      funext j
      rw [hd]
      exact congrArg TaskInfo.url (update_taskInfo (k := k) (t := (s.task k).restart) rfl j)
    have hAlone : s.Alone (.download info) ↔ s.Idle info.url := by
      simp [Alone, hf, hp]
    rw [hAlone, Exclusive, hurl, hd]
    exact ⟨fun h => (keys_addWorker hs he.2 hof).mp h.2,
      fun h => ⟨he.1,(keys_addWorker hs he.2 hof).mpr h⟩⟩
  · rw [hd]
    apply iff_of_true he
    intro j hj hpj
    cases hf.symm.trans hj
    rw [hp] at hpj
    cases hpj
  · rw [hd]
    apply iff_of_true he
    intro j hj
    exact nomatch hf.symm.trans hj

theorem handleInit_exclusive (hs : s.Wf) (he : s.Exclusive) (info : TaskInfo) :
    (s.handleMessage (.init info)).Exclusive ↔ s.find info.url = none ∧ s.Idle info.url := by
  obtain ⟨r,rows,hd,hof,_⟩ := handleInit_eq hs.rows info
  have hlist : s.mListTask.map (s.handleMessage (.init info)).url = s.mListTask.map s.url := by
    apply List.map_congr_left
    intro k hk
    rw [hd, url, url]
    simp only [Function.update_of_ne (hs.listed k hk).ne]
  have hnew : (s.handleMessage (.init info)).url s.made = info.url := by
    rw [hd, url]
    simp only [Function.update_self]
    rfl
  have hmade : (s.handleMessage (.init info)).mListTask = s.mListTask ++ [s.made] := by rw [hd]
  have hworkers : (s.handleMessage (.init info)).workers
      = s.workers ++ [⟨s.made,DownloadThread.init r⟩] := by rw [hd]
  rw [Exclusive, hmade, hworkers, List.map_append, hlist, List.map_singleton, hnew,
    keys_addWorker hs he.2 hof, find_eq_none]
  apply and_congr_left
  intro _
  rw [List.nodup_append]
  constructor
  · rintro ⟨_,_,hne⟩ k hk heq
    exact hne _ (List.mem_map_of_mem hk) _ List.mem_cons_self heq
  · intro hfree
    refine ⟨he.1,List.nodup_singleton _,fun a ha b hb => ?_⟩
    obtain ⟨k,hk,rfl⟩ := List.mem_map.mp ha
    rw [List.mem_singleton.mp hb]
    exact hfree k hk

theorem dispatch_exclusive (hs : s.Wf) (he : s.Exclusive) (h : s.step .dispatch = some u) :
    u.Exclusive ↔ s.Alone .dispatch := by
  obtain ⟨m,queue,hq,rfl⟩ := dispatch_eq h
  have hs' : { s with queue : Service }.Wf :=
    { hs with messages := fun m' hm' => hs.messages m' (by rw [hq]; exact List.mem_cons_of_mem _ hm') }
  cases m with
  | init info =>
    rw [handleInit_exclusive hs' he]
    simp only [Alone, hq, List.head?_cons, Option.some.injEq, Message.init.injEq, forall_eq']
    exact Iff.rfl
  | downloadFinished link =>
    refine iff_of_true ⟨he.1.sublist (List.eraseP_sublist.map _),he.2⟩ fun info hi => ?_
    rw [hq] at hi
    cases hi
  | downloading k progress =>
    have hkeep : ({ s with queue : Service }.handleMessage (.downloading k progress)).Exclusive := by
      simp only [handleMessage]
      split_ifs <;> exact he
    apply iff_of_true hkeep
    intro info hi
    rw [hq] at hi
    cases hi

theorem worker_exclusive {i : ℕ} {a : ThreadAction} (he : s.Exclusive)
    (h : s.step (.worker i a) = some u) : u.Exclusive := by
  obtain ⟨w,e,hw,hr,rfl⟩ := worker_eq h
  have hf := run_frame hr
  constructor
  · have hurl : (s.applyEffect i w.task e).url = s.url := by
      funext j
      exact congrArg TaskInfo.url (update_taskInfo hf.taskInfo j)
    rw [hurl]
    exact he.1
  · refine he.2.sublist (map_update_sublist hw fun w' hw' => ?_)
    obtain ⟨th,hth,rfl⟩ := Option.map_eq_some_iff.mp hw'
    have hseg := hf.thread th hth
    have hurl := congrArg ThreadInfo.url hseg
    have hid := congrArg ThreadInfo.id hseg
    simp only [key]
    exact Prod.ext hurl hid

/-- Every step keeps the exclusion exactly when it was alone on its url. -/
theorem step_exclusive (hs : s.Wf) (he : s.Exclusive) {a : ServiceAction}
    (h : s.step a = some u) : u.Exclusive ↔ s.Alone a := by
  cases a with
  | download info => cases h; exact download_exclusive hs he info
  | pause link =>
    cases h
    refine iff_of_true ?_ trivial
    unfold pause
    cases hf : s.find link with
    | none => exact he
    | some k =>
      have hurl : (s.setTask k (s.task k).pause).url = s.url := by
        funext j
        exact congrArg TaskInfo.url (update_taskInfo (k := k) (t := (s.task k).pause) rfl j)
      exact ⟨by rw [hurl]; exact he.1,he.2⟩
  | onLowMemory =>
    cases h
    have hurl : s.onLowMemory.url = s.url := by
      funext j
      exact congrArg TaskInfo.url (onLowMemory_taskInfo s j)
    exact iff_of_true ⟨by rw [hurl]; exact he.1,he.2⟩ trivial
  | initThread i answer =>
    obtain ⟨info,_,⟨_,rfl⟩ | ⟨info',files,_,rfl⟩⟩ := initThread_eq h
    · exact iff_of_true he trivial
    · exact iff_of_true he trivial
  | worker i a => exact iff_of_true (worker_exclusive he h) trivial
  | dispatch => exact dispatch_exclusive hs he h
  | receive i =>
    obtain ⟨link,_,rfl⟩ := receive_eq h
    exact iff_of_true he trivial

end Steps

/-- Along a run there is never a second task or thread exactly when every request and
every MSG_INIT finds its url alone. -/
theorem exclusive_iff_alone (rows : ThreadTable) (files : FileKey → List UInt8) (hr : RowsOk rows)
    (as : List ServiceAction) (u : Service) (he : exec Service.step (onCreate rows files) as = some u) :
    Always Service.step Exclusive (onCreate rows files) as ↔
      Along Service.step Alone (onCreate rows files) as :=
  always_iff_along (fun _ _ _ hs h => Wf.step hs h) (fun _ _ _ hs hp h => step_exclusive hs hp h)
    (onCreate_wf hr) ⟨List.nodup_nil,List.nodup_nil⟩ he

end Service

def orderedInfo (download : ℕ) : TaskInfo := ⟨"u",none,some "f",0,some download⟩
def twoBytesAnswer : InitAnswer := ⟨200,2,"d","h"⟩

theorem exclusive_single_request :
    Always Service.step Service.Exclusive (Service.onCreate [] fun _ => [])
      [.download (orderedInfo 0),.initThread 0 (some twoBytesAnswer),.dispatch] := by
  refine (Service.exclusive_iff_alone [] (fun _ => []) rowsOk_nil _ _ rfl).mpr ?_
  refine (along_cons rfl).mpr ⟨fun _ hk => (nomatch hk),(along_cons rfl).mpr ⟨trivial,(along_cons rfl).mpr ⟨?_,trivial⟩⟩⟩
  intro info h
  cases h
  exact ⟨rfl,fun _ hw => nomatch hw⟩

/-- The second request comes before the first is listed. -/
theorem service_not_exclusive :
    ¬ ∀ (rows : ThreadTable) (files : FileKey → List UInt8), RowsOk rows →
      ∀ (as : List ServiceAction) (u : Service),
        exec Service.step (Service.onCreate rows files) as = some u → u.Exclusive := by
  intro h
  have hu := h [] (fun _ => []) rowsOk_nil
    [.download (orderedInfo 0),.download (orderedInfo 1),.initThread 0 (some twoBytesAnswer),
      .initThread 0 (some twoBytesAnswer),.dispatch,.dispatch] _ rfl
  exact absurd hu.1 (by decide)

end AdSystem.Download
