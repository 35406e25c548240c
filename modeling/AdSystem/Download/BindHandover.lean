import AdSystem.Download.DownloadManager
import Mathlib.Data.List.Nodup

/-! # Requests handed over to the bound service

A request goes to the service at once when it is bound, and into the list before.
Each connection posts a message that empties the list, and there may be several of
either in flight; the tasks in the list and those passed on are always the requested
ones together.
-/
namespace AdSystem.Download
open Transition

/-- The task that is requested; nothing for an empty url. -/
def ManagerAction.task : ManagerAction → Option TaskInfo
  | .startDownload (some url) filePathParam fileNameParam download _ =>
    if url = "" then none else some ⟨url,filePathParam,fileNameParam,0,download⟩
  | _ => none

def ManagerAction.Uninterrupted : ManagerAction → Prop
  | .startDownload _ _ _ _ interrupted => interrupted = false
  | .onServiceConnected => True
  | .handleMessage interrupted => interrupted = false

def requested (as : List ManagerAction) : List TaskInfo := as.filterMap ManagerAction.task

namespace DownloadManager

/-- After these actions: no permit is lost, no task either, and tasks in the list of a bound
manager have a message on its way to them. -/
structure Handed (as : List ManagerAction) (s : DownloadManager) : Prop where
  balanced : s.Balanced
  bound : s.mService = true ↔ .onServiceConnected ∈ as
  posted : s.mService = true → s.mListTask ≠ [] → 0 < s.mHandler
  tasks : (s.downloads ++ s.mListTask).Perm (requested as)

section
variable {as : List ManagerAction} {s t : DownloadManager} {a : ManagerAction}

theorem requested_append (as : List ManagerAction) (a : ManagerAction) :
    requested (as ++ [a]) = requested as ++ a.task.toList := by
  rw [requested, List.filterMap_append]
  cases h : a.task <;> simp [h, requested]

theorem init_handed : init.Handed [] := by
  refine ⟨⟨rfl,rfl⟩,?_,nofun,List.Perm.nil⟩
  exact iff_of_false nofun nofun

/-- No action but the connection binds the manager. -/
theorem Handed.bound_append (h : s.Handed as) (ha : a ≠ .onServiceConnected) :
    s.mService = true ↔ .onServiceConnected ∈ as ++ [a] := by
  rw [h.bound, List.mem_append, List.mem_singleton]
  exact (or_iff_left (Ne.symm ha)).symm

/-- A url that was not requested is not listed. -/
theorem Handed.not_listed (h : s.Handed as) {url : String} (hnew : url ∉ (requested as).map TaskInfo.url) :
    ¬s.Listed url := by
  rintro ⟨info,hinfo,rfl⟩
  exact hnew (List.mem_map_of_mem (h.tasks.subset (List.mem_append_right _ hinfo)))

/-- A request joins the tasks passed on, or those of the list. -/
theorem Handed.startDownload (h : s.Handed as) {url filePathParam fileNameParam : Option String}
    {download : Option ℕ} (ha : a = .startDownload url filePathParam fileNameParam download false)
    (hnew : ∀ info, a.task = some info → info.url ∉ (requested as).map TaskInfo.url) :
    (s.startDownload url filePathParam fileNameParam download false).Handed (as ++ [a]) := by
  have hbound := h.bound_append (a := a) (by rw [ha]; rintro ⟨⟩)
  have hkept (htask : a.task = none) : s.Handed (as ++ [a]) := by
    refine ⟨h.balanced,hbound,h.posted,?_⟩
    rw [requested_append, htask]
    simpa using h.tasks
  cases url with
  | none => exact hkept (by rw [ha]; rfl)
  | some url =>
    by_cases hurl : url = ""
    · rw [DownloadManager.startDownload, if_pos hurl]
      exact hkept (by rw [ha, ManagerAction.task, if_pos hurl])
    · have htask : a.task = some ⟨url,filePathParam,fileNameParam,0,download⟩ := by
        rw [ha, ManagerAction.task, if_neg hurl]
      have hreq : requested (as ++ [a]) =
          requested as ++ [⟨url,filePathParam,fileNameParam,0,download⟩] := by
        rw [requested_append, htask, Option.toList_some]
      cases hm : s.mService with
      | true =>
        simp only [DownloadManager.startDownload, if_neg hurl, hm, if_true]
        refine ⟨h.balanced,hbound,h.posted,?_⟩
        rw [hreq]
        refine List.Perm.trans ?_ (h.tasks.append_right _)
        rw [DownloadManager.download, List.append_assoc, List.append_assoc]
        exact List.perm_append_comm.append_left _
      | false =>
        have hany :
            ¬s.mListTask.any (TaskInfo.equals ⟨url,filePathParam,fileNameParam,0,download⟩) = true :=
          fun hl => h.not_listed (hnew _ htask) (any_equals.mp hl)
        rw [startDownload_of_balanced h.balanced hurl hm, if_neg hany]
        refine ⟨⟨rfl,h.balanced.2⟩,hbound,fun hs => absurd (hm.symm.trans hs) Bool.false_ne_true,?_⟩
        rw [hreq, ← List.append_assoc]
        exact h.tasks.append_right _

/-- The handler passes on what is in the list. -/
theorem Handed.handleMessage (h : s.Handed as) (n : ℕ) :
    ({ s with mHandler := n, waiting := false }.handleBindSuc false).Handed
      (as ++ [ManagerAction.handleMessage false]) := by
  have hs : ({ s with mHandler := n, waiting := false } : DownloadManager).Balanced := ⟨h.balanced.1,rfl⟩
  rw [handleBindSuc, acquire_of_balanced hs]
  simp only [drain_eq]
  refine ⟨⟨rfl,rfl⟩,h.bound_append (by rintro ⟨⟩),fun _ hne => absurd rfl hne,?_⟩
  rw [requested_append]
  have hreverse := ((List.reverse_perm s.mListTask).append_left s.downloads).trans h.tasks
  simpa [release, ManagerAction.task] using hreverse

theorem Handed.step (h : s.Handed as) (ha : a.Uninterrupted)
    (hnew : ∀ info, a.task = some info → info.url ∉ (requested as).map TaskInfo.url)
    (hstep : s.step a = some t) : t.Handed (as ++ [a]) := by
  simp only [DownloadManager.step, h.balanced.2, Bool.false_eq_true, if_false] at hstep
  cases a with
  | startDownload url filePathParam fileNameParam download interrupted =>
    cases ha
    cases hstep
    exact h.startDownload rfl hnew
  | onServiceConnected =>
    cases hstep
    refine ⟨⟨h.balanced.1,rfl⟩,iff_of_true rfl (by simp),fun _ _ => Nat.succ_pos _,?_⟩
    rw [requested_append]
    simpa [ManagerAction.task] using h.tasks
  | handleMessage interrupted =>
    cases ha
    split_ifs at hstep
    cases hstep
    exact h.handleMessage _

theorem exec_handed (hun : ∀ a ∈ as, a.Uninterrupted) (hdistinct : ((requested as).map TaskInfo.url).Nodup)
    (he : exec DownloadManager.step init as = some s) : s.Handed as := by
  revert hun hdistinct
  refine exec_history (I := fun as s => (∀ a ∈ as, a.Uninterrupted) →
    ((requested as).map TaskInfo.url).Nodup → s.Handed as) (fun _ _ => init_handed) ?_ he
  intro bs u a v _ ih hstep hun hdistinct
  rw [requested_append, List.map_append, List.nodup_append] at hdistinct
  have hbs := ih (fun b hb => hun b (List.mem_append_left _ hb)) hdistinct.1
  refine hbs.step (hun a (by simp)) (fun info htask hmem => ?_) hstep
  rw [htask] at hdistinct
  exact hdistinct.2.2 info.url hmem info.url (by simp) rfl

end

/-- When a connection has come and every message posted is handled, the list is empty, and
each task requested was passed to the service once. -/
theorem requests_handed_over {as : List ManagerAction} {s : DownloadManager}
    (hun : ∀ a ∈ as, a.Uninterrupted) (hdistinct : ((requested as).map TaskInfo.url).Nodup)
    (he : exec step init as = some s) :
    s.waiting = false ∧
      (.onServiceConnected ∈ as → s.mHandler = 0 →
        s.mListTask = [] ∧ s.downloads.Perm (requested as) ∧
          ∀ info ∈ requested as, s.downloads.count info = 1) := by
  have h := exec_handed hun hdistinct he
  refine ⟨h.balanced.2,fun hconn hzero => ?_⟩
  have hempty : s.mListTask = [] := by
    by_contra hne
    exact absurd (h.posted (h.bound.mpr hconn) hne) (by omega)
  have hperm : s.downloads.Perm (requested as) := by
    have htasks := h.tasks
    rwa [hempty, List.append_nil] at htasks
  refine ⟨hempty,hperm,fun info hinfo => ?_⟩
  rw [hperm.count_eq, List.count_eq_one_of_mem (List.Nodup.of_map _ hdistinct) hinfo]

/-- One request before the connection, one before its message is handled, and one after. -/
theorem requests_handed_over_thrice :
    let as := [request "a",.onServiceConnected,request "b",.handleMessage false,request "c"]
    ∃ s, exec step init as = some s ∧ s.mListTask = [] ∧ s.downloads.Perm (requested as) := by
  have hun : ∀ a ∈ [request "a",.onServiceConnected,request "b",.handleMessage false,request "c"],
      a.Uninterrupted := by
    simp [request, ManagerAction.Uninterrupted]
  have he : exec step init [request "a",.onServiceConnected,request "b",.handleMessage false,request "c"] =
      some ⟨true,[],1,0,false,["b","a","c"].map fun url => ⟨url,none,none,0,none⟩⟩ := by
    decide
  have h := (requests_handed_over hun (by decide) he).2 (by decide) rfl
  exact ⟨_,he,h.1,h.2.1⟩

end DownloadManager
end AdSystem.Download
