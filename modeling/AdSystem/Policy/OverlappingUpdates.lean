import AdSystem.Policy.CutOverSequence

/-! # Two updates at a time

A second receiver compares its policy with what the first has cut over so far. The
order of the four cut-overs decides which containers stay and which files go.
-/
namespace AdSystem.Policy
open Iteration Transition Batches

/-- The active policy while some downloads of an update are left. -/
def AdMediaInfo.patched (old new : AdMediaInfo) (left : List Download) : AdMediaInfo :=
  [Media.video,Media.image].foldl (fun info m =>
    if (process old new).Adopted left m then info.setContainer m (new.container m) else info) old

theorem AdMediaInfo.patched_container (old new : AdMediaInfo) (left : List Download) (m : Media) :
    (old.patched new left).container m =
      if (process old new).Adopted left m then new.container m else old.container m := by
  simp only [patched, List.foldl_cons, List.foldl_nil]
  cases m <;> split_ifs <;> simp_all

/-- The receivers of an update to `a`, and of one to `b` while downloads of the first are left. -/
def overlapReceivers (old a b : AdMediaInfo) (left : List Download) : ℕ → Receiver
  | 0 => process old a
  | _ => process (old.patched a left) b

/-- The callbacks `before` the second receiver processes its policy, the downloads `left`
then, and the callbacks `after` it. -/
structure Overlap (order : IterOrder NString) (old a b : AdMediaInfo) (before left after : List Download) :
    Prop where
  beforeSecond : ((process old a).downloads order 0).Perm (before ++ left)
  pending : left ≠ []
  afterSecond : (left ++ (process (old.patched a left) b).downloads order 1).Perm after

/-- Whatever files there are, all callbacks come through, the containers are those of the
second policy, and none of its files has been deleted. -/
def Converges (mMediaPath : String) (order : IterOrder NString)
    (parse : String → Except Thrown (Option AdMediaInfo)) (start : Device) (first second : String)
    (b : AdMediaInfo) (before after : List Download) : Prop :=
  ∀ files : Finset String, ∃ t,
    exec (Updates.step mMediaPath order parse) (Updates.ofDevice { start with storage := ⟨files,∅⟩ })
      (.fetched first :: before.map .finished ++ .fetched second :: after.map .finished) = some t ∧
    t.crashed = false ∧ (∀ m, t.device.adMediaInfo.container m = b.container m) ∧
    ∀ p, FileIn mMediaPath b p → p ∉ t.device.storage.deleted

section Sequence
variable {mMediaPath : String} {order : IterOrder NString}
  {parse : String → Except Thrown (Option AdMediaInfo)} {R : ℕ → Receiver} {c c' : Media → Container}
  {s t : Updates} {xmlText : String} {a b : AdMediaInfo}

theorem Tracks.ofDevice (device : Device) : Tracks R device.adMediaInfo.container (Updates.ofDevice device) where
  counted := Updates.ofDevice_counted device
  running := rfl
  newMediaInfo _ _ h := nomatch h
  deleteSet _ _ h := nomatch h
  containers _ := rfl

theorem Tracks.fetched (hs : Tracks R c s) (h : parse xmlText = .ok (some b))
    (hnew : (R s.receivers.length).newMediaInfo = b)
    (hdel : (R s.receivers.length).deleteSet = (process s.device.adMediaInfo b).deleteSet) :
    Tracks R c (s.fetched order parse xmlText) := by
  have hcounted := hs.counted.fetched order h
  have hreceiver : ∀ k r, (s.receivers ++ [process s.device.adMediaInfo b])[k]? = some r →
      r.newMediaInfo = (R k).newMediaInfo ∧ r.deleteSet = (R k).deleteSet := by
    intro k r hk
    rcases Nat.lt_trichotomy k s.receivers.length with hlt | rfl | hgt
    · rw [List.getElem?_append_left hlt] at hk
      exact ⟨hs.newMediaInfo k r hk,hs.deleteSet k r hk⟩
    · rw [List.getElem?_concat_length] at hk
      cases hk
      exact ⟨hnew.symm,hdel.symm⟩
    · rw [List.getElem?_eq_none (by rw [List.length_append]; exact hgt)] at hk
      cases hk
  rw [Updates.fetched_ok h] at hcounted ⊢
  exact ⟨hcounted,hs.running,fun k r hk => (hreceiver k r hk).1,fun k r hk => (hreceiver k r hk).2,
    hs.containers⟩

variable (order b) in
theorem process_deleteSet_congr {old old' : AdMediaInfo} (h : ∀ m, old.container m = old'.container m) :
    (process old b).deleteSet = (process old' b).deleteSet ∧
      (process old b).downloads order 1 = (process old' b).downloads order 1 := by
  have hdel : (process old b).deleteSet = (process old' b).deleteSet := by
    funext m
    simp only [process, h]
  have hdown : (process old b).downloadSet = (process old' b).downloadSet := by
    funext m
    simp only [process, h]
  exact ⟨hdel,by simp only [Receiver.downloads, hdown]⟩

theorem step_fetched (h : s.crashed = false) :
    s.step mMediaPath order parse (.fetched xmlText) = some (s.fetched order parse xmlText) :=
  if_neg (by rw [h]; decide)

variable (mMediaPath) in
theorem exists_files (b : AdMediaInfo) : ∃ files : Finset String, ∀ p, FileIn mMediaPath b p → p ∈ files := by
  refine ⟨(getList mMediaPath .some b .video ++ getList mMediaPath .some b .image).toFinset,?_⟩
  rintro p ⟨m,id,entry,he,rfl⟩
  have hm : mediaFile mMediaPath entry.filename ∈ getList mMediaPath .some b m :=
    mem_getList.mpr ⟨entry.filename,⟨id,entry,he,rfl⟩,rfl⟩
  rw [List.mem_toFinset, List.mem_append]
  cases m with
  | video => exact Or.inl hm
  | image => exact Or.inr hm

end Sequence

section Kinds
variable (mMediaPath : String) (b : AdMediaInfo) (R : ℕ → Receiver) (m : Media)

/-- The receivers of the cut-overs of a kind, in order. -/
def cutOversOf (ls : List (ℕ × Media)) : List ℕ := (ls.filter fun l => l.2 = m).map Prod.fst

/-- The cut-overs of a kind lead from a container to another and spare the policy. -/
def KindLeads : Container → List ℕ → Container → Prop
  | c, [], c' => c = c'
  | c, k :: ks, c' => ((R k).deleteSet m ⊆ c.keys ∧ Spares mMediaPath b c ((R k).deleteSet m)) ∧
      KindLeads ((R k).newMediaInfo.container m) ks c'

variable {mMediaPath} {b} {R} {m}

theorem cutOversOf_cons (l : ℕ × Media) (ls : List (ℕ × Media)) :
    cutOversOf m (l :: ls) = if l.2 = m then l.1 :: cutOversOf m ls else cutOversOf m ls := by
  unfold cutOversOf
  split_ifs with h <;> simp [h]

theorem mem_cutOversOf {k : ℕ} {ls : List (ℕ × Media)} : k ∈ cutOversOf m ls ↔ (k,m) ∈ ls := by
  simp [cutOversOf]

/-- The kinds do not interfere. -/
theorem kindLeads_iff {c c' : Media → Container} {ls : List (ℕ × Media)} :
    exec (cutTo R) c ls = some c' ∧ Along (cutTo R) (SparesFiles R mMediaPath b) c ls ↔
      ∀ m, KindLeads mMediaPath b R m (c m) (cutOversOf m ls) (c' m) := by
  induction ls generalizing c with
  | nil =>
    constructor
    · rintro ⟨he,_⟩ m
      cases he
      rfl
    · intro h
      exact ⟨congrArg some (funext h),trivial⟩
  | cons l ls ih =>
    have hcut : ∀ c1, cutTo R c l = some c1 ↔ (R l.1).deleteSet l.2 ⊆ (c l.2).keys ∧
        Function.update c l.2 ((R l.1).newMediaInfo.container l.2) = c1 := fun c1 =>
      Option.ite_none_right_eq_some.trans (and_congr_right fun _ => Option.some_inj)
    have hkind : ∀ n, KindLeads mMediaPath b R n (Function.update c l.2
          ((R l.1).newMediaInfo.container l.2) n) (cutOversOf n ls) (c' n) ∧
        (l.2 = n → (R l.1).deleteSet l.2 ⊆ (c l.2).keys ∧
          Spares mMediaPath b (c l.2) ((R l.1).deleteSet l.2)) ↔
        KindLeads mMediaPath b R n (c n) (cutOversOf n (l :: ls)) (c' n) := by
      intro n
      rw [cutOversOf_cons]
      rcases eq_or_ne l.2 n with rfl | hne
      · rw [if_pos rfl, Function.update_self, and_comm]
        exact and_congr_left fun _ => forall_prop_of_true rfl
      · rw [if_neg hne, Function.update_of_ne hne.symm]
        exact and_iff_left fun h => absurd h hne
    constructor
    · rintro ⟨he,hal⟩ n
      obtain ⟨_,hc1,he⟩ := (exec_cons_eq_some _).mp he
      obtain ⟨hsub,rfl⟩ := (hcut _).mp hc1
      exact (hkind n).mp ⟨ih.mp ⟨he,hal.2 _ hc1⟩ n,fun _ => ⟨hsub,hal.1⟩⟩
    · intro h
      obtain ⟨hsub,hspares⟩ := ((hkind l.2).mpr (h l.2)).2 rfl
      have hc1 := (hcut _).mpr ⟨hsub,rfl⟩
      obtain ⟨he,hal⟩ := ih.mpr fun n => ((hkind n).mpr (h n)).1
      exact ⟨(exec_cons_eq_some _).mpr ⟨_,hc1,he⟩,(along_cons hc1).mpr ⟨hspares,hal⟩⟩

end Kinds

section Overlap
variable {mMediaPath : String} {order : IterOrder NString}
  {parse : String → Except Thrown (Option AdMediaInfo)} {start : Device} {first second : String}
  {a b : AdMediaInfo} {before left after : List Download}
  (hfirst : parse first = .ok (some a)) (hsecond : parse second = .ok (some b))
  (hov : Overlap order start.adMediaInfo a b before left after)

/-- The state the second receiver finds, but for the files. -/
structure SecondFinds (start : Device) (a : AdMediaInfo) (left : List Download) (s : Updates) : Prop where
  running : s.crashed = false
  receivers : s.receivers.length = 1
  downloads : s.downloads.Perm left
  containers : ∀ m, s.device.adMediaInfo.container m = (start.adMediaInfo.patched a left).container m

variable (mMediaPath) in
include hfirst hov in
theorem exists_secondFinds (files : Finset String) :
    ∃ s, exec (Updates.step mMediaPath order parse)
        ((Updates.ofDevice { start with storage := ⟨files,∅⟩ }).fetched order parse first)
        (before.map .finished) = some s ∧ SecondFinds start a left s := by
  have hp : ((Updates.ofDevice { start with storage := ⟨files,∅⟩ }).fetched order parse first).downloads.Perm
      (before ++ left) := by
    rw [fetched_downloads hfirst]
    exact hov.beforeSecond
  obtain ⟨s,hs,hupd,hrest⟩ := (Updating.fetched mMediaPath hfirst).exec_finished parse hp
  obtain ⟨r,hr,_⟩ := hupd.receiver
  refine ⟨s,hs,hupd.running,by rw [hr]; rfl,hrest,fun m => ?_⟩
  have hmem : (process start.adMediaInfo a).Adopted s.downloads m ↔
      (process start.adMediaInfo a).Adopted left m := by
    rw [Receiver.Adopted, Receiver.Adopted, (hrest.map Download.target).mem_iff]
  rw [AdMediaInfo.patched_container]
  split_ifs with h
  · exact (hupd.adopted m (hmem.mpr h)).1
  · exact (hupd.held m fun hm => h (hmem.mp hm)).1

include hsecond hov in
theorem SecondFinds.fetched {s : Updates} {c : Media → Container} (hs : SecondFinds start a left s)
    (ht : Tracks (overlapReceivers start.adMediaInfo a b left) c s) :
    Tracks (overlapReceivers start.adMediaInfo a b left) c (s.fetched order parse second) ∧
      (s.fetched order parse second).downloads.Perm (after ++ []) := by
  have hcongr := process_deleteSet_congr order b hs.containers
  constructor
  · exact ht.fetched hsecond (by rw [hs.receivers]; rfl) (by rw [hs.receivers, hcongr.1]; rfl)
  · rw [Updates.fetched_ok hsecond, hs.receivers, hcongr.2, List.append_nil]
    exact (hs.downloads.append_right _).trans hov.afterSecond

include hfirst hsecond hov in
/-- Overlapping updates converge iff their cut-overs do, and spare the files of the second
policy. -/
theorem converges_iff_cutOvers :
    Converges mMediaPath order parse start first second b before after ↔
      exec (cutTo (overlapReceivers start.adMediaInfo a b left)) start.adMediaInfo.container
        (closings Download.target left before ++ closings Download.target [] after) = some b.container ∧
      Along (cutTo (overlapReceivers start.adMediaInfo a b left))
        (SparesFiles (overlapReceivers start.adMediaInfo a b left) mMediaPath b) start.adMediaInfo.container
        (closings Download.target left before ++ closings Download.target [] after) := by
  have htracks : ∀ files, Tracks (overlapReceivers start.adMediaInfo a b left) start.adMediaInfo.container
      ((Updates.ofDevice { start with storage := ⟨files,∅⟩ }).fetched order parse first) := fun files =>
    (Tracks.ofDevice { start with storage := ⟨files,∅⟩ }).fetched hfirst rfl rfl
  have hperm : ∀ files, ((Updates.ofDevice { start with storage := ⟨files,∅⟩ }).fetched order parse
      first).downloads.Perm (before ++ left) := by
    intro files
    rw [fetched_downloads hfirst]
    exact hov.beforeSecond
  constructor
  · intro hconv
    obtain ⟨files,hfiles⟩ := exists_files mMediaPath b
    obtain ⟨t,ht,hrun,hcontainers,hclean⟩ := hconv files
    obtain ⟨s,hs,hfinds⟩ := exists_secondFinds mMediaPath hfirst hov files
    rw [List.cons_append, exec_cons, step_fetched rfl, Option.bind_some, exec_append, hs, Option.bind_some,
      exec_cons, step_fetched hfinds.running, Option.bind_some] at ht
    have hmiddle : ∀ p, FileIn mMediaPath b p → p ∉ s.device.storage.deleted := by
      intro p hp hdel
      refine hclean p hp (Updates.exec_deleted_mono ht ?_)
      rw [Updates.fetched_ok hsecond]
      exact hdel
    have hstart : ∀ p, FileIn mMediaPath b p → p ∈ ((Updates.ofDevice
        { start with storage := ⟨files,∅⟩ }).fetched order parse first).device.storage.files := by
      rw [Updates.fetched_ok hfirst]
      exact hfiles
    obtain ⟨c1,hc1,hal1,ht1,_,hfiles1⟩ := (htracks files).spares_of_exec (hperm files) hstart hs
      hfinds.running hmiddle
    obtain ⟨ht2,hperm2⟩ := hfinds.fetched hsecond hov ht1
    obtain ⟨c2,hc2,hal2,ht3,_⟩ := ht2.spares_of_exec hperm2
      (by rw [Updates.fetched_ok hsecond]; exact hfiles1) ht hrun hclean
    have hend : c2 = b.container := funext fun m => (ht3.containers m).symm.trans (hcontainers m)
    exact ⟨(exec_append_eq_some _).mpr ⟨c1,hc1,hend ▸ hc2⟩,(along_append hc1).mpr ⟨hal1,hal2⟩⟩
  · rintro ⟨hexec,halong⟩ files
    obtain ⟨c1,hc1,hc2⟩ := (exec_append_eq_some _).mp hexec
    obtain ⟨hal1,hal2⟩ := (along_append hc1).mp halong
    obtain ⟨s,hs,hfinds⟩ := exists_secondFinds mMediaPath hfirst hov files
    obtain ⟨s',hs',ht1,_,hclean1⟩ := (htracks files).exec_of_spares (hperm files)
      (by rw [Updates.fetched_ok hfirst]; exact fun p _ h => Finset.notMem_empty p h) hc1 hal1
    cases hs.symm.trans hs'
    obtain ⟨ht2,hperm2⟩ := hfinds.fetched hsecond hov ht1
    obtain ⟨t,ht,ht3,_,hclean⟩ := ht2.exec_of_spares hperm2
      (by rw [Updates.fetched_ok hsecond]; exact hclean1) hc2 hal2
    refine ⟨t,?_,ht3.running,ht3.containers,hclean⟩
    rw [List.cons_append, exec_cons, step_fetched rfl, Option.bind_some, exec_append, hs, Option.bind_some,
      exec_cons, step_fetched hfinds.running, Option.bind_some]
    exact ht

end Overlap

/-- Whether a kind converges: by the order of its cut-overs before and after the second
receiver processes its policy, where 0 is the first receiver and 1 the second. -/
def KindConverges (mMediaPath : String) (old a b : AdMediaInfo) (m : Media) : List ℕ → List ℕ → Prop
  | [0], [1] => Spares mMediaPath b (old.container m) ((process old a).deleteSet m) ∧
      Spares mMediaPath b (a.container m) ((process a b).deleteSet m)
  | [0], [] => Spares mMediaPath b (old.container m) ((process old a).deleteSet m) ∧
      a.container m = b.container m
  | [], [0,1] => Spares mMediaPath b (old.container m) ((process old a).deleteSet m) ∧
      (process old b).deleteSet m ⊆ (a.container m).keys ∧
      Spares mMediaPath b (a.container m) ((process old b).deleteSet m)
  | [], [1,0] => a.container m = b.container m ∧ (process old a).deleteSet m = ∅
  | [], [1] => Spares mMediaPath b (old.container m) ((process old b).deleteSet m)
  | [], [] => old.container m = b.container m
  | _, _ => False

section Table
variable {mMediaPath : String} {order : IterOrder NString} {old a b : AdMediaInfo}
  {before left after : List Download} {m : Media}

theorem nodup_zero_one {l : List ℕ} (hl : l.Nodup) (h : ∀ k ∈ l, k = 0 ∨ k = 1) :
    l = [] ∨ l = [0] ∨ l = [1] ∨ l = [0,1] ∨ l = [1,0] := by
  rcases l with _ | ⟨i,_ | ⟨j,_ | ⟨k,l⟩⟩⟩
  · exact Or.inl rfl
  · rcases h i List.mem_cons_self with rfl | rfl <;> simp
  · have hi := h i (by simp)
    have hj := h j (by simp)
    simp only [List.nodup_cons, List.mem_singleton] at hl
    rcases hi with rfl | rfl <;> rcases hj with rfl | rfl <;> simp_all
  · have hi := h i (by simp)
    have hj := h j (by simp)
    have hk := h k (by simp)
    simp only [List.nodup_cons, List.mem_cons, not_or] at hl
    omega

theorem nodup_cutOversOf {ls : List (ℕ × Media)} (h : ls.Nodup) : (cutOversOf m ls).Nodup := by
  refine (h.filter _).map_on fun l hl k hk he => Prod.ext he ?_
  rw [of_decide_eq_true (List.mem_filter.mp hl).2, of_decide_eq_true (List.mem_filter.mp hk).2]

theorem process_deleteSet_subset (old new : AdMediaInfo) (m : Media) :
    (process old new).deleteSet m ⊆ (old.container m).keys :=
  fun _ h => (mem_getSetDifference.mp h).1

theorem overlapReceivers_second (m : Media) :
    (overlapReceivers old a b left 1).deleteSet m =
      if (process old a).Adopted left m then (process a b).deleteSet m else (process old b).deleteSet m := by
  have h : (overlapReceivers old a b left 1).deleteSet m =
      getSetDifference ((old.patched a left).container m).keys (b.container m).keys := rfl
  rw [h, AdMediaInfo.patched_container]
  split_ifs
  · rfl
  · rfl

section Orders
variable (hov : Overlap order old a b before left after)
include hov

theorem Overlap.mem_before {k : ℕ} : k ∈ cutOversOf m (closings Download.target left before) ↔
    k = 0 ∧ (process old a).Adopted left m := by
  rw [mem_cutOversOf, mem_closings, Receiver.Adopted]
  have hall : (k,m) ∈ before.map Download.target ∨ (k,m) ∈ left.map Download.target ↔
      k = 0 ∧ (process old a).downloadSet m ≠ ∅ := by
    rw [← Receiver.mem_targets order, (hov.beforeSecond.map Download.target).mem_iff, List.map_append,
      List.mem_append]
  constructor
  · rintro ⟨hb,hl⟩
    obtain ⟨rfl,hne⟩ := hall.mp (Or.inl hb)
    exact ⟨rfl,hne,hl⟩
  · rintro ⟨rfl,hne,hl⟩
    exact ⟨(hall.mpr ⟨rfl,hne⟩).resolve_right hl,hl⟩

theorem Overlap.mem_after {k : ℕ} : k ∈ cutOversOf m (closings Download.target [] after) ↔
    (k,m) ∈ left.map Download.target ∨ k = 1 ∧ (process (old.patched a left) b).downloadSet m ≠ ∅ := by
  rw [mem_cutOversOf, mem_closings, ← (hov.afterSecond.map Download.target).mem_iff, List.map_append,
    List.mem_append, Receiver.mem_targets]
  exact and_iff_left List.not_mem_nil

theorem Overlap.mem_left {k : ℕ} (h : (k,m) ∈ left.map Download.target) :
    k = 0 ∧ (process old a).downloadSet m ≠ ∅ := by
  rw [← Receiver.mem_targets order, (hov.beforeSecond.map Download.target).mem_iff, List.map_append]
  exact List.mem_append_right _ h

theorem Overlap.before_cases :
    (cutOversOf m (closings Download.target left before) = [0] ∧ (process old a).Adopted left m) ∨
      (cutOversOf m (closings Download.target left before) = [] ∧ ¬ (process old a).Adopted left m) := by
  have hmem := fun k => hov.mem_before (m := m) (k := k)
  have hnodup : (closings Download.target left before).Nodup := nodup_closings before
  rcases nodup_zero_one (nodup_cutOversOf (m := m) hnodup)
    (fun k hk => Or.inl ((hmem k).mp hk).1) with h | h | h | h | h
  · rw [h] at hmem
    exact Or.inr ⟨h,fun hm => nomatch (hmem 0).mpr ⟨rfl,hm⟩⟩
  · rw [h] at hmem
    exact Or.inl ⟨h,((hmem 0).mp List.mem_cons_self).2⟩
  all_goals
    rw [h] at hmem
    exact absurd ((hmem 1).mp (by simp)).1 (by decide)

theorem Overlap.after_adopted (hm : (process old a).Adopted left m) :
    cutOversOf m (closings Download.target [] after) = [] ∨
      cutOversOf m (closings Download.target [] after) = [1] := by
  have hone : ∀ k ∈ cutOversOf m (closings Download.target [] after), k = 1 := by
    intro k hk
    rcases hov.mem_after.mp hk with hk | ⟨rfl,_⟩
    · obtain ⟨rfl,_⟩ := hov.mem_left hk
      exact absurd hk hm.2
    · rfl
  rcases nodup_zero_one (nodup_cutOversOf (nodup_closings after)) fun k hk => Or.inr (hone k hk) with
    h | h | h | h | h
  · exact Or.inl h
  · exact absurd (hone 0 (by rw [h]; simp)) (by decide)
  · exact Or.inr h
  · exact absurd (hone 0 (by rw [h]; simp)) (by decide)
  · exact absurd (hone 0 (by rw [h]; simp)) (by decide)

theorem Overlap.after_cases :
    cutOversOf m (closings Download.target [] after) = [] ∨
      cutOversOf m (closings Download.target [] after) = [0] ∨
      cutOversOf m (closings Download.target [] after) = [1] ∨
      cutOversOf m (closings Download.target [] after) = [0,1] ∨
      cutOversOf m (closings Download.target [] after) = [1,0] := by
  apply nodup_zero_one (nodup_cutOversOf (nodup_closings after))
  intro k hk
  rcases hov.mem_after.mp hk with hk | ⟨rfl,_⟩
  · exact Or.inl (hov.mem_left hk).1
  · exact Or.inr rfl

theorem Overlap.kindLeads_iff_converges (m : Media) :
    KindLeads mMediaPath b (overlapReceivers old a b left) m (old.container m)
        (cutOversOf m (closings Download.target left before) ++
          cutOversOf m (closings Download.target [] after)) (b.container m) ↔
      KindConverges mMediaPath old a b m (cutOversOf m (closings Download.target left before))
        (cutOversOf m (closings Download.target [] after)) := by
  have hsecond : (overlapReceivers old a b left 1).deleteSet m = _ := overlapReceivers_second m
  have hfirst : (overlapReceivers old a b left 0).deleteSet m = (process old a).deleteSet m := rfl
  have hnew0 : (overlapReceivers old a b left 0).newMediaInfo = a := rfl
  have hnew1 : (overlapReceivers old a b left 1).newMediaInfo = b := rfl
  rcases hov.before_cases (m := m) with ⟨hpre,hm⟩ | ⟨hpre,hm⟩
  · rw [if_pos hm] at hsecond
    rcases hov.after_adopted hm with hpost | hpost <;> rw [hpre, hpost] <;>
      simp only [List.append_nil, List.cons_append, List.nil_append, KindLeads, KindConverges, hfirst,
        hsecond, hnew0, hnew1, process_deleteSet_subset, true_and, and_true]
  · rw [if_neg hm] at hsecond
    rcases hov.after_cases (m := m) with hpost | hpost | hpost | hpost | hpost <;> rw [hpre, hpost] <;>
      simp only [List.nil_append, KindLeads, KindConverges, hfirst, hsecond, hnew0, hnew1,
        process_deleteSet_subset, true_and, and_true]
    · -- the first receiver has new ids of the kind, the second none: not the same container
      refine iff_of_false (fun h => ?_) id
      have hleft : (0,m) ∈ left.map Download.target := by
        rcases hov.mem_after.mp (hpost ▸ List.mem_singleton_self 0) with hl | ⟨h01,_⟩
        · exact hl
        · cases h01
      obtain ⟨id,hid⟩ := Finset.nonempty_iff_ne_empty.mpr (hov.mem_left hleft).2
      have hnone : (1 : ℕ) ∉ cutOversOf m (closings Download.target [] after) := by
        rw [hpost]
        decide
      refine hnone (hov.mem_after.mpr (Or.inr ⟨rfl,Finset.ne_empty_of_mem (a := id) ?_⟩))
      have hidm := mem_getSetDifference.mp hid
      refine mem_getSetDifference.mpr ⟨h.2 ▸ hidm.1,?_⟩
      rw [AdMediaInfo.patched_container, if_neg hm]
      exact hidm.2
    · constructor
      · rintro ⟨_,⟨hsub,_⟩,heq⟩
        refine ⟨heq,Finset.eq_empty_of_forall_notMem fun id hid => ?_⟩
        exact (mem_getSetDifference.mp hid).2 (heq ▸ hsub hid)
      · rintro ⟨heq,hempty⟩
        have hempty' : (process old b).deleteSet m = ∅ := by
          rw [← hempty]
          simp only [process, heq]
        rw [hempty, hempty']
        exact ⟨fun id hid => absurd hid (Finset.notMem_empty id),
          ⟨Finset.empty_subset _,fun id hid => absurd hid (Finset.notMem_empty id)⟩,heq⟩

end Orders
end Table

/-- Overlapping updates converge to the second policy iff each kind does. -/
theorem converges_iff {mMediaPath : String} {order : IterOrder NString}
    {parse : String → Except Thrown (Option AdMediaInfo)} {start : Device} {first second : String}
    {a b : AdMediaInfo} {before left after : List Download} (hfirst : parse first = .ok (some a))
    (hsecond : parse second = .ok (some b)) (hov : Overlap order start.adMediaInfo a b before left after) :
    Converges mMediaPath order parse start first second b before after ↔
      ∀ m, KindConverges mMediaPath start.adMediaInfo a b m
        (cutOversOf m (closings Download.target left before))
        (cutOversOf m (closings Download.target [] after)) := by
  rw [converges_iff_cutOvers hfirst hsecond hov, kindLeads_iff]
  apply forall_congr'
  intro m
  rw [← hov.kindLeads_iff_converges m, cutOversOf, cutOversOf, cutOversOf, List.filter_append, List.map_append]

section Example

/-- A policy of one video. -/
def oneVideo (id filename : String) : AdMediaInfo := .ofEntries [.ofFile id filename] []

/-- Which policy a text stands for. -/
def oneVideoText (xmlText : String) : Except Thrown (Option AdMediaInfo) :=
  .ok (some (if xmlText = "A" then oneVideo "1" "a.mp4" else oneVideo "2" "b.mp4"))

theorem overlap_one_video {after : List Download}
    (h : [⟨0,.video,some "1"⟩,⟨1,.video,some "2"⟩].Perm after) :
    Overlap .some .empty (oneVideo "1" "a.mp4") (oneVideo "2" "b.mp4") [] [⟨0,.video,some "1"⟩] after where
  beforeSecond := .of_eq (Receiver.downloads_one_video _ (by decide) (by decide))
  pending := List.cons_ne_nil _ _
  afterSecond := by
    rw [Receiver.downloads_one_video (some "2") (by decide) (by decide)]
    exact h

theorem converges_in_order :
    Converges "" .some oneVideoText (.unplayed .empty ∅) "A" "B" (oneVideo "2" "b.mp4") []
      [⟨0,.video,some "1"⟩,⟨1,.video,some "2"⟩] := by
  apply (converges_iff rfl rfl (overlap_one_video (List.Perm.refl _))).mpr
  intro m
  have hnone : ∀ c, Spares "" (oneVideo "2" "b.mp4") c ∅ := fun _ id hid => absurd hid (Finset.notMem_empty id)
  cases m with
  | video =>
    rw [show cutOversOf Media.video (closings Download.target
      [(⟨0,.video,some "1"⟩ : Download)] []) = [] from rfl,
      show cutOversOf Media.video (closings Download.target []
        [(⟨0,.video,some "1"⟩ : Download),⟨1,.video,some "2"⟩]) = [0,1] by decide]
    exact ⟨hnone _,Finset.empty_subset _,hnone _⟩
  | image => rfl

/-- The callback of the first receiver after that of the second brings its policy back. -/
theorem not_converges_out_of_order :
    ¬ ∀ (mMediaPath : String) (order : IterOrder NString)
      (parse : String → Except Thrown (Option AdMediaInfo)) (start : Device) (first second : String)
      (a b : AdMediaInfo) (before left after : List Download), parse first = .ok (some a) →
      parse second = .ok (some b) → Overlap order start.adMediaInfo a b before left after →
      Converges mMediaPath order parse start first second b before after := by
  intro hall
  have hov := overlap_one_video (List.Perm.swap (⟨1,.video,some "2"⟩ : Download) ⟨0,.video,some "1"⟩ [])
  have hconv := hall "" .some oneVideoText (.unplayed .empty ∅) "A" "B" _ _ _ _ _ rfl rfl hov
  rw [converges_iff_cutOvers rfl rfl hov, kindLeads_iff] at hconv
  have hvideo := hconv .video
  rw [show cutOversOf Media.video (closings Download.target [(⟨0,.video,some "1"⟩ : Download)] [] ++
    closings Download.target [] [(⟨1,.video,some "2"⟩ : Download),⟨0,.video,some "1"⟩]) = [1,0] by decide]
    at hvideo
  exact absurd (congrArg Finmap.keys hvideo.2.2) (by decide)

end Example

end AdSystem.Policy
