import AdSystem.Library.Iteration
import AdSystem.Schedule.MessageReceivers

/-! # The paths of dispatched messages

The dispatcher takes a path for a receiver whose prefix it begins with, a slash before it or
not, and hands it on as it is. The receivers know only the paths without the slash.
-/
namespace AdSystem.Schedule
open Iteration Query
open Policy (Media utf16)
open MessagePath JSONObject

namespace MessageDispatcher

/-- `MESSAGE_RECEIVERS` after `registerAllMessageReceiver`. -/
def receivers : List (JString × Media) := [(PREFIX .video,.video),(PREFIX .image,.image)]

def keySet : Finset JString := {PREFIX .video,PREFIX .image}

def isHit (path key : JString) : Bool := key.isPrefixOf path || (47 :: key).isPrefixOf path

/-- The receiver of the first key that hits, in the order of the map; else the path is not found. -/
def getReceiver (order : IterOrder JString) (path : JString) : Option Media :=
  ((order.list keySet).find? (isHit path)).bind fun key => receivers.lookup key

variable (env : Platform) (order : IterOrder JString) (now : ℕ)

def dispatchMessage (message : JSONObject) (s : RemoteState) : RemoteState × Option Thrown :=
  match message.getString env.valueOf KEY_INDEX with
  | none => (s,none)
  | some index_key =>
    match getReceiver order index_key with
    | some .video => VideoDownloadReceiver.receiveMessage env now s message index_key
    | some .image => ImageDownloadReceiver.receiveMessage env now s message index_key
    | none => (s,none)

/-- The message under another path. -/
def dispatchAt (message : JSONObject) (path : JString) (s : RemoteState) : RemoteState :=
  (dispatchMessage env order now (message.put KEY_INDEX (.string path)) s).1

/-- The same receivers, tables and playlists. -/
structure SameEffect (s t : RemoteState) : Prop where
  receiver : s.receiver = t.receiver
  db : s.db = t.db
  video : s.video = t.video
  image : s.image = t.image

/-- A path and the path with a slash before it have the same effect, in every state. -/
def BothSpellings (message : JSONObject) (p : JString) : Prop :=
  ∀ now s, SameEffect (dispatchAt env order now message (47 :: p) s) (dispatchAt env order now message p s)

/-- Under this path the message changes nothing in any state. -/
def ChangesNothing (message : JSONObject) (path : JString) : Prop :=
  ∀ now s, dispatchAt env order now message path s = s

/-- The first segment of a path, after the slash that it may begin with. -/
def firstSegment : JString → JString
  | 47 :: p => p.takeWhile fun c => c ≠ 47
  | p => p.takeWhile fun c => c ≠ 47

/-- The parameters are there, and they change something: for an interval without files it takes
times that can be read, with a time of day between them. -/
def Acts (message : JSONObject) : Branch → Prop
  | .download | .delete => (message.getJSONArray KEY_PARAM).isSome
  | .intervalAdd =>
    ∃ startInterval endInterval mJSONArray,
      message.getString env.valueOf KEY_INTERVAL_START = some startInterval ∧
      message.getString env.valueOf KEY_INTERVAL_END = some endInterval ∧
      message.getJSONArray KEY_PARAM = some mJSONArray ∧ accepted startInterval endInterval = true ∧
      (mJSONArray ≠ [] ∨ Numeric startInterval ∧ Numeric endInterval ∧
        ∃ now, isTimeInInterval (getCurrentTime now) startInterval endInterval = true)
  | .intervalDelete =>
    ∃ jsonObject startInterval endInterval, message.getJSONObject KEY_PARAM = some jsonObject ∧
      jsonObject.getString env.valueOf KEY_INTERVAL_START = some startInterval ∧
      jsonObject.getString env.valueOf KEY_INTERVAL_END = some endInterval ∧
      accepted startInterval endInterval = true
  | .intervalClear => message.getBoolean KEY_PARAM = some true

section Paths
variable {order : IterOrder JString} {m n : Media} {path p : JString} {b : Branch}

theorem isHit_iff : isHit path (PREFIX m) = true ↔ PREFIX m <+: path ∨ 47 :: PREFIX m <+: path := by
  rw [isHit, Bool.or_eq_true, List.isPrefixOf_iff_prefix, List.isPrefixOf_iff_prefix]

theorem exists_prefix_of_hit (h : isHit path (PREFIX m) = true) :
    ∃ x ∈ [PREFIX m,47 :: PREFIX m], x <+: path := by
  rcases isHit_iff.mp h with hx | hx
  · exact ⟨_,List.mem_cons_self,hx⟩
  · exact ⟨_,List.mem_cons_of_mem _ (List.mem_singleton_self _),hx⟩

/-- No path is for both receivers. -/
theorem isHit_unique (hm : isHit path (PREFIX m) = true) (hn : isHit path (PREFIX n) = true) : m = n := by
  by_contra hne
  have hclash : ∀ x ∈ [PREFIX m,47 :: PREFIX m], ∀ y ∈ [PREFIX n,47 :: PREFIX n], ¬ (x <+: y ∨ y <+: x) := by
    cases m with
    | video =>
      cases n with
      | video => exact absurd rfl hne
      | image => decide
    | image =>
      cases n with
      | video => decide
      | image => exact absurd rfl hne
  obtain ⟨x,hx,hxpath⟩ := exists_prefix_of_hit hm
  obtain ⟨y,hy,hypath⟩ := exists_prefix_of_hit hn
  exact hclash x hx y hy (List.prefix_or_prefix_of_prefix hxpath hypath)

theorem mem_keySet {key : JString} : key ∈ order.list keySet ↔ ∃ m, key = PREFIX m := by
  rw [order.mem, keySet, Finset.mem_insert, Finset.mem_singleton]
  constructor
  · rintro (h | h)
    · exact ⟨.video,h⟩
    · exact ⟨.image,h⟩
  · rintro ⟨m,h⟩
    cases m with
    | video => exact Or.inl h
    | image => exact Or.inr h

theorem lookup_PREFIX (m : Media) : receivers.lookup (PREFIX m) = some m := by
  cases m with
  | video => decide
  | image => decide

/-- A path that hits is received, whatever the order of the map. -/
theorem getReceiver_of_hit (h : isHit path (PREFIX m) = true) : getReceiver order path = some m := by
  cases hfind : (order.list keySet).find? (isHit path) with
  | none => exact absurd h (List.find?_eq_none.mp hfind _ (mem_keySet.mpr ⟨m,rfl⟩))
  | some key =>
    obtain ⟨n,rfl⟩ := mem_keySet.mp (List.mem_of_find?_eq_some hfind)
    rw [getReceiver, hfind, Option.bind_some, isHit_unique h (List.find?_some hfind), lookup_PREFIX]

theorem getReceiver_of_not_hit (h : ∀ m, ¬ isHit path (PREFIX m) = true) : getReceiver order path = none := by
  have hfind : (order.list keySet).find? (isHit path) = none := by
    rw [List.find?_eq_none]
    intro key hkey
    obtain ⟨m,rfl⟩ := mem_keySet.mp hkey
    exact h m
  rw [getReceiver, hfind, Option.bind_none]

theorem isHit_slash (hp : p.head? ≠ some 47) : isHit (47 :: p) (PREFIX m) = isHit p (PREFIX m) := by
  have hhead : (PREFIX m).head? = some 65 := by
    cases m with
    | video => rfl
    | image => rfl
  have hleft : ¬ PREFIX m <+: 47 :: p := by
    intro h
    rw [List.head?_eq_some_iff] at hhead
    obtain ⟨k,hk⟩ := hhead
    rw [hk, List.cons_prefix_cons] at h
    exact absurd h.1 (by decide)
  have hright : ¬ 47 :: PREFIX m <+: p := by
    rintro ⟨t,rfl⟩
    exact hp rfl
  rw [Bool.eq_iff_iff, isHit_iff, isHit_iff, List.cons_prefix_cons, or_iff_right hleft, or_iff_left hright,
    and_iff_right rfl]

theorem isHit_branch (m : Media) (b : Branch) : isHit (b.path m) (PREFIX m) = true :=
  isHit_iff.mpr (Or.inl (List.prefix_append _ _))

theorem Branch.of_path (m : Media) (b : Branch) : Branch.of m (b.path m) = some b := by
  cases m with
  | video => cases b <;> decide
  | image => cases b <;> decide

theorem Branch.path_of (h : Branch.of m path = some b) : path = b.path m := by
  unfold Branch.of at h
  split_ifs at h with h0 h1 h2 h3 h4
  all_goals cases h; assumption

theorem Branch.path_head (m : Media) (b : Branch) : (b.path m).head? = some 65 := by
  cases m with
  | video => rfl
  | image => rfl

theorem firstSegment_branch (m : Media) (b : Branch) : firstSegment (b.path m) = PREFIX m := by
  cases m with
  | video => cases b <;> decide
  | image => cases b <;> decide

end Paths

section Effects
variable {order : IterOrder JString} {env : Platform} {now : ℕ} {m : Media} {s : RemoteState}
  {message : JSONObject} {path p : JString} {b : Branch}

theorem SameEffect.refl (s : RemoteState) : SameEffect s s := ⟨rfl,rfl,rfl,rfl⟩

/-- A branch does not read the path. -/
theorem receive_at :
    s.receive env now m (message.put KEY_INDEX (.string path)) b = s.receive env now m message b := by
  have hparam : (message.put KEY_INDEX (.string path)).lookup KEY_PARAM = message.lookup KEY_PARAM :=
    lookup_put_of_ne (by decide)
  have hstart : (message.put KEY_INDEX (.string path)).lookup KEY_INTERVAL_START =
      message.lookup KEY_INTERVAL_START := lookup_put_of_ne (by decide)
  have hend : (message.put KEY_INDEX (.string path)).lookup KEY_INTERVAL_END =
      message.lookup KEY_INTERVAL_END := lookup_put_of_ne (by decide)
  cases b with
  | download => simp only [RemoteState.receive, getJSONArray, hparam]
  | delete => simp only [RemoteState.receive, getJSONArray, hparam]
  | intervalAdd => simp only [RemoteState.receive, getJSONArray, getString, hparam, hstart, hend]
  | intervalDelete => simp only [RemoteState.receive, getJSONObject, hparam]
  | intervalClear => simp only [RemoteState.receive, getBoolean, hparam]

theorem dispatchAt_of_hit (h : isHit path (PREFIX m) = true) :
    dispatchAt env order now message path s =
      match Branch.of m path with
      | some b => ((s.takePlayer m).receive env now m message b).1
      | none => s.takePlayer m := by
  have hdispatch : dispatchAt env order now message path s =
      (s.receiveMessage env now m (message.put KEY_INDEX (.string path)) path).1 := by
    rw [dispatchAt, dispatchMessage, getString_put_self]
    simp only [getReceiver_of_hit h]
    cases m <;> rfl
  rw [hdispatch, RemoteState.receiveMessage]
  cases Branch.of m path with
  | none => rfl
  | some b => exact congrArg Prod.fst receive_at

theorem dispatchAt_of_not_hit (h : ∀ m, ¬ isHit path (PREFIX m) = true) :
    dispatchAt env order now message path s = s := by
  rw [dispatchAt, dispatchMessage, getString_put_self]
  simp only [getReceiver_of_not_hit h]

theorem dispatchAt_branch (m : Media) (b : Branch) :
    dispatchAt env order now message (b.path m) s = ((s.takePlayer m).receive env now m message b).1 := by
  rw [dispatchAt_of_hit (isHit_branch m b), Branch.of_path]

/-- With a slash before it the path of a branch is taken for its receiver, which does not know it. -/
theorem dispatchAt_slash (h : isHit p (PREFIX m) = true) (hp : p.head? ≠ some 47) :
    dispatchAt env order now message (47 :: p) s = s.takePlayer m := by
  rw [dispatchAt_of_hit (by rw [isHit_slash hp]; exact h)]
  cases hof : Branch.of m (47 :: p) with
  | none => rfl
  | some b =>
    have hhead := Branch.path_head m b
    rw [← Branch.path_of hof] at hhead
    cases hhead

theorem SameEffect.rows {t : RemoteState} (h : SameEffect s t) : s.rows m = t.rows m := by
  cases m with
  | video => rw [RemoteState.rows, RemoteState.rows, h.video]
  | image => rw [RemoteState.rows, RemoteState.rows, h.image]

section Branches
variable {startInterval endInterval : JString} {fileNames : List JString}

theorem callPlayer_of_not_in (h : isTimeInInterval (getCurrentTime now) startInterval endInterval = false) :
    s.callPlayer env now m (.updateWhenIntervalAddOrEdit startInterval endInterval) = s := by
  cases m with
  | video =>
    simp only [RemoteState.callPlayer, AdVideoCtrl.update, AdVideoCtrl.updateWhenIntervalAddOrEdit, h,
      Bool.false_eq_true, if_false, Option.map_id']
  | image =>
    simp only [RemoteState.callPlayer, AdImageCtrl.update, AdImageCtrl.updateWhenIntervalAddOrEdit, h,
      Bool.false_eq_true, if_false, Option.map_id']

/-- A call that sets the list gives a list to a player without one. -/
theorem rows_callPlayer {u : UpdateMedia} {video : AdVideoCtrl} {image : AdImageCtrl}
    (hset : u.SetsList (getCurrentTime now)) (hvideo : s.video = some video) (himage : s.image = some image) :
    (s.callPlayer env now m u).rows m = some (u.taken env.distinct s.db m (getCurrentTime now)) := by
  have hrows : ((⟨video,image⟩ : Players).update env.distinct s.db (getCurrentTime now) u m).rows m =
      some (u.taken env.distinct s.db m (getCurrentTime now)) := UpdateMedia.update_rows hset
  cases m with
  | video =>
    rw [RemoteState.callPlayer, hvideo]
    exact hrows
  | image =>
    rw [RemoteState.callPlayer, himage]
    exact hrows

/-- The rows are inserted and some alarms may be set; the player is called when both times can be
read. -/
theorem addInterval_cases (env : Platform) (now : ℕ) (m : Media) (s : RemoteState)
    (startInterval endInterval : JString) (fileNames : List JString) : ∃ alarms, ∃ s' : RemoteState,
    s' = { s with db := s.db.insertInterval env.storage m startInterval endInterval fileNames, alarms } ∧
      (Numeric startInterval ∧ Numeric endInterval ∧
          (s.addInterval env now m startInterval endInterval fileNames).1 =
            s'.callPlayer env now m (.updateWhenIntervalAddOrEdit startInterval endInterval) ∨
        ¬ (Numeric startInterval ∧ Numeric endInterval) ∧
          (s.addInterval env now m startInterval endInterval fileNames).1 = s') := by
  cases hstart : s.alarms.setChangeTimeBroadcast now startInterval m true with
  | error e =>
    refine ⟨s.alarms,_,rfl,Or.inr ⟨?_,by simp only [RemoteState.addInterval, hstart]⟩⟩
    rintro ⟨hnumeric,_⟩
    obtain ⟨_,h⟩ := setChangeTimeBroadcast_ok.mpr hnumeric
    cases hstart.symm.trans h
  | ok alarms =>
    have hnumeric : Numeric startInterval := setChangeTimeBroadcast_ok.mp ⟨alarms,hstart⟩
    cases hend : alarms.setChangeTimeBroadcast now endInterval m false with
    | error e =>
      refine ⟨alarms,_,rfl,Or.inr ⟨?_,by simp only [RemoteState.addInterval, hstart, hend]⟩⟩
      rintro ⟨_,hnumeric'⟩
      obtain ⟨_,h⟩ := setChangeTimeBroadcast_ok.mpr hnumeric'
      cases hend.symm.trans h
    | ok alarms' =>
      have hnumeric' : Numeric endInterval := setChangeTimeBroadcast_ok.mp ⟨alarms',hend⟩
      exact ⟨alarms',_,rfl,Or.inl ⟨hnumeric,hnumeric',by simp only [RemoteState.addInterval, hstart, hend]⟩⟩

theorem callPlayer_db (u : UpdateMedia) : (s.callPlayer env now m u).db = s.db := by
  cases m with
  | video => rfl
  | image => rfl

theorem apply_db (msg : Message) : (s.apply env now m msg).db = s.db.receive env.storage m msg := by
  rw [RemoteState.apply]
  cases msg.call with
  | none => rfl
  | some u => exact callPlayer_db u

theorem addInterval_db : (s.addInterval env now m startInterval endInterval fileNames).1.db =
    s.db.insertInterval env.storage m startInterval endInterval fileNames := by
  obtain ⟨alarms,_,rfl,⟨_,_,h⟩ | ⟨_,h⟩⟩ := addInterval_cases env now m s startInterval endInterval fileNames
  · rw [h, callPlayer_db]
  · rw [h]

theorem addInterval_nil (h : Numeric startInterval → Numeric endInterval →
    isTimeInInterval (getCurrentTime now) startInterval endInterval = false) :
    SameEffect s (s.addInterval env now m startInterval endInterval []).1 := by
  obtain ⟨alarms,_,rfl,⟨hstart,hend,heq⟩ | ⟨_,heq⟩⟩ :=
    addInterval_cases env now m s startInterval endInterval []
  · rw [heq, callPlayer_of_not_in (h hstart hend)]
    exact ⟨rfl,rfl,rfl,rfl⟩
  · rw [heq]
    exact ⟨rfl,rfl,rfl,rfl⟩

theorem receive_idle (h : ¬ Acts env message b) : SameEffect s (s.receive env now m message b).1 := by
  cases b with
  | download =>
    rw [Acts, Option.not_isSome_iff_eq_none] at h
    simp only [RemoteState.receive, h]
    exact .refl s
  | delete =>
    rw [Acts, Option.not_isSome_iff_eq_none] at h
    simp only [RemoteState.receive, h]
    exact .refl s
  | intervalAdd =>
    rw [RemoteState.receive]
    split
    · rename_i startInterval endInterval mJSONArray hstart hend hparam
      split_ifs with haccepted
      · have hnil : mJSONArray = [] := by
          by_contra hne
          exact h ⟨_,_,_,hstart,hend,hparam,haccepted,Or.inl hne⟩
        subst hnil
        apply addInterval_nil
        intro hn hn'
        by_contra hin
        rw [Bool.not_eq_false] at hin
        exact h ⟨_,_,_,hstart,hend,hparam,haccepted,Or.inr ⟨hn,hn',now,hin⟩⟩
      · exact .refl s
    · exact .refl s
  | intervalDelete =>
    rw [RemoteState.receive]
    split
    · rename_i jsonObject hparam
      split
      · rename_i startInterval endInterval hstart hend
        have haccepted : ¬ accepted startInterval endInterval = true := fun ha =>
          h ⟨_,_,_,hparam,hstart,hend,ha⟩
        simp only [RemoteState.apply, FileListMgr.receive, Message.call, if_neg haccepted]
        exact .refl s
      · exact .refl s
    · exact .refl s
  | intervalClear =>
    rw [RemoteState.receive]
    split
    · rename_i param hparam
      cases param with
      | true => exact absurd hparam h
      | false => exact .refl s
    · exact .refl s

/-- Players that have no list yet. -/
def unstarted (receiver : Media → MessageTargetReceiver) (db : FileListMgr) : RemoteState :=
  ⟨receiver,db,.start,some ⟨none,false,0⟩,some ⟨none⟩⟩

def oneRow (startInterval endInterval : JString) : FileListMgr :=
  ⟨fun _ => [],fun _ => [⟨startInterval,endInterval,[],[]⟩],∅⟩

theorem unstarted_rows {receiver : Media → MessageTargetReceiver} {db : FileListMgr} :
    ((unstarted receiver db).takePlayer m).rows m = none := by
  cases m with
  | video => rfl
  | image => rfl

/-- Where a message acts, there is a state in which it does. -/
theorem receive_acts (m : Media) (h : Acts env message b) :
    ∃ now, ∃ s : RemoteState,
      ¬ SameEffect (s.takePlayer m) ((s.takePlayer m).receive env now m message b).1 := by
  cases b with
  | download =>
    obtain ⟨mJSONArray,hparam⟩ := Option.isSome_iff_exists.mp h
    refine ⟨0,unstarted (fun _ => ⟨mJSONArray.length + 1,0,false,[]⟩) .created,fun hsame => ?_⟩
    have hreceiver := congrArg MessageTargetReceiver.mTotalTaskNum (congrFun hsame.receiver m)
    simp [RemoteState.receive, hparam, RemoteState.startDownloads, RemoteState.takePlayer,
      RemoteState.setReceiver, unstarted] at hreceiver
  | delete =>
    obtain ⟨mJSONArray,hparam⟩ := Option.isSome_iff_exists.mp h
    refine ⟨0,unstarted (fun _ => ⟨0,0,false,[]⟩) .created,fun hsame => ?_⟩
    have hrows := hsame.rows (m := m)
    rw [unstarted_rows] at hrows
    simp only [RemoteState.receive, hparam, RemoteState.apply, Message.call] at hrows
    rw [rows_callPlayer (u := .updateWhenFileDelete) trivial rfl rfl] at hrows
    cases hrows
  | intervalAdd =>
    obtain ⟨startInterval,endInterval,mJSONArray,hstart,hend,hparam,haccepted,hacts⟩ := h
    rcases hacts with hne | ⟨hn,hn',now,hin⟩
    · refine ⟨0,unstarted (fun _ => ⟨0,0,false,[]⟩) .created,fun hsame => ?_⟩
      have hdb := congrFun (congrArg FileListMgr.timeTable hsame.db) m
      simp only [RemoteState.receive, hstart, hend, hparam, if_pos haccepted] at hdb
      rw [addInterval_db, (FileListMgr.insertInterval_tables _ _ _ _ _ _).2, Function.update_self] at hdb
      exact hne (by simpa [unstarted, RemoteState.takePlayer, RemoteState.setReceiver] using hdb)
    · refine ⟨now,unstarted (fun _ => ⟨0,0,false,[]⟩) .created,fun hsame => ?_⟩
      have hrows := hsame.rows (m := m)
      rw [unstarted_rows] at hrows
      simp only [RemoteState.receive, hstart, hend, hparam, if_pos haccepted] at hrows
      obtain ⟨alarms,_,rfl,⟨_,_,heq⟩ | ⟨hnot,_⟩⟩ := addInterval_cases env now m
        ((unstarted (fun _ => ⟨0,0,false,[]⟩) .created).takePlayer m) startInterval endInterval
        (mJSONArray.map (toJString env.valueOf))
      · rw [heq, rows_callPlayer (u := .updateWhenIntervalAddOrEdit _ _) hin rfl rfl] at hrows
        cases hrows
      · exact hnot ⟨hn,hn'⟩
  | intervalDelete =>
    obtain ⟨jsonObject,startInterval,endInterval,hparam,hstart,hend,haccepted⟩ := h
    refine ⟨0,unstarted (fun _ => ⟨0,0,false,[]⟩) (oneRow startInterval endInterval),fun hsame => ?_⟩
    have hdb := congrFun (congrArg FileListMgr.timeTable hsame.db) m
    simp only [RemoteState.receive, hstart, hend, hparam] at hdb
    rw [apply_db, FileListMgr.receive, if_pos haccepted] at hdb
    simp [FileListMgr.deleteTime, oneRow, TimeRow.interval, unstarted, RemoteState.takePlayer,
      RemoteState.setReceiver] at hdb
  | intervalClear =>
    refine ⟨0,unstarted (fun _ => ⟨0,0,false,[]⟩) (oneRow [] []),fun hsame => ?_⟩
    have hdb := congrFun (congrArg FileListMgr.timeTable hsame.db) m
    simp only [RemoteState.receive, show message.getBoolean KEY_PARAM = some true from h] at hdb
    rw [apply_db, FileListMgr.receive, if_pos rfl] at hdb
    simp [FileListMgr.clearTimeInterval, oneRow, unstarted, RemoteState.takePlayer,
      RemoteState.setReceiver] at hdb

end Branches

theorem not_bothSpellings (m : Media) (h : Acts env message b) :
    ¬ BothSpellings env order message (b.path m) := by
  intro hboth
  obtain ⟨now,s,hs⟩ := receive_acts m h
  have hsame := hboth now s
  rw [dispatchAt_slash (isHit_branch m b) (by rw [Branch.path_head]; decide), dispatchAt_branch] at hsame
  exact hs hsame

theorem bothSpellings_of_idle (hp : p.head? ≠ some 47) (h : ∀ m b, p = b.path m → ¬ Acts env message b) :
    BothSpellings env order message p := by
  intro now s
  by_cases hhit : ∃ m, isHit p (PREFIX m) = true
  · obtain ⟨m,hm⟩ := hhit
    rw [dispatchAt_slash hm hp, dispatchAt_of_hit hm]
    cases hof : Branch.of m p with
    | none => exact .refl _
    | some b => exact receive_idle (h m b (Branch.path_of hof))
  · rw [not_exists] at hhit
    rw [dispatchAt_of_not_hit hhit, dispatchAt_of_not_hit fun m => by rw [isHit_slash hp]; exact hhit m]
    exact .refl s

/-- A path with another first segment may be taken for a receiver, which then only looks up its
player. -/
theorem dispatchAt_foreign (hpath : ∀ m, firstSegment path ≠ PREFIX m) (hit : isHit path (PREFIX m) = true) :
    dispatchAt env order now message path s = s.takePlayer m := by
  rw [dispatchAt_of_hit hit]
  cases hof : Branch.of m path with
  | none => rfl
  | some b => exact absurd (Branch.path_of hof ▸ firstSegment_branch m b) (hpath m)

theorem takePlayer_ne (m : Media) : ∃ s : RemoteState, s.takePlayer m ≠ s := by
  refine ⟨unstarted (fun _ => ⟨0,0,false,[]⟩) .created,fun h => ?_⟩
  have hholds := congrArg MessageTargetReceiver.holdsPlayer (congrFun (congrArg RemoteState.receiver h) m)
  cases m with
  | video => simp [RemoteState.takePlayer, RemoteState.setReceiver, RemoteState.hasPlayer, unstarted] at hholds
  | image => simp [RemoteState.takePlayer, RemoteState.setReceiver, RemoteState.hasPlayer, unstarted] at hholds

end Effects

/-- A message has the same effect under both spellings of a path just when the path is none of a
branch that acts on it. Under a path with another first segment it changes nothing just when the
path does not even begin with a prefix. -/
theorem dispatch_agrees_iff (env : Platform) (order : IterOrder JString) (message : JSONObject) :
    (∀ p : JString, p.head? ≠ some 47 →
      (BothSpellings env order message p ↔ ∀ m b, p = Branch.path m b → ¬ Acts env message b)) ∧
      ∀ path : JString, (∀ m, firstSegment path ≠ PREFIX m) →
        (ChangesNothing env order message path ↔ ∀ m, ¬ isHit path (PREFIX m) = true) := by
  constructor
  · intro p hp
    constructor
    · rintro hboth m b rfl hacts
      exact not_bothSpellings m hacts hboth
    · exact bothSpellings_of_idle hp
  · intro path hpath
    constructor
    · intro hnothing m hit
      obtain ⟨s,hs⟩ := takePlayer_ne m
      exact hs ((dispatchAt_foreign hpath hit).symm.trans (hnothing 0 s))
    · intro hnot now s
      exact dispatchAt_of_not_hit hnot

def device : Platform := ⟨fun _ => [],.firsts,Occasion.sdcard⟩

/-- A message that clears the intervals. -/
def clearMessage : JSONObject := [(KEY_PARAM,.bool true)]

theorem acts_clear : Acts device clearMessage .intervalClear :=
  show clearMessage.getBoolean KEY_PARAM = some true by decide

theorem dispatch_agrees_iff_clear :
    ¬ BothSpellings device .some clearMessage (utf16 "AdVideo/IntervalClear") ∧
      ¬ ChangesNothing device .some clearMessage (utf16 "AdVideos/IntervalClear") ∧
      ChangesNothing device .some clearMessage (utf16 "Settings/Volume") := by
  have h := dispatch_agrees_iff device .some clearMessage
  refine ⟨fun hboth => ?_,fun hnothing => ?_,?_⟩
  · exact ((h.1 _ (by decide)).mp hboth) .video .intervalClear (by decide) acts_clear
  · exact (h.2 _ (fun m => by cases m <;> decide)).mp hnothing .video (by decide)
  · exact (h.2 _ (fun m => by cases m <;> decide)).mpr fun m => by cases m <;> decide

/-- The slash before it keeps a message from clearing the intervals. -/
theorem not_dispatch_agrees :
    ¬ ∀ (env : Platform) (order : IterOrder JString) (message : JSONObject),
      (∀ p : JString, p.head? ≠ some 47 → BothSpellings env order message p) ∧
        ∀ path : JString, (∀ m, firstSegment path ≠ PREFIX m) → ChangesNothing env order message path := by
  intro h
  have hboth := (h device .some clearMessage).1 (Branch.path .video .intervalClear) (by decide)
  exact not_bothSpellings .video acts_clear hboth

end MessageDispatcher
end AdSystem.Schedule
