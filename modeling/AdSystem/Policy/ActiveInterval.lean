import AdSystem.Policy.PolicyDocument
import AdSystem.Policy.SavedPolicy

/-! # The interval that is played

The intervals of a policy are walked in the order of a hash map, and the first one around
the time decides. Both bounds belong to an interval, so that at the end of one and the
beginning of the next the order decides what is played.
-/
namespace AdSystem.Policy
open Fallible Iteration

def OneInterval.Plays (one : OneInterval) (mMediaPath : String) (info : AdMediaInfo) (m : Media) (path : String) :
    Prop :=
  ∃ id ∈ one.fileContainer, ∃ entry, (info.container m).lookup id = some entry ∧
    mediaFile mMediaPath entry.filename = path

/-- Intervals with both bounds and entries for all their ids, of any two of which one ends
before the other begins or when it does. -/
structure AdMediaInfo.Timetable (info : AdMediaInfo) (m : Media) : Prop where
  bounds : ∀ id one, (info.intervalContainer m).lookup id = some one → one.begin ≠ none ∧ one.end ≠ none
  resolves : ∀ id one, (info.intervalContainer m).lookup id = some one → one.Resolves info m
  apart : ∀ id one id' one', id ≠ id' → (info.intervalContainer m).lookup id = some one →
    (info.intervalContainer m).lookup id' = some one' →
    ∀ start stop start' stop', one.begin = some start → one.end = some stop → one'.begin = some start' →
      one'.end = some stop' → compareTo stop start' ≤ 0 ∨ compareTo stop' start ≤ 0

/-- Whatever the order of iteration, the same paths are played. -/
def Unambiguous (mMediaPath : String) (info : AdMediaInfo) (m : Media) (now : String) : Prop :=
  ∀ order order' : IterOrder NString, ∃ list list',
    getListWithIntervalCheck mMediaPath order info m now = .ok list ∧
      getListWithIntervalCheck mMediaPath order' info m now = .ok list' ∧ ∀ path, path ∈ list ↔ path ∈ list'

/-- An interval that ends at the time and one that begins then play the same paths. -/
def SeamlessAt (mMediaPath : String) (info : AdMediaInfo) (m : Media) (now : String) : Prop :=
  ∀ id one id' one' stop start, (info.intervalContainer m).lookup id = some one →
    (info.intervalContainer m).lookup id' = some one' → one.Around now → one'.Around now →
    one.end = some stop → one'.begin = some start → compareTo now stop = 0 → compareTo now start = 0 →
    ∀ path, one.Plays mMediaPath info m path ↔ one'.Plays mMediaPath info m path

section
variable {mMediaPath now : String} {order : IterOrder NString} {info : AdMediaInfo} {m : Media}
  {one one' : OneInterval} {id id' : NString} {list : List String}

theorem mem_intervalFiles (h : intervalFiles mMediaPath order info m one = .ok list) (path : String) :
    path ∈ list ↔ one.Plays mMediaPath info m path := by
  rw [mem_of_mapM_ok h, OneInterval.Plays]
  simp only [order.mem]
  refine exists_congr fun id => and_congr_right fun _ => ?_
  simp only [bind_eq_ok, required_eq_ok, pure, Except.pure, Except.ok.injEq]

/-- The list of the walk: the files of an interval around the time, or all files. -/
theorem intervalLoop_cases {ids : List NString} (h : intervalLoop mMediaPath order info m now ids = .ok list) :
    (∃ id one, (info.intervalContainer m).lookup id = some one ∧ one.Around now ∧
        intervalFiles mMediaPath order info m one = .ok list) ∨
      (∀ id ∈ ids, ∀ one, (info.intervalContainer m).lookup id = some one → ¬ one.Around now) ∧
        list = getList mMediaPath order info m := by
  induction ids with
  | nil =>
    cases h
    exact Or.inr ⟨List.forall_mem_nil _,rfl⟩
  | cons id ids ih =>
    simp only [intervalLoop, bind_eq_ok, required_eq_ok] at h
    obtain ⟨one,hone,b,hb,h⟩ := h
    cases b with
    | true =>
      rw [if_pos rfl] at h
      exact Or.inl ⟨id,one,hone,OneInterval.around_iff.mpr hb,h⟩
    | false =>
      rw [if_neg Bool.false_ne_true] at h
      rcases ih h with hsome | ⟨hnone,hall⟩
      · exact Or.inl hsome
      · refine Or.inr ⟨List.forall_mem_cons.mpr ⟨fun o ho ha => ?_,hnone⟩,hall⟩
        cases hone.symm.trans ho
        cases (OneInterval.around_iff.mp ha).symm.trans hb

theorem AdMediaInfo.Timetable.returns (h : info.Timetable m) (mMediaPath now : String) (order : IterOrder NString) :
    ∃ list, getListWithIntervalCheck mMediaPath order info m now = .ok list := by
  refine (intervalLoop_returns fun id hid => Finmap.mem_keys.mp ((order.mem _ _).mp hid)).mpr ?_
  intro before id after one _ hone _
  obtain ⟨start,hstart⟩ := Option.ne_none_iff_exists'.mp (h.bounds id one hone).1
  exact ⟨⟨start,hstart,fun _ => (h.bounds id one hone).2⟩,fun _ => h.resolves id one hone⟩

/-- Two intervals around one time meet in it. -/
theorem AdMediaInfo.Timetable.meet (h : info.Timetable m) (hne : id ≠ id')
    (hone : (info.intervalContainer m).lookup id = some one)
    (hone' : (info.intervalContainer m).lookup id' = some one') (ha : one.Around now) (ha' : one'.Around now) :
    (∃ stop start, one.end = some stop ∧ one'.begin = some start ∧ compareTo now stop = 0 ∧
        compareTo now start = 0) ∨
      ∃ stop start, one'.end = some stop ∧ one.begin = some start ∧ compareTo now stop = 0 ∧
        compareTo now start = 0 := by
  obtain ⟨start,stop,hstart,hstop,hs,he⟩ := ha
  obtain ⟨start',stop',hstart',hstop',hs',he'⟩ := ha'
  simp only [compareTo_eq_zero]
  rw [compareTo_nonneg] at hs hs'
  rw [compareTo_nonpos] at he he'
  rcases h.apart id one id' one' hne hone hone' start stop start' stop' hstart hstop hstart' hstop' with hb | hb
  · rw [compareTo_nonpos] at hb
    exact Or.inl ⟨stop,start',hstop,hstart',le_antisymm he (hb.trans hs'),le_antisymm (he.trans hb) hs'⟩
  · rw [compareTo_nonpos] at hb
    exact Or.inr ⟨stop',start,hstop',hstart,le_antisymm he' (hb.trans hs),le_antisymm (he'.trans hb) hs⟩

/-- Where the intervals meet without a seam, those around the time play the same paths. -/
theorem plays_iff_of_seamless (h : info.Timetable m) (hseam : SeamlessAt mMediaPath info m now)
    (hone : (info.intervalContainer m).lookup id = some one)
    (hone' : (info.intervalContainer m).lookup id' = some one') (ha : one.Around now) (ha' : one'.Around now)
    (path : String) : one.Plays mMediaPath info m path ↔ one'.Plays mMediaPath info m path := by
  by_cases hid : id = id'
  · subst hid
    cases hone.symm.trans hone'
    exact Iff.rfl
  · rcases h.meet hid hone hone' ha ha' with ⟨stop,start,hstop,hstart,hs,he⟩ | ⟨stop,start,hstop,hstart,hs,he⟩
    · exact hseam id one id' one' stop start hone hone' ha ha' hstop hstart hs he path
    · exact (hseam id' one' id one stop start hone' hone ha' ha hstop hstart hs he path).symm

/-- An order that walks the interval first plays it. -/
theorem headed_plays (hone : (info.intervalContainer m).lookup id = some one)
    (ha : one.Around now)
    (hlist : getListWithIntervalCheck mMediaPath (.headed id) info m now = .ok list) (path : String) :
    path ∈ list ↔ one.Plays mMediaPath info m path := by
  have hkey : id ∈ (info.intervalContainer m).keys := by
    rw [Finmap.mem_keys, Finmap.mem_iff]
    exact ⟨one,hone⟩
  rw [getListWithIntervalCheck, IterOrder.headed_list hkey, intervalLoop, hone] at hlist
  simp only [required, ok_bind, OneInterval.around_iff.mp ha, if_true] at hlist
  exact mem_intervalFiles hlist path

/-- The order of the map does not matter at a time exactly when no two intervals with different
files meet there. -/
theorem unambiguous_iff (mMediaPath now : String) (h : info.Timetable m) :
    Unambiguous mMediaPath info m now ↔ SeamlessAt mMediaPath info m now := by
  constructor
  · intro hsame id one id' one' stop start hone hone' ha ha' _ _ _ _ path
    obtain ⟨list,list',hl,hl',hpaths⟩ := hsame (.headed id) (.headed id')
    rw [← headed_plays hone ha hl, hpaths, headed_plays hone' ha' hl']
  · intro hseam order order'
    obtain ⟨list,hl⟩ := h.returns mMediaPath now order
    obtain ⟨list',hl'⟩ := h.returns mMediaPath now order'
    refine ⟨list,list',hl,hl',fun path => ?_⟩
    have hkey : ∀ (o : IterOrder NString) id one, (info.intervalContainer m).lookup id = some one →
        id ∈ o.list (info.intervalContainer m).keys := by
      intro o id one hone
      rw [o.mem, Finmap.mem_keys, Finmap.mem_iff]
      exact ⟨one,hone⟩
    rcases intervalLoop_cases hl with ⟨id,one,hone,ha,hf⟩ | ⟨hnone,rfl⟩
    · rcases intervalLoop_cases hl' with ⟨id',one',hone',ha',hf'⟩ | ⟨hnone',_⟩
      · rw [mem_intervalFiles hf, mem_intervalFiles hf']
        exact plays_iff_of_seamless h hseam hone hone' ha ha' path
      · exact absurd ha (hnone' id (hkey order' id one hone) one hone)
    · rcases intervalLoop_cases hl' with ⟨id',one',hone',ha',_⟩ | ⟨_,rfl⟩
      · exact absurd ha' (hnone id' (hkey order id' one' hone') one' hone')
      · rw [mem_getList, mem_getList]

end

/-- Two intervals of the morning, the second from nine o'clock on. -/
def eight : OneInterval := ⟨some "8",some "08:00:00",some "09:00:00",none,{some "1"}⟩
def nine : OneInterval := ⟨some "9",some "09:00:00",some "10:00:00",none,{some "2"}⟩

def morningInfo : AdMediaInfo :=
  { AdMediaInfo.ofEntries [.ofFile "1" "a.mp4",.ofFile "2" "b.mp4"] [] with
    videoIntervalContainer := putAll OneInterval.id [eight,nine] }

theorem morningInfo_interval {id : NString} {one : OneInterval} :
    (morningInfo.intervalContainer .video).lookup id = some one ↔ (one = eight ∨ one = nine) ∧ one.id = id := by
  rw [show morningInfo.intervalContainer .video = putAll OneInterval.id [eight,nine] from rfl,
    lookup_putAll (by decide), List.mem_cons, List.mem_singleton]

theorem morningInfo_entry {id : NString} {entry : AdInfo} :
    (morningInfo.container .video).lookup id = some entry ↔
      (entry = .ofFile "1" "a.mp4" ∨ entry = .ofFile "2" "b.mp4") ∧ entry.id = id := by
  rw [show morningInfo.container .video = putAll AdInfo.id [.ofFile "1" "a.mp4",.ofFile "2" "b.mp4"] from rfl,
    lookup_putAll (by decide), List.mem_cons, List.mem_singleton]

theorem morningInfo_timetable : morningInfo.Timetable .video where
  bounds id one hone := by
    rcases (morningInfo_interval.mp hone).1 with rfl | rfl
    · exact ⟨nofun,nofun⟩
    · exact ⟨nofun,nofun⟩
  resolves id one hone file hfile := by
    rw [Finmap.mem_iff]
    rcases (morningInfo_interval.mp hone).1 with rfl | rfl
    · cases Finset.mem_singleton.mp hfile
      exact ⟨_,morningInfo_entry.mpr ⟨Or.inl rfl,rfl⟩⟩
    · cases Finset.mem_singleton.mp hfile
      exact ⟨_,morningInfo_entry.mpr ⟨Or.inr rfl,rfl⟩⟩
  apart id one id' one' hne hone hone' start stop start' stop' hstart hstop hstart' hstop' := by
    obtain ⟨h,rfl⟩ := morningInfo_interval.mp hone
    obtain ⟨h',rfl⟩ := morningInfo_interval.mp hone'
    rcases h with rfl | rfl
    · rcases h' with rfl | rfl
      · exact absurd rfl hne
      · cases hstop
        cases hstart'
        exact Or.inl (by decide)
    · rcases h' with rfl | rfl
      · cases hstop'
        cases hstart
        exact Or.inr (by decide)
      · exact absurd rfl hne

theorem unambiguous_morning : Unambiguous "/ad/" morningInfo .video "08:30:00" := by
  refine (unambiguous_iff _ _ morningInfo_timetable).mpr ?_
  intro id one id' one' stop start hone _ _ _ hstop _ hnow _
  rcases (morningInfo_interval.mp hone).1 with rfl | rfl
  · cases hstop
    exact absurd hnow (by decide)
  · cases hstop
    exact absurd hnow (by decide)

/-- At nine o'clock the order of the map decides which of the two files is played. -/
theorem not_unambiguous_nine : morningInfo.Timetable .video ∧ ¬ Unambiguous "/ad/" morningInfo .video "09:00:00" := by
  refine ⟨morningInfo_timetable,fun h => ?_⟩
  obtain ⟨list,list',hl,hl',hpaths⟩ := h (.headed (some "8")) (.headed (some "9"))
  have height : (morningInfo.intervalContainer .video).lookup (some "8") = some eight :=
    morningInfo_interval.mpr ⟨Or.inl rfl,rfl⟩
  have hnine : (morningInfo.intervalContainer .video).lookup (some "9") = some nine :=
    morningInfo_interval.mpr ⟨Or.inr rfl,rfl⟩
  have hpath := hpaths "/ad/a.mp4"
  rw [headed_plays height ⟨_,_,rfl,rfl,by decide,by decide⟩ hl,
    headed_plays hnine ⟨_,_,rfl,rfl,by decide,by decide⟩ hl'] at hpath
  obtain ⟨file,hfile,entry,hentry,hp⟩ := hpath.mp
    ⟨some "1",Finset.mem_singleton_self _,.ofFile "1" "a.mp4",morningInfo_entry.mpr ⟨Or.inl rfl,rfl⟩,by decide⟩
  cases Finset.mem_singleton.mp hfile
  obtain ⟨rfl | rfl,hid⟩ := morningInfo_entry.mp hentry
  · exact absurd hid (by decide)
  · exact absurd hp (by decide)

end AdSystem.Policy
