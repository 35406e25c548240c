import AdSystem.Library.Transition
import AdSystem.Schedule.AdVideoCtrl

/-! # The position of the video cursor

The player reads the row its cursor stands on, and a query result stands on none.
Every call of `UpdateMedia` positions the cursor it takes over, but one: the start
alarm keeps the files of an interval as the query returned them.
-/
namespace AdSystem.Schedule
open Query Transition
open Policy (Media utf16)

/-- The player, until an exception ends its process. -/
structure VideoPlayer where
  ctrl : AdVideoCtrl
  crashed : Bool

inductive VideoAction where
  | playNext
  /-- A call of `UpdateMedia`, with the tables and the time it finds. -/
  | update (db : FileListMgr) (now : JString) (u : UpdateMedia)

namespace VideoPlayer
variable (q : Distinct)

def new (db : FileListMgr) (now : JString) : VideoPlayer := ⟨.new q db now,false⟩

def playNext (s : VideoPlayer) : VideoPlayer :=
  match s.ctrl.playVideo with
  | some ctrl => ⟨ctrl,false⟩
  | none => ⟨s.ctrl,true⟩

def step (s : VideoPlayer) : VideoAction → Option VideoPlayer
  | .playNext => if s.crashed then none else some s.playNext
  | .update db now u => if s.crashed then none else some ⟨s.ctrl.update q db now u,false⟩

/-- The cursor can be read, and so it always could. -/
def Reads (s : VideoPlayer) : Prop :=
  s.crashed = false ∧ ∀ cursor, s.ctrl.mVideoListCursor = some cursor → cursor.Readable

/-- No start alarm finds the time to be in an interval. -/
def NotInInterval (_ : VideoPlayer) : VideoAction → Prop
  | .update db now (.updateWhenAlarmUp true) => db.isCurrentTimeInVideoIntervel q now = none
  | _ => True

end VideoPlayer

namespace AdVideoCtrl
variable {q : Distinct} {db : FileListMgr} {now : JString} {c : AdVideoCtrl} {cursor : Cursor JString}

theorem playVideo_reads (h : ∀ cursor, c.mVideoListCursor = some cursor → cursor.Readable) :
    ∃ c', c.playVideo = some c' ∧ ∀ cursor, c'.mVideoListCursor = some cursor → cursor.Readable := by
  unfold playVideo getVideoByOrder
  cases hc : c.mVideoListCursor with
  | none =>
    refine ⟨_,rfl,fun cursor hcur => ?_⟩
    exact h cursor hcur
  | some cursor =>
    by_cases hcount : cursor.getCount = 0
    · simp only [hcount, if_true]
      refine ⟨_,rfl,fun cursor hcur => ?_⟩
      exact h cursor hcur
    · have hrows : cursor.rows ≠ [] := fun hnil => hcount (List.length_eq_zero_iff.mpr hnil)
      obtain ⟨path,hpath⟩ :=
        Option.isSome_iff_exists.mp (Cursor.get_isSome.mpr ((h cursor hc).resolve_left hrows))
      simp only [hcount, if_false, hpath]
      refine ⟨_,rfl,fun cursor' hcur => ?_⟩
      -- the first row follows the last
      cases hcur
      split_ifs with hn
      · exact Or.inr (Cursor.moveToPosition_onRow hn)
      · exact Cursor.moveToFirst_readable _

/-- Only the start alarm within an interval takes over a cursor that stands on no row. -/
theorem update_reads (h : ∀ cursor, c.mVideoListCursor = some cursor → cursor.Readable) (u : UpdateMedia) :
    (∀ cursor, (c.update q db now u).mVideoListCursor = some cursor → cursor.Readable) ↔
      (u = .updateWhenAlarmUp true → db.isCurrentTimeInVideoIntervel q now = none) := by
  have hchange : ∀ new cursor, (c.cursorChange new).mVideoListCursor = some cursor → cursor.Readable := by
    intro new cursor hcur
    cases hcur
    exact new.moveToFirst_readable
  cases u with
  | updateWhenAlarmUp isTimeStart =>
    cases isTimeStart with
    | false =>
      refine iff_of_true (fun cursor hcur => ?_) nofun
      cases hcur
      exact FileListMgr.getAllFile_readable
    | true =>
      simp only [update, updateWhenAlarmUp, if_true, Option.some.injEq, forall_eq', forall_const]
      exact FileListMgr.getListAt_readable
  | updateWhenIntervalAddOrEdit startTime endTime =>
    refine iff_of_true ?_ nofun
    simp only [update, updateWhenIntervalAddOrEdit]
    split_ifs
    · exact hchange _
    · exact h
  | updateWhenIntervalDelete startTime endTime =>
    refine iff_of_true ?_ nofun
    simp only [update, updateWhenIntervalDelete]
    split_ifs
    · exact hchange _
    · exact h
  | updateWhenStrategyChanged =>
    refine iff_of_true ?_ nofun
    simp only [update, updateWhenStrategyChanged]
    split_ifs
    · exact hchange _
    · exact h
  | updateWhenFileDelete => exact iff_of_true (hchange _) nofun

end AdVideoCtrl

namespace VideoPlayer
variable {q : Distinct} {s t : VideoPlayer} {a : VideoAction}

theorem new_reads (db : FileListMgr) (now : JString) : (new q db now).Reads := by
  refine ⟨rfl,fun cursor hcur => ?_⟩
  cases hcur
  exact Cursor.moveToFirst_readable _

theorem step_reads (hs : s.Reads) (h : step q s a = some t) : t.Reads ↔ s.NotInInterval q a := by
  cases a with
  | playNext =>
    obtain ⟨c,hc,hread⟩ := AdVideoCtrl.playVideo_reads hs.2
    simp only [step, hs.1, playNext, hc, Bool.false_eq_true, if_false, Option.some.injEq] at h
    subst h
    exact iff_of_true ⟨rfl,hread⟩ trivial
  | update db now u =>
    simp only [step, hs.1, Bool.false_eq_true, if_false, Option.some.injEq] at h
    subst h
    have hu : (∀ cursor, (s.ctrl.update q db now u).mVideoListCursor = some cursor → cursor.Readable) ↔
        (u = .updateWhenAlarmUp true → db.isCurrentTimeInVideoIntervel q now = none) :=
      AdVideoCtrl.update_reads hs.2 u
    simp only [Reads, true_and, hu]
    cases u with
    | updateWhenAlarmUp isTimeStart => cases isTimeStart <;> simp [NotInInterval]
    | updateWhenIntervalAddOrEdit startTime endTime => simp [NotInInterval]
    | updateWhenIntervalDelete startTime endTime => simp [NotInInterval]
    | updateWhenStrategyChanged => simp [NotInInterval]
    | updateWhenFileDelete => simp [NotInInterval]

/-- The cursor can be read in every state of a run if and only if no start alarm of the
run comes at a time within a stored interval. -/
theorem always_reads_iff {db : FileListMgr} {now : JString} {as : List VideoAction}
    (he : exec (step q) (new q db now) as = some t) :
    Always (step q) Reads (new q db now) as ↔ Along (step q) (NotInInterval q) (new q db now) as :=
  always_iff_along (I := fun _ => True) (fun _ _ _ _ _ => trivial) (fun _ _ _ _ hs h => step_reads hs h)
    trivial (new_reads db now) he

def morning : FileListMgr :=
  FileListMgr.created.insertTime4Video (utf16 "09:00:00") (utf16 "10:00:00") (utf16 "a.mp4")
    (utf16 "/sdcard/Camera//a.mp4")

theorem always_reads_before_interval :
    Always (step .firsts) Reads (new .firsts morning (utf16 "08:00:00"))
      [.playNext,.update morning (utf16 "08:30:00") (.updateWhenAlarmUp true),.playNext] :=
  (always_reads_iff rfl).mpr (by
    refine ⟨trivial,fun t ht => ?_⟩
    cases ht
    have hearly : morning.isCurrentTimeInVideoIntervel .firsts (utf16 "08:30:00") = none := by decide
    refine ⟨hearly,fun t ht => ?_⟩
    cases ht
    exact ⟨trivial,fun _ _ => trivial⟩)

/-- The start alarm of the interval leaves a cursor on no row, and the next video is not played. -/
theorem not_always_reads_at_start :
    ¬ ∀ (q : Distinct) (db : FileListMgr) (now : JString) (as : List VideoAction) (t : VideoPlayer),
      exec (step q) (new q db now) as = some t → Always (step q) Reads (new q db now) as := by
  intro h
  let as : List VideoAction :=
    [.playNext,.update morning (utf16 "09:00:00") (.updateWhenAlarmUp true),.playNext]
  have hrun : (exec (step .firsts) (new .firsts morning (utf16 "08:00:00")) as).map crashed = some true := by
    decide
  obtain ⟨t,ht,hcrashed⟩ := Option.map_eq_some_iff.mp hrun
  have hreads := h .firsts morning (utf16 "08:00:00") as t ht as t List.prefix_rfl ht
  exact absurd (hreads.1.symm.trans hcrashed) (by decide)

end VideoPlayer
end AdSystem.Schedule
