import AdSystem.Schedule.DownloadReceivers

/-! # Messages delivered twice

Deleting again finds nothing to delete; inserting again adds the same rows again,
which only the distinct query for the videos of an interval does not show.
-/
namespace AdSystem.Schedule
open Query
open Policy (Media utf16)

/-- The same lists of all files, and of the files of every interval stored. -/
def SamePlaylists (q : Distinct) (db db' : FileListMgr) : Prop :=
  ∀ m, (db.getAllFile m).rows.Perm (db'.getAllFile m).rows ∧
    ∀ i, i ∈ db.intervals m ∨ i ∈ db'.intervals m →
      (db.getInInterval q m i.1 i.2).rows.Perm (db'.getInInterval q m i.1 i.2).rows

namespace Message

/-- The same message; its downloads may complete in another order. -/
def Redelivered : Message → Message → Prop
  | download urls, download urls' => urls.Perm urls'
  | msg, msg' => msg = msg'

/-- Receiving the message again changes no list. -/
def Idempotent (q : Distinct) (storage : Storage) (m : Media) (db : FileListMgr) (msg : Message) : Prop :=
  ∀ msg', msg.Redelivered msg' →
    SamePlaylists q (db.receive storage m msg) ((db.receive storage m msg).receive storage m msg')

/-- The message downloads nothing, and adds no images to an interval. -/
def InsertsNothing (m : Media) : Message → Prop
  | download urls => urls = []
  | intervalAdd startInterval endInterval fileNames =>
    m = .image → accepted startInterval endInterval = true → fileNames = []
  | _ => True

end Message

section
variable {q : Distinct} {storage : Storage} {m : Media} {db db' : FileListMgr} {urls fileNames : List JString}
  {s e : JString}

theorem samePlaylists_of_eq (hfile : db.fileTable = db'.fileTable) (htime : db.timeTable = db'.timeTable) :
    SamePlaylists q db db' := by
  intro n
  have hpaths : db.paths n = db'.paths n := by rw [FileListMgr.paths, FileListMgr.paths, hfile]
  have hin : ∀ s e, db.pathsIn n s e = db'.pathsIn n s e := by
    intro s e
    rw [FileListMgr.pathsIn, FileListMgr.pathsIn, htime]
  refine ⟨by rw [FileListMgr.getAllFile_rows, FileListMgr.getAllFile_rows, hpaths],fun i _ => ?_⟩
  apply List.Perm.of_eq
  cases n with
  | image => exact hin i.1 i.2
  | video => exact congrArg q.list (hin i.1 i.2)

namespace Message

theorem idempotent_download :
    (download urls).Idempotent q storage m db ↔ urls = [] := by
  constructor
  · intro h
    have hp := (h (download urls) (List.Perm.refl _) m).1.length_eq
    simp only [FileListMgr.getAllFile_rows, FileListMgr.paths, (FileListMgr.receive_download _ _ _ _).1,
      Function.update_self, List.length_map, List.length_append] at hp
    exact List.eq_nil_of_length_eq_zero (by omega)
  · rintro rfl msg' hmsg
    cases msg' with
    | download urls' =>
      cases List.nil_perm.mp hmsg
      exact samePlaylists_of_eq rfl rfl
    | delete fileNames => cases hmsg
    | intervalAdd s e fileNames => cases hmsg
    | intervalDelete s e => cases hmsg
    | intervalClear param => cases hmsg

theorem idempotent_delete : (delete fileNames).Idempotent q storage m db := by
  rintro _ rfl
  obtain ⟨hfile,htime⟩ := FileListMgr.receive_delete storage m db fileNames
  obtain ⟨hfile',htime'⟩ := FileListMgr.receive_delete storage m (db.receive storage m (.delete fileNames)) fileNames
  apply samePlaylists_of_eq
  · simp only [hfile', hfile, Function.update_self, Function.update_idem, List.filter_filter, Bool.and_self]
  · simp only [htime', htime, Function.update_self, Function.update_idem, List.filter_filter, Bool.and_self]

theorem idempotent_intervalDelete : (intervalDelete s e).Idempotent q storage m db := by
  rintro _ rfl
  simp only [FileListMgr.receive]
  split_ifs
  · refine samePlaylists_of_eq rfl ?_
    simp [FileListMgr.deleteTime]
  · exact samePlaylists_of_eq rfl rfl

theorem idempotent_intervalClear {param : Bool} : (intervalClear param).Idempotent q storage m db := by
  rintro _ rfl
  simp only [FileListMgr.receive]
  split_ifs
  · refine samePlaylists_of_eq rfl ?_
    simp [FileListMgr.clearTimeInterval]
  · exact samePlaylists_of_eq rfl rfl

theorem mem_pathsIn_twice {n : Media} {s' e' p : JString} :
    p ∈ (db.insertInterval storage m s e fileNames).pathsIn n s' e' ↔
      p ∈ ((db.insertInterval storage m s e fileNames).insertInterval storage m s e fileNames).pathsIn n s' e' := by
  simp only [FileListMgr.mem_pathsIn, (FileListMgr.insertInterval_tables _ _ _ _ _ _).2]
  by_cases hn : n = m
  · subst hn
    simp only [Function.update_self, List.mem_append]
    exact exists_congr fun r => and_congr_left fun _ => ⟨Or.inl,fun h => h.elim id Or.inr⟩
  · rw [Function.update_of_ne hn, Function.update_of_ne hn, Function.update_of_ne hn]

theorem idempotent_video_intervalAdd : (intervalAdd s e fileNames).Idempotent q storage .video db := by
  rintro _ rfl
  simp only [FileListMgr.receive]
  split_ifs
  · obtain ⟨hfile,htime⟩ := FileListMgr.insertInterval_tables storage .video
      (db.insertInterval storage .video s e fileNames) s e fileNames
    intro n
    constructor
    · rw [FileListMgr.getAllFile_rows, FileListMgr.getAllFile_rows, FileListMgr.paths, FileListMgr.paths, hfile]
    · intro i _
      cases n with
      | video => exact q.perm fun p => mem_pathsIn_twice
      | image =>
        refine List.Perm.of_eq (congrArg (List.map TimeRow.fullpath) ?_)
        rw [htime, Function.update_of_ne (by decide)]
  · exact samePlaylists_of_eq rfl rfl

/-- The query for the images of an interval lists every row added. -/
theorem length_pathsIn_insertInterval :
    ((db.insertInterval storage m s e fileNames).pathsIn m s e).length =
      (db.pathsIn m s e).length + fileNames.length := by
  have hall : (fileNames.map (FileListMgr.intervalRow storage m s e)).filter
      (fun r => r.interval = (s,e)) = fileNames.map (FileListMgr.intervalRow storage m s e) := by
    rw [List.filter_eq_self]
    intro r hr
    obtain ⟨_,_,rfl⟩ := List.mem_map.mp hr
    exact decide_eq_true rfl
  simp only [FileListMgr.pathsIn, (FileListMgr.insertInterval_tables _ _ _ _ _ _).2, Function.update_self,
    List.filter_append, hall, List.length_map, List.length_append]

theorem idempotent_image_intervalAdd : (intervalAdd s e fileNames).Idempotent q storage .image db ↔
    (accepted s e = true → fileNames = []) := by
  by_cases ha : accepted s e = true
  · constructor
    · intro h _
      by_contra hne
      have hrow := (h _ rfl .image).2 (s,e)
      simp only [FileListMgr.receive, ha, if_true] at hrow
      have hstored : (s,e) ∈ (db.insertInterval storage .image s e fileNames).intervals .image := by
        obtain ⟨fileName,hmem⟩ := List.exists_mem_of_ne_nil _ hne
        refine List.mem_map.mpr ⟨FileListMgr.intervalRow storage .image s e fileName,?_,rfl⟩
        rw [(FileListMgr.insertInterval_tables _ _ _ _ _ _).2, Function.update_self]
        exact List.mem_append_right _ (List.mem_map_of_mem hmem)
      generalize db.insertInterval storage .image s e fileNames = once at hrow hstored
      have hlen : (once.pathsIn .image s e).length =
          ((once.insertInterval storage .image s e fileNames).pathsIn .image s e).length :=
        (hrow (Or.inl hstored)).length_eq
      have hpos := List.length_pos_iff.mpr hne
      rw [length_pathsIn_insertInterval] at hlen
      omega
    · rintro h _ rfl
      rw [h ha]
      simp only [FileListMgr.receive, ha, if_true]
      exact samePlaylists_of_eq rfl rfl
  · refine iff_of_true ?_ fun h => absurd h ha
    rintro _ rfl
    simp only [FileListMgr.receive, ha]
    exact samePlaylists_of_eq rfl rfl

variable (q) (storage) (m) in
/-- In all tables that messages lead to, a message delivered again leaves the lists as they
are if and only if it inserts nothing that a query shows twice. -/
theorem idempotent_iff (messages : List (Media × Message)) (msg : Message) :
    msg.Idempotent q storage m (.reached storage messages) ↔ msg.InsertsNothing m := by
  cases msg with
  | download urls => exact idempotent_download
  | delete fileNames => exact iff_of_true idempotent_delete trivial
  | intervalAdd s e fileNames =>
    cases m with
    | video => exact iff_of_true idempotent_video_intervalAdd nofun
    | image =>
      rw [idempotent_image_intervalAdd]
      exact ⟨fun h _ => h,fun h => h rfl⟩
  | intervalDelete s e => exact iff_of_true idempotent_intervalDelete trivial
  | intervalClear param => exact iff_of_true idempotent_intervalClear trivial

/-- A video downloaded twice is listed twice. -/
theorem not_idempotent_download :
    ¬ ∀ (q : Distinct) (storage : Storage) (m : Media) (messages : List (Media × Message)) (msg : Message),
      msg.Idempotent q storage m (.reached storage messages) := by
  intro h
  let storage : Storage := ⟨fun _ => utf16 "/sdcard",fun _ url => utf16 "/sdcard/" ++ lastComponent url⟩
  let msg := download [utf16 "http://server/a.mp4"]
  have hp := (h .firsts storage .video [] msg msg (List.Perm.refl _) .video).1
  exact absurd hp.length_eq (by decide)

end Message
end
end AdSystem.Schedule
