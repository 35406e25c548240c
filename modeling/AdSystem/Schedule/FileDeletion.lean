import AdSystem.Schedule.DownloadReceivers

/-! # Deletion of a file

A file name stands in the rows of both tables of a kind, the path it is stored under
beside it. The messages write the two so that the name is what the path ends with, and
so the rows left after a deletion lead to no file of that name.
-/
namespace AdSystem.Schedule
open Query
open Policy (Media utf16)

section LastComponent
variable {dir fileName : JString}

theorem lastComponent_append (h : 47 ∉ fileName) :
    lastComponent (dir ++ utf16 "/" ++ fileName) = fileName := by
  have hslash : utf16 "/" = [47] := rfl
  have hkept : ∀ c ∈ fileName.reverse, decide (c ≠ 47) = true := by
    intro c hc
    rw [List.mem_reverse] at hc
    exact decide_eq_true fun h47 => h (h47 ▸ hc)
  rw [lastComponent, hslash, List.reverse_append, List.reverse_append, List.takeWhile_append_of_pos hkept]
  simp

end LastComponent

/-- The file names that are added to an interval hold no `/`. -/
def Message.PlainNames : Message → Prop
  | .intervalAdd startInterval endInterval fileNames =>
    accepted startInterval endInterval = true → ∀ fileName ∈ fileNames, 47 ∉ fileName
  | _ => True

namespace FileListMgr

/-- `file.delete()` where the file exists. -/
def deleteIfExists (disk : Finset JString) (r : FileRow) : Finset JString :=
  if r.fullpath ∈ disk then disk.erase r.fullpath else disk

def rowsNamed (db : FileListMgr) (m : Media) (fileName : JString) : List FileRow :=
  (db.fileTable m).filter (fun r => r.filename = fileName)

/-- `deleteImageFile` or `deleteVideoFile`, with the cursor they read the rows through. -/
def deleteThroughCursor (db : FileListMgr) (m : Media) (fileName : JString) : Option FileListMgr :=
  let cursor := Cursor.ofRows (db.rowsNamed m fileName)
  (Cursor.forRows deleteIfExists cursor.getCount cursor.moveToFirst.1 db.disk).map fun disk =>
    { fileTable := Function.update db.fileTable m ((db.fileTable m).filter (fun r => r.filename ≠ fileName))
      timeTable := Function.update db.timeTable m ((db.timeTable m).filter (fun r => r.filename ≠ fileName))
      disk }

/-- The names stored are what the paths beside them end with. -/
structure Named (db : FileListMgr) : Prop where
  files : ∀ m, ∀ r ∈ db.fileTable m, lastComponent r.fullpath = r.filename
  times : ∀ m, ∀ r ∈ db.timeTable m, lastComponent r.fullpath = r.filename

section Deletion
variable (db : FileListMgr) (m : Media) (fileName : JString)

/-- The cursor visits every row. -/
theorem deleteThroughCursor_eq : db.deleteThroughCursor m fileName = some (db.deleteFile m fileName) := by
  rw [deleteThroughCursor, Cursor.forRows_moveToFirst]
  rfl

theorem mem_disk_foldl (rows : List FileRow) (disk : Finset JString) {p : JString} :
    p ∈ rows.foldl deleteIfExists disk ↔ p ∈ disk ∧ ∀ r ∈ rows, r.fullpath ≠ p := by
  induction rows generalizing disk with
  | nil => simp
  | cons r rows ih =>
    have hone : p ∈ deleteIfExists disk r ↔ p ∈ disk ∧ r.fullpath ≠ p := by
      unfold deleteIfExists
      split_ifs with h
      · rw [Finset.mem_erase, and_comm, ne_comm]
      · refine ⟨fun hp => ⟨hp,fun he => h (he ▸ hp)⟩,And.left⟩
    rw [List.foldl_cons, ih, hone, List.forall_mem_cons, and_assoc]

theorem deleteFile_disk :
    (db.deleteFile m fileName).disk = db.disk \ ((db.rowsNamed m fileName).map FileRow.fullpath).toFinset := by
  ext p
  rw [Finset.mem_sdiff, List.mem_toFinset, List.mem_map]
  refine (mem_disk_foldl (db.rowsNamed m fileName) db.disk).trans (and_congr_right fun _ => ?_)
  constructor
  · rintro h ⟨r,hr,he⟩
    exact h r hr he
  · intro h r hr he
    exact h ⟨r,hr,he⟩

end Deletion

section Named
variable {storage : Storage} {db : FileListMgr} {m : Media}

theorem created_named : created.Named := ⟨nofun,nofun⟩

/-- Rows of a kind that are left, or that are added with their name, keep the tables named. -/
theorem Named.of_rows {db' : FileListMgr} (h : db.Named) {files : List FileRow} {times : List TimeRow}
    (hfile : db'.fileTable = Function.update db.fileTable m files)
    (htime : db'.timeTable = Function.update db.timeTable m times)
    (hfiles : ∀ r ∈ files, r ∈ db.fileTable m ∨ lastComponent r.fullpath = r.filename)
    (htimes : ∀ r ∈ times, r ∈ db.timeTable m ∨ lastComponent r.fullpath = r.filename) : db'.Named := by
  constructor
  · intro n r hr
    rw [hfile] at hr
    by_cases hn : n = m
    · subst hn
      rw [Function.update_self] at hr
      exact (hfiles r hr).elim (h.files n r) id
    · rw [Function.update_of_ne hn] at hr
      exact h.files n r hr
  · intro n r hr
    rw [htime] at hr
    by_cases hn : n = m
    · subst hn
      rw [Function.update_self] at hr
      exact (htimes r hr).elim (h.times n r) id
    · rw [Function.update_of_ne hn] at hr
      exact h.times n r hr

theorem receive_named (h : db.Named) {msg : Message} (hmsg : msg.PlainNames) :
    (db.receive storage m msg).Named := by
  cases msg with
  | download urls =>
    obtain ⟨hfile,htime⟩ := receive_download storage m db urls
    refine h.of_rows hfile (htime.trans (Function.update_eq_self m _).symm) (fun r hr => ?_) fun r hr => .inl hr
    rcases List.mem_append.mp hr with hold | hnew
    · exact .inl hold
    · obtain ⟨url,-,rfl⟩ := List.mem_map.mp hnew
      exact .inr rfl
  | delete fileNames =>
    obtain ⟨hfile,htime⟩ := receive_delete storage m db fileNames
    exact h.of_rows hfile htime (fun r hr => .inl (List.mem_of_mem_filter hr))
      fun r hr => .inl (List.mem_of_mem_filter hr)
  | intervalAdd s e fileNames =>
    simp only [receive]
    split_ifs with ha
    · obtain ⟨hfile,htime⟩ := insertInterval_tables storage m db s e fileNames
      have hkept := hfile.trans (Function.update_eq_self m _).symm
      refine h.of_rows hkept htime (fun r hr => .inl hr) fun r hr => ?_
      rcases List.mem_append.mp hr with hold | hnew
      · exact .inl hold
      · obtain ⟨fileName,hmem,rfl⟩ := List.mem_map.mp hnew
        exact .inr (lastComponent_append (hmsg ha fileName hmem))
    · exact h
  | intervalDelete s e =>
    simp only [receive]
    split_ifs
    · exact h.of_rows (Function.update_eq_self m _).symm rfl (fun r hr => .inl hr)
        fun r hr => .inl (List.mem_of_mem_filter hr)
    · exact h
  | intervalClear param =>
    simp only [receive]
    split_ifs
    · exact h.of_rows (Function.update_eq_self m _).symm rfl (fun r hr => .inl hr)
        (List.forall_mem_nil _)
    · exact h

theorem reached_named {messages : List (Media × Message)} (hplain : ∀ msg ∈ messages, msg.2.PlainNames) :
    (reached storage messages).Named := by
  apply List.foldlRecOn messages _ created_named
  intro db h msg hmsg
  exact receive_named h (hplain msg hmsg)

/-- The rows that stay have other names, and so have their files. -/
theorem Named.deleteFile_paths (h : db.Named) {fileName p : JString}
    (hp : p ∈ (db.deleteFile m fileName).paths m) : lastComponent p ≠ fileName := by
  obtain ⟨r,hr,rfl⟩ := List.mem_map.mp hp
  simp only [deleteFile, Function.update_self, List.mem_filter, decide_eq_true_eq] at hr
  rw [h.files m r hr.1]
  exact hr.2

theorem Named.deleteFile_pathsIn (h : db.Named) {fileName s e p : JString}
    (hp : p ∈ (db.deleteFile m fileName).pathsIn m s e) : lastComponent p ≠ fileName := by
  obtain ⟨r,hr,-,rfl⟩ := mem_pathsIn.mp hp
  simp only [deleteFile, Function.update_self, List.mem_filter, decide_eq_true_eq] at hr
  rw [h.times m r hr.1]
  exact hr.2

theorem Named.deleteFile_getListAt (h : db.Named) {q : Distinct} {fileName time p : JString}
    (hp : p ∈ ((db.deleteFile m fileName).getListAt q m time).rows) : lastComponent p ≠ fileName := by
  cases hi : (db.deleteFile m fileName).isCurrentTimeInIntervel q m time with
  | none =>
    rw [getListAt_of_none hi, getAllFile_rows] at hp
    exact h.deleteFile_paths hp
  | some i =>
    rw [getListAt_of_some hi, mem_getInInterval_rows] at hp
    exact h.deleteFile_pathsIn hp

end Named
end FileListMgr

section
variable (q : Distinct) (storage : Storage) {messages : List (Media × Message)}

/-- A deletion takes the files of the matching rows from the device and these rows from the
tables of its kind, nothing else, and no list of that kind leads to a file of that name any
more. -/
theorem deleteFile_cascades (hplain : ∀ msg ∈ messages, msg.2.PlainNames) (m : Media) (fileName : JString) :
    let db := FileListMgr.reached storage messages
    let db' := db.deleteFile m fileName
    db.deleteThroughCursor m fileName = some db' ∧
      db'.disk = db.disk \ ((db.rowsNamed m fileName).map FileRow.fullpath).toFinset ∧
      db'.fileTable m = (db.fileTable m).filter (fun r => r.filename ≠ fileName) ∧
      db'.timeTable m = (db.timeTable m).filter (fun r => r.filename ≠ fileName) ∧
      (∀ n ≠ m, db'.fileTable n = db.fileTable n ∧ db'.timeTable n = db.timeTable n) ∧
      (∀ p ∈ (db'.getAllFile m).rows, lastComponent p ≠ fileName) ∧
      (∀ s e, ∀ p ∈ (db'.getInInterval q m s e).rows, lastComponent p ≠ fileName) ∧
      ∀ time, ∀ p ∈ (db'.getListAt q m time).rows, lastComponent p ≠ fileName := by
  have hnamed : (FileListMgr.reached storage messages).Named := FileListMgr.reached_named hplain
  refine ⟨FileListMgr.deleteThroughCursor_eq _ m fileName,FileListMgr.deleteFile_disk _ m fileName,
    Function.update_self ..,Function.update_self ..,fun n hn => ?_,fun p hp => ?_,fun s e p hp => ?_,
    fun time p hp => ?_⟩
  · exact ⟨Function.update_of_ne hn ..,Function.update_of_ne hn ..⟩
  · rw [FileListMgr.getAllFile_rows] at hp
    exact hnamed.deleteFile_paths hp
  · rw [FileListMgr.mem_getInInterval_rows] at hp
    exact hnamed.deleteFile_pathsIn hp
  · exact hnamed.deleteFile_getListAt hp

/-- The file `a` downloaded, twice, and added to an interval. -/
theorem deleteFile_cascades_twice :
    let storage : Storage := ⟨fun _ => utf16 "/v",fun _ url => utf16 "/v/" ++ url⟩
    let db := FileListMgr.reached storage
      [(.video,.download [utf16 "a",utf16 "a"]),
        (.video,.intervalAdd (utf16 "08:00:00") (utf16 "09:00:00") [utf16 "a"])]
    (db.deleteFile .video (utf16 "a")).disk = ∅ ∧
      ∀ p ∈ ((db.deleteFile .video (utf16 "a")).getAllFile .video).rows, lastComponent p ≠ utf16 "a" := by
  have hplain : ∀ msg ∈ [((.video : Media),Message.download [utf16 "a",utf16 "a"]),
      (.video,.intervalAdd (utf16 "08:00:00") (utf16 "09:00:00") [utf16 "a"])], msg.2.PlainNames := by
    rw [List.forall_mem_cons, List.forall_mem_singleton]
    exact ⟨trivial,fun _ => by decide⟩
  have h := deleteFile_cascades .firsts ⟨fun _ => utf16 "/v",fun _ url => utf16 "/v/" ++ url⟩ hplain .video
    (utf16 "a")
  exact ⟨h.2.1.trans (by decide),h.2.2.2.2.2.1⟩

end
end AdSystem.Schedule
