import AdSystem.Library.Fallible
import AdSystem.Library.Regex
import AdSystem.Schedule.FileListMgr

/-! # The media files of a folder

`scanSpecificFolder` takes the names in a folder apart at a dot, with a pattern that allows
for one dot only. It asks for the second group without looking whether the name matched,
and a matcher without a match throws.
-/
namespace AdSystem.Schedule
open Regex Fallible
open Policy (Media utf16)

namespace FileDirMgr

inductive ScanThrown where
  | illegalState
  | nullPointer
  deriving DecidableEq, Repr

def VIDEO : ℤ := 0
def IMAGE : ℤ := 1
def CAMERA : ℤ := 2

def VIDEO_EXTENSION : List JString := [utf16 "mp4",utf16 "avi",utf16 "rmvb",utf16 "mkv",utf16 "mpeg"]
def IMAGE_EXTENSION : List JString := [utf16 "jpg",utf16 "png",utf16 "jpeg"]

def notDot (c : ℕ) : Bool := c ≠ 46

/-- `([^\.]*)\.([^\.]*)`. -/
def regPatten : Pattern ℕ := [.group notDot,.one (· = 46),.group notDot]

/-- `Matcher.group` after an attempt, which throws unless the attempt succeeded. -/
def group (attempt : Option (List JString)) (i : ℕ) : Except ScanThrown JString :=
  match attempt with
  | some groups => .ok (groups.getD (i - 1) [])
  | none => .error .illegalState

/-- A name in a folder, with what `isDirectory` says of it. -/
structure Entry where
  name : JString
  isDirectory : Bool
  deriving DecidableEq, Repr

structure File where
  folder : JString
  name : JString
  deriving DecidableEq, Repr

/-- What a path is found to be; `list` may return null for a directory. -/
inductive Folder where
  | notDirectory
  | unreadable
  | listing (entries : List Entry)
  deriving DecidableEq, Repr

/-- The results, and the directories that `delete` is called on. -/
structure Scan where
  results : List File
  deleted : List File
  deriving DecidableEq, Repr

structure StoragePaths where
  mCameraStoragePath : JString
  mImageStoragePath : JString

variable (paths : StoragePaths) (folder : JString → Folder)

/-- The path, null for the camera, and the extensions of a media type. -/
def select (mediaType : ℤ) : Option JString × List JString :=
  if mediaType = VIDEO then (some paths.mCameraStoragePath,VIDEO_EXTENSION)
  else if mediaType = IMAGE then (some paths.mImageStoragePath,IMAGE_EXTENSION)
  else if mediaType = CAMERA then (none,[])
  else (some paths.mCameraStoragePath,VIDEO_EXTENSION)

def scanEntry (path : JString) (extensionSet : List JString) (scan : Scan) (entry : Entry) :
    Except ScanThrown Scan :=
  let file : File := ⟨path,entry.name⟩
  if entry.isDirectory then .ok { scan with deleted := scan.deleted ++ [file] }
  else do
    let fileExtension ← group («matches» regPatten entry.name) 2
    return if fileExtension ∈ extensionSet then { scan with results := scan.results ++ [file] } else scan

/-- Null for what is no directory. A null list is walked by the debug output before it is
looked at. -/
def scanSpecificFolder (mediaType : ℤ) : Except ScanThrown (Option Scan) :=
  match select paths mediaType with
  | (none,_) => .error .nullPointer
  | (some path,extensionSet) =>
    match folder path with
    | .notDirectory => .ok none
    | .unreadable => .error .nullPointer
    | .listing entries => (entries.foldlM (scanEntry path extensionSet) ⟨[],[]⟩).map some

/-- The part after the last dot, if there is a dot. -/
def lastExtension (name : JString) : Option JString :=
  if 46 ∈ name then some (name.reverse.takeWhile notDot).reverse else none

def mediaType : Media → ℤ
  | .video => VIDEO
  | .image => IMAGE

def path : Media → JString
  | .video => paths.mCameraStoragePath
  | .image => paths.mImageStoragePath

def extensions : Media → List JString
  | .video => VIDEO_EXTENSION
  | .image => IMAGE_EXTENSION

/-- A file that is no directory and has an extension of the kind. -/
def IsMediaFile (m : Media) (entry : Entry) : Prop :=
  entry.isDirectory = false ∧ ∃ e ∈ extensions m, lastExtension entry.name = some e

instance (m : Media) : DecidablePred (IsMediaFile m) := fun _ => inferInstanceAs (Decidable (_ ∧ _))

section Names
variable {name x y : JString}

theorem describes_regPatten {groups : List JString} :
    Describes regPatten name groups ↔
      ∃ x y, name = x ++ 46 :: y ∧ 46 ∉ x ∧ 46 ∉ y ∧ groups = [x,y] := by
  have hclass : ∀ z : JString, (∀ c ∈ z, notDot c = true) ↔ 46 ∉ z := by
    intro z
    simp only [notDot, decide_eq_true_eq]
    exact ⟨fun h hmem => h 46 hmem rfl,fun h c hc heq => h (heq ▸ hc)⟩
  constructor
  · rintro ⟨x,_,rest,rfl,hx,⟨c,_,rfl,hc,y,_,_,rfl,hy,⟨rfl,rfl⟩,rfl⟩,rfl⟩
    refine ⟨x,y,?_,(hclass x).mp hx,(hclass y).mp hy,rfl⟩
    rw [of_decide_eq_true hc, List.append_nil]
  · rintro ⟨x,y,rfl,hx,hy,rfl⟩
    exact ⟨x,_,_,rfl,(hclass x).mpr hx,
      ⟨46,y,rfl,rfl,y,[],[],(List.append_nil y).symm,(hclass y).mpr hy,⟨rfl,rfl⟩,rfl⟩,rfl⟩

theorem count_dot_eq_one : name.count 46 = 1 ↔ ∃ x y, name = x ++ 46 :: y ∧ 46 ∉ x ∧ 46 ∉ y := by
  constructor
  · intro h
    have hmem : 46 ∈ name := List.count_pos_iff.mp (by omega)
    obtain ⟨x,y,rfl,hx⟩ := List.eq_append_cons_of_mem hmem
    refine ⟨x,y,rfl,hx,List.count_eq_zero.mp ?_⟩
    rw [List.count_append, List.count_cons_self, List.count_eq_zero.mpr hx] at h
    omega
  · rintro ⟨x,y,rfl,hx,hy⟩
    rw [List.count_append, List.count_cons_self, List.count_eq_zero.mpr hx, List.count_eq_zero.mpr hy]

theorem lastExtension_append (hy : 46 ∉ y) : lastExtension (x ++ 46 :: y) = some y := by
  have hrev : ∀ c ∈ y.reverse, notDot c = true := by
    intro c hc
    exact decide_eq_true fun h => hy (h ▸ List.mem_reverse.mp hc)
  rw [lastExtension, if_pos (by simp), List.reverse_append, List.reverse_cons, List.append_assoc,
    List.takeWhile_append_of_pos hrev]
  simp [notDot]

/-- The second group of a name with one dot is what follows it. -/
theorem matches_regPatten (hx : 46 ∉ x) (hy : 46 ∉ y) : «matches» regPatten (x ++ 46 :: y) = some [x,y] := by
  apply matches_eq_some (describes_regPatten.mpr ⟨x,y,rfl,hx,hy,rfl⟩)
  intro other hother
  obtain ⟨x',y',h,hx',hy',rfl⟩ := describes_regPatten.mp hother
  have hext : some y = some y' := by rw [← lastExtension_append hy, h, lastExtension_append hy']
  cases hext
  rw [List.append_cancel_right h]

theorem matches_regPatten_eq_none : «matches» regPatten name = none ↔ name.count 46 ≠ 1 := by
  rw [matches_eq_none_iff, ne_eq, count_dot_eq_one]
  constructor
  · rintro h ⟨x,y,hname,hx,hy⟩
    exact h [x,y] (describes_regPatten.mpr ⟨x,y,hname,hx,hy,rfl⟩)
  · intro h groups hgroups
    obtain ⟨x,y,hname,hx,hy,_⟩ := describes_regPatten.mp hgroups
    exact h ⟨x,y,hname,hx,hy⟩

theorem group_eq_ok {e : JString} :
    group («matches» regPatten name) 2 = .ok e ↔ name.count 46 = 1 ∧ lastExtension name = some e := by
  by_cases h : name.count 46 = 1
  · obtain ⟨x,y,rfl,hx,hy⟩ := count_dot_eq_one.mp h
    rw [matches_regPatten hx hy, lastExtension_append hy, Option.some.injEq]
    exact ⟨fun he => ⟨h,Except.ok.inj he⟩,fun he => congrArg Except.ok he.2⟩
  · rw [matches_regPatten_eq_none.mpr h]
    exact iff_of_false nofun fun he => h he.1

end Names

/-- Whatever is listed, the scan returns the media files in their order. -/
def KeepsMediaFiles (m : Media) : Prop :=
  ∀ entries, folder (path paths m) = .listing entries →
    ∃ scan, scanSpecificFolder paths folder (mediaType m) = .ok (some scan) ∧
      scan.results = (entries.filter (IsMediaFile m)).map fun entry => ⟨path paths m,entry.name⟩

/-- Every file listed has one dot in its name. -/
def OneDotEach (m : Media) : Prop :=
  ∀ entries, folder (path paths m) = .listing entries →
    ∀ entry ∈ entries, entry.isDirectory = false → entry.name.count 46 = 1

section Scanning
variable {m : Media} {path : JString} {extensionSet : List JString} {scan r : Scan} {entry : Entry}
  {entries : List Entry}

theorem scanEntry_returns : (∃ r, scanEntry path extensionSet scan entry = .ok r) ↔
    (entry.isDirectory = false → entry.name.count 46 = 1) := by
  cases hdir : entry.isDirectory with
  | true =>
    simp only [scanEntry, hdir, if_true]
    exact iff_of_true ⟨_,rfl⟩ nofun
  | false =>
    simp only [scanEntry, hdir, Bool.false_eq_true, if_false, forall_const]
    rw [exists_bind_ok]
    constructor
    · rintro ⟨e,he,_⟩
      exact (group_eq_ok.mp he).1
    · intro h
      obtain ⟨x,y,hname,_,hy⟩ := count_dot_eq_one.mp h
      exact ⟨y,group_eq_ok.mpr ⟨h,hname ▸ lastExtension_append hy⟩,_,rfl⟩

/-- What one entry adds to the results of a scan. -/
theorem scanEntry_results (h : scanEntry path (extensions m) scan entry = .ok r) :
    r.results = scan.results ++ if IsMediaFile m entry then [⟨path,entry.name⟩] else [] := by
  cases hdir : entry.isDirectory with
  | true =>
    simp only [scanEntry, hdir, if_true, Except.ok.injEq] at h
    subst h
    have hnot : ¬ IsMediaFile m entry := by
      rintro ⟨hfile,_⟩
      rw [hdir] at hfile
      cases hfile
    rw [if_neg hnot, List.append_nil]
  | false =>
    simp only [scanEntry, hdir, Bool.false_eq_true, if_false, bind_eq_ok, group_eq_ok] at h
    obtain ⟨e,⟨_,he⟩,hr⟩ := h
    have hmedia : IsMediaFile m entry ↔ e ∈ extensions m := by
      simp only [IsMediaFile, hdir, true_and, he, Option.some.injEq, exists_eq_right']
    cases hr
    by_cases hmem : e ∈ extensions m
    · rw [if_pos hmem, if_pos (hmedia.mpr hmem)]
    · rw [if_neg hmem, if_neg (hmem ∘ hmedia.mp), List.append_nil]

theorem foldlM_scanEntry_results (h : entries.foldlM (scanEntry path (extensions m)) scan = .ok r) :
    r.results = scan.results ++ (entries.filter (IsMediaFile m)).map fun entry => ⟨path,entry.name⟩ := by
  induction entries generalizing scan with
  | nil =>
    cases h
    exact (List.append_nil _).symm
  | cons entry entries ih =>
    rw [List.foldlM_cons, bind_eq_ok] at h
    obtain ⟨next,hnext,hrest⟩ := h
    rw [ih hrest, scanEntry_results hnext, List.filter_cons, List.append_assoc]
    by_cases hmedia : IsMediaFile m entry
    · simp [hmedia]
    · simp [hmedia]

theorem scanSpecificFolder_listing {paths : StoragePaths} {folder : JString → Folder}
    (h : folder (FileDirMgr.path paths m) = .listing entries) :
    scanSpecificFolder paths folder (mediaType m) =
      (entries.foldlM (scanEntry (FileDirMgr.path paths m) (extensions m)) ⟨[],[]⟩).map some := by
  cases m with
  | video =>
    have hselect : select paths (mediaType .video) =
      (some (FileDirMgr.path paths .video),extensions .video) := rfl
    rw [scanSpecificFolder, hselect]
    simp only [h]
  | image =>
    have hselect : select paths (mediaType .image) =
      (some (FileDirMgr.path paths .image),extensions .image) := rfl
    rw [scanSpecificFolder, hselect]
    simp only [h]

end Scanning

/-- A scan keeps just the media files, whatever is listed, if and only if every file has one dot
in its name. -/
theorem keepsMediaFiles_iff (m : Media) : KeepsMediaFiles paths folder m ↔ OneDotEach paths folder m := by
  apply forall₂_congr
  intro entries hlist
  rw [scanSpecificFolder_listing hlist]
  constructor
  · rintro ⟨scan,hscan,_⟩
    obtain ⟨r,hr,_⟩ := map_eq_ok.mp hscan
    exact (exists_foldlM_ok (f := scanEntry _ _) fun _ _ => scanEntry_returns).mp ⟨r,hr⟩
  · intro h
    obtain ⟨scan,hscan⟩ := (exists_foldlM_ok (f := scanEntry (path paths m) (extensions m)) (b := ⟨[],[]⟩)
      fun _ _ => scanEntry_returns).mpr h
    exact ⟨scan,map_eq_ok.mpr ⟨scan,hscan,rfl⟩,(foldlM_scanEntry_results hscan).trans (List.nil_append _)⟩

def sdcardPaths : StoragePaths := ⟨utf16 "/sdcard/Camera/",utf16 "/sdcard/Ad_Image/"⟩

/-- A name without a dot ends the scan of a folder that holds a video. -/
theorem not_keepsMediaFiles_readme :
    ¬ ∀ (paths : StoragePaths) (folder : JString → Folder) (m : Media), KeepsMediaFiles paths folder m := by
  intro h
  obtain ⟨scan,hscan,_⟩ := h sdcardPaths
    (fun _ => .listing [⟨utf16 "a.mp4",false⟩,⟨utf16 "README",false⟩]) .video _ rfl
  have hthrows : scanSpecificFolder sdcardPaths
      (fun _ => .listing [⟨utf16 "a.mp4",false⟩,⟨utf16 "README",false⟩]) VIDEO = .error .illegalState := by
    decide
  rw [mediaType, hthrows] at hscan
  cases hscan

/-- Two dots end a scan as well. -/
example : scanSpecificFolder sdcardPaths (fun _ => .listing [⟨utf16 "a.b.mp4",false⟩]) VIDEO =
    .error .illegalState := by decide

end FileDirMgr
end AdSystem.Schedule
