import Mathlib.Data.List.Lex
import AdSystem.Library.Iteration
import AdSystem.Policy.AdMediaInfo

/-! # The active policy and what plays by it

`MediaStrategyMgr` holds the active policy and the saved text; the two players
hold the lists they took from it. Both kinds of lists are computed the same way.
-/
namespace AdSystem.Policy
open Iteration

section Time

/-- The code units of a string. -/
def utf16 (s : String) : List ℕ :=
  s.toList.flatMap fun c =>
    if c.toNat < 65536 then [c.toNat]
    else [55296 + (c.toNat - 65536) / 1024,56320 + (c.toNat - 65536) % 1024]

def compareUnits : List ℕ → List ℕ → ℤ
  | a :: as, b :: bs => if a = b then compareUnits as bs else (a : ℤ) - b
  | as, bs => (as.length : ℤ) - bs.length

theorem compareUnits_neg (x y : List ℕ) : compareUnits x y < 0 ↔ x < y := by
  induction x generalizing y with
  | nil =>
    cases y with
    | nil => simp [compareUnits]
    | cons b y => simp [compareUnits]; omega
  | cons a x ih =>
    cases y with
    | nil => simp [compareUnits]; omega
    | cons b y =>
      rw [compareUnits, List.cons_lt_cons_iff]
      split_ifs with hab
      · subst hab
        simp [ih]
      · constructor
        · intro h
          exact Or.inl (by omega)
        · rintro (h | ⟨h,_⟩)
          · omega
          · exact absurd h hab

theorem compareUnits_swap (x y : List ℕ) : compareUnits x y = - compareUnits y x := by
  induction x generalizing y with
  | nil => cases y <;> simp [compareUnits]
  | cons a x ih =>
    cases y with
    | nil => simp [compareUnits]
    | cons b y =>
      rw [compareUnits, compareUnits]
      split_ifs with hab hba hba
      · exact ih y
      · exact absurd hab.symm hba
      · exact absurd hba.symm hab
      · omega

def compareTo (a b : String) : ℤ := compareUnits (utf16 a) (utf16 b)

/-- Whether the time is between the two; the end is only looked at after the start. -/
def isTimeInInterval (time : String) (timeStart timeEnd : NString) : Except Thrown Bool := do
  let start ← required timeStart
  if 0 ≤ compareTo time start then
    let «end» ← required timeEnd
    return compareTo time «end» ≤ 0
  else return false

variable {a b c : String}

theorem compareTo_nonpos : compareTo a b ≤ 0 ↔ utf16 a ≤ utf16 b := by
  have hlt := compareUnits_neg (utf16 b) (utf16 a)
  rw [compareUnits_swap] at hlt
  rw [← not_lt (a := utf16 b) (b := utf16 a), ← hlt, compareTo]
  omega

theorem compareTo_nonneg : 0 ≤ compareTo a b ↔ utf16 b ≤ utf16 a := by
  rw [compareTo, ← not_lt, ← not_lt, compareUnits_neg]

theorem compareTo_eq_zero : compareTo a b = 0 ↔ utf16 a = utf16 b := by
  rw [le_antisymm_iff, le_antisymm_iff, compareTo_nonpos, compareTo_nonneg]

end Time

section Lists
variable (mMediaPath : String) (order : IterOrder NString)

def mediaFile (filename : NString) : String := mMediaPath ++ text filename

theorem mediaFile_eq {a b : NString} : mediaFile mMediaPath a = mediaFile mMediaPath b ↔ text a = text b := by
  constructor
  · intro h
    have hl := congrArg String.toList h
    rw [mediaFile, mediaFile, String.toList_append, String.toList_append] at hl
    exact String.toList_inj.mp (List.append_cancel_left hl)
  · intro h
    rw [mediaFile, mediaFile, h]

variable (info : AdMediaInfo) (m : Media)

/-- `getVideoList` and `getImageList`. -/
def getList : List String :=
  (order.list (info.container m).keys).map fun key =>
    mediaFile mMediaPath (((info.container m).lookup key).bind AdInfo.filename)

/-- The files of an interval; an id without entry is dereferenced all the same. -/
def intervalFiles (one : OneInterval) : Except Thrown (List String) :=
  (order.list one.fileContainer).mapM fun fileId => do
    let entry ← required ((info.container m).lookup fileId)
    return mediaFile mMediaPath entry.filename

/-- The first interval around the time decides, otherwise all files are played. -/
def intervalLoop (curTime : String) : List NString → Except Thrown (List String)
  | [] => .ok (getList mMediaPath order info m)
  | intervalId :: ids => do
    let one ← required ((info.intervalContainer m).lookup intervalId)
    if ← isTimeInInterval curTime one.begin one.end then intervalFiles mMediaPath order info m one
    else intervalLoop curTime ids

/-- `getVideoListWithIntervalCheck` and `getImageListWithIntervalCheck`. -/
def getListWithIntervalCheck (curTime : String) : Except Thrown (List String) :=
  intervalLoop mMediaPath order info m curTime (order.list (info.intervalContainer m).keys)

/-- The list the constructor of a player takes: only the videos look at the intervals. -/
def startList (curTime : String) : Media → Except Thrown (List String)
  | .video => getListWithIntervalCheck mMediaPath order info .video curTime
  | .image => .ok (getList mMediaPath order info .image)

end Lists

/-- The files the entries of one kind refer to. -/
def AdMediaInfo.Refers (info : AdMediaInfo) (m : Media) (filename : NString) : Prop :=
  ∃ id entry, (info.container m).lookup id = some entry ∧ entry.filename = filename

theorem mem_getList {mMediaPath : String} {order : IterOrder NString} {info : AdMediaInfo} {m : Media}
    {path : String} : path ∈ getList mMediaPath order info m ↔
      ∃ filename, info.Refers m filename ∧ mediaFile mMediaPath filename = path := by
  simp only [getList, List.mem_map, order.mem, Finmap.mem_keys, Finmap.mem_iff]
  constructor
  · rintro ⟨id,⟨entry,he⟩,rfl⟩
    exact ⟨entry.filename,⟨id,entry,he,rfl⟩,by rw [he]; rfl⟩
  · rintro ⟨_,⟨id,entry,he,rfl⟩,rfl⟩
    exact ⟨id,⟨entry,he⟩,by rw [he]; rfl⟩

/-- The constructor of `MediaStrategyMgr`: the active policy, from the saved text if any. -/
def loadPolicy (parse : String → Except Thrown (Option AdMediaInfo)) (saved : Option String) :
    Except Thrown (Option AdMediaInfo) :=
  match saved with
  | some xmlText => parse xmlText
  | none => .ok (some AdMediaInfo.empty)

/-- The files under the media path, and those that `delete` was called for. -/
structure Storage where
  files : Finset String
  deleted : Finset String
  deriving DecidableEq

namespace Storage

def land (s : Storage) (path : String) : Storage := { s with files := insert path s.files }

def delete (s : Storage) (path : String) : Storage :=
  if path ∈ s.files then ⟨s.files.erase path,insert path s.deleted⟩ else s

variable {s : Storage} {path p : String}

@[simp] theorem mem_land : p ∈ (s.land path).files ↔ p = path ∨ p ∈ s.files := Finset.mem_insert

@[simp] theorem mem_delete_files : p ∈ (s.delete path).files ↔ p ∈ s.files ∧ p ≠ path := by
  unfold delete
  split_ifs with h
  · rw [Finset.mem_erase, and_comm]
  · constructor
    · intro hp
      exact ⟨hp,fun he => h (he ▸ hp)⟩
    · exact And.left

@[simp] theorem mem_delete_deleted :
    p ∈ (s.delete path).deleted ↔ p ∈ s.deleted ∨ (p = path ∧ p ∈ s.files) := by
  unfold delete
  split_ifs with h
  · rw [Finset.mem_insert]
    constructor
    · rintro (rfl | hp)
      · exact Or.inr ⟨rfl,h⟩
      · exact Or.inl hp
    · rintro (hp | ⟨rfl,_⟩)
      · exact Or.inr hp
      · exact Or.inl rfl
  · constructor
    · exact Or.inl
    · rintro (hp | ⟨rfl,hp⟩)
      · exact hp
      · exact absurd hp h

end Storage

/-- What the process holds and what the device stores. A kind without player has no list. -/
structure Device where
  adMediaInfo : AdMediaInfo
  playlist : Media → Option (List String)
  saved : Option String
  storage : Storage

def Device.unplayed (adMediaInfo : AdMediaInfo) (files : Finset String) : Device :=
  ⟨adMediaInfo,fun _ => none,none,⟨files,∅⟩⟩

end AdSystem.Policy
