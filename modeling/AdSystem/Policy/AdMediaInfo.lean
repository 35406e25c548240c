import Mathlib.Data.Finmap

/-! # Ad policies and their text

A policy maps ids to the entries of its videos and images, and intervals of the
day to sets of ids. Strings of the policy may be null. The text goes through a
parser outside this repository, so the document is where the model begins.
-/
namespace AdSystem.Policy

/-- Every string read from a document may be null. -/
abbrev NString := Option String

/-- What Java concatenates for a string. -/
def text (s : NString) : String := s.getD "null"

inductive Thrown where
  | nullPointer
  deriving DecidableEq, Repr

/-- Dereference a reference. -/
def required {α : Type*} : Option α → Except Thrown α
  | some a => .ok a
  | none => .error .nullPointer

theorem required_eq_ok {α : Type*} {o : Option α} {a : α} : required o = .ok a ↔ o = some a := by
  cases o <;> simp [required]

/-- Both kinds of entries; an image has no voice. -/
structure AdInfo where
  id : NString
  filename : NString
  md5 : NString
  voice : NString
  b_day : NString
  e_day : NString
  elipse : NString
  deriving DecidableEq, Repr

/-- An interval of the video or of the image schedule. -/
structure OneInterval where
  id : NString
  begin : NString
  «end» : NString
  prime_time : NString
  fileContainer : Finset NString
  deriving DecidableEq

abbrev Container := Finmap (fun _ : NString => AdInfo)
abbrev IntervalContainer := Finmap (fun _ : NString => OneInterval)

inductive Media where
  | video
  | image
  deriving DecidableEq, Repr

/-- A parsed policy, and the one that is active. -/
structure AdMediaInfo where
  videoContainer : Container
  imageContainer : Container
  videoIntervalContainer : IntervalContainer
  imageIntervalContainer : IntervalContainer
  resolution : NString
  ver : NString
  templet : NString

namespace AdMediaInfo

def empty : AdMediaInfo := ⟨∅,∅,∅,∅,none,none,none⟩

def container (info : AdMediaInfo) : Media → Container
  | .video => info.videoContainer
  | .image => info.imageContainer

def intervalContainer (info : AdMediaInfo) : Media → IntervalContainer
  | .video => info.videoIntervalContainer
  | .image => info.imageIntervalContainer

def setContainer (info : AdMediaInfo) : Media → Container → AdMediaInfo
  | .video, c => { info with videoContainer := c }
  | .image, c => { info with imageContainer := c }

@[simp] theorem setContainer_container (info : AdMediaInfo) (m n : Media) (c : Container) :
    (info.setContainer m c).container n = if n = m then c else info.container n := by
  cases m <;> cases n <;> rfl

@[simp] theorem setContainer_intervalContainer (info : AdMediaInfo) (m n : Media) (c : Container) :
    (info.setContainer m c).intervalContainer n = info.intervalContainer n := by
  cases m <;> cases n <;> rfl

@[simp] theorem setContainer_resolution (info : AdMediaInfo) (m : Media) (c : Container) :
    (info.setContainer m c).resolution = info.resolution := by
  cases m <;> rfl

end AdMediaInfo

def getSetDifference (minuend subtrahend : Finset NString) : Finset NString :=
  minuend.filter (fun key => key ∉ subtrahend)

@[simp] theorem mem_getSetDifference {a b : Finset NString} {x : NString} :
    x ∈ getSetDifference a b ↔ x ∈ a ∧ x ∉ b := by
  rw [getSetDifference, Finset.mem_filter]

inductive Element where
  | mk (name : String) (attributes : List (String × String)) (elements : List Element)

namespace Element

def name : Element → String
  | mk name _ _ => name

def elements : Element → List Element
  | mk _ _ elements => elements

/-- The value of an attribute, null when there is none. -/
def attributeValue : Element → String → NString
  | mk _ attributes _, key => attributes.lookup key

/-- The first child of that name, null when there is none. -/
def element (e : Element) (name : String) : Option Element :=
  e.elements.find? (fun child => child.name = name)

end Element

def parseVideo (mediaFile : Element) : AdInfo :=
  ⟨mediaFile.attributeValue "id",mediaFile.attributeValue "file",mediaFile.attributeValue "md5",
    mediaFile.attributeValue "voice",mediaFile.attributeValue "b_day",
    mediaFile.attributeValue "e_day",mediaFile.attributeValue "elipse"⟩

def parseImage (imageFile : Element) : AdInfo :=
  ⟨imageFile.attributeValue "id",imageFile.attributeValue "file",imageFile.attributeValue "md5",
    none,imageFile.attributeValue "b_day",imageFile.attributeValue "e_day",
    imageFile.attributeValue "elipse"⟩

def parseInterval (interval : Element) : OneInterval :=
  ⟨interval.attributeValue "ID",interval.attributeValue "begin",interval.attributeValue "end",
    interval.attributeValue "prime_time",
    (interval.elements.map fun idElement => idElement.attributeValue "file").toFinset⟩

/-- Later entries of an id replace earlier ones. -/
def putAll {V : Type*} (id : V → NString) (entries : List V) : Finmap (fun _ : NString => V) :=
  entries.foldl (fun c entry => c.insert (id entry) entry) ∅

def AdInfo.ofFile (id filename : String) : AdInfo :=
  ⟨some id,some filename,none,none,none,none,none⟩

def AdMediaInfo.ofEntries (videos images : List AdInfo) : AdMediaInfo :=
  { AdMediaInfo.empty with
    videoContainer := putAll AdInfo.id videos, imageContainer := putAll AdInfo.id images }

/-- The policy in a document, when all its sections are there. -/
def parseXml (root : Element) : Except Thrown AdMediaInfo := do
  let filesElement ← required (root.element "files")
  let mediaFiles ← required (filesElement.element "media")
  let imageFiles ← required (filesElement.element "pic")
  let videoInterval ← required (root.element "media_play")
  let imageInterval ← required (root.element "pic_play")
  return {
    videoContainer := putAll AdInfo.id (mediaFiles.elements.map parseVideo)
    imageContainer := putAll AdInfo.id (imageFiles.elements.map parseImage)
    videoIntervalContainer := putAll OneInterval.id (videoInterval.elements.map parseInterval)
    imageIntervalContainer := putAll OneInterval.id (imageInterval.elements.map parseInterval)
    resolution := root.attributeValue "resolution"
    ver := root.attributeValue "ver"
    templet := root.attributeValue "templet" }

/-- The policy in a text: null when the text is not a document. -/
def parseXmlFromText (parseText : String → Option Element) (xmlText : String) :
    Except Thrown (Option AdMediaInfo) :=
  match parseText xmlText with
  | none => .ok none
  | some root => (parseXml root).map some

theorem foldl_insert_forall {V : Type*} (id : V → NString) (P : NString → V → Prop) (entries : List V)
    (c : Finmap (fun _ : NString => V)) (hentries : ∀ e ∈ entries, P (id e) e)
    (hc : ∀ k v, c.lookup k = some v → P k v) :
    ∀ k v, (entries.foldl (fun c entry => c.insert (id entry) entry) c).lookup k = some v → P k v := by
  induction entries generalizing c with
  | nil => exact hc
  | cons e entries ih =>
    refine ih _ (fun e he => hentries e (List.mem_cons_of_mem _ he)) fun k v hk => ?_
    rcases eq_or_ne k (id e) with rfl | hne
    · rw [Finmap.lookup_insert] at hk
      cases hk
      exact hentries e List.mem_cons_self
    · rw [Finmap.lookup_insert_of_ne _ hne] at hk
      exact hc k v hk

theorem putAll_id {V : Type*} (id : V → NString) (entries : List V) {k : NString} {v : V}
    (h : (putAll id entries).lookup k = some v) : id v = k ∧ v ∈ entries := by
  refine foldl_insert_forall id (fun k v => id v = k ∧ v ∈ entries) entries ∅ (fun e he => ⟨rfl,he⟩)
    (fun k v hk => ?_) k v h
  rw [Finmap.lookup_empty] at hk
  cases hk

end AdSystem.Policy
