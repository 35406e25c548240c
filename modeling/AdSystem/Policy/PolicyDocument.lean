import AdSystem.Library.Fallible
import AdSystem.Policy.AdMediaInfo

/-! # The sections of a policy document

Every section is looked up before it is walked, and none is checked. With its sections
there a document is parsed whatever its elements hold; without them the parser throws.
-/
namespace AdSystem.Policy
open Fallible

/-- The sections that the policy needs, where the document has them. -/
structure Sections (root : Element) where
  filesElement : Element
  mediaElement : Element
  pictureElement : Element
  videoInterval : Element
  imageInterval : Element
  files : root.element "files" = some filesElement
  media : filesElement.element "media" = some mediaElement
  pic : filesElement.element "pic" = some pictureElement
  media_play : root.element "media_play" = some videoInterval
  pic_play : root.element "pic_play" = some imageInterval

namespace Sections
variable {root : Element} (s : Sections root)

def fileElements : Media → List Element
  | .video => s.mediaElement.elements
  | .image => s.pictureElement.elements

def intervalElements : Media → List Element
  | .video => s.videoInterval.elements
  | .image => s.imageInterval.elements

end Sections

def parseFile : Media → Element → AdInfo
  | .video => parseVideo
  | .image => parseImage

section Parsing
variable {root : Element} {info : AdMediaInfo}

/-- The policy that the sections of a document make. -/
theorem parseXml_eq (s : Sections root) : ∃ info, parseXml root = .ok info ∧
    (∀ m, info.container m = putAll AdInfo.id ((s.fileElements m).map (parseFile m))) ∧
    (∀ m, info.intervalContainer m = putAll OneInterval.id ((s.intervalElements m).map parseInterval)) ∧
    info.resolution = root.attributeValue "resolution" ∧ info.ver = root.attributeValue "ver" ∧
    info.templet = root.attributeValue "templet" := by
  unfold parseXml
  rw [s.files, s.media_play, s.pic_play]
  simp only [required, bind, Except.bind, s.media, s.pic, pure, Except.pure]
  refine ⟨_,rfl,fun m => ?_,fun m => ?_,rfl,rfl,rfl⟩
  · cases m <;> rfl
  · cases m <;> rfl

/-- The parser returns just when all sections are there. -/
theorem exists_parseXml_ok : (∃ info, parseXml root = .ok info) ↔ Nonempty (Sections root) := by
  constructor
  · rintro ⟨info,h⟩
    simp only [parseXml, bind_eq_ok, required_eq_ok] at h
    obtain ⟨f,hf,m,hm,p,hp,v,hv,i,hi,_⟩ := h
    exact ⟨⟨f,m,p,v,i,hf,hm,hp,hv,hi⟩⟩
  · rintro ⟨s⟩
    obtain ⟨info,h,_⟩ := parseXml_eq s
    exact ⟨info,h⟩

variable {parseText : String → Option Element} {xmlText : String}

def Element.Complete (root : Element) : Prop := Nonempty (Sections root)

/-- A text is answered by a policy when it is a complete document, by null otherwise. -/
def Answered (parseText : String → Option Element) (xmlText : String) : Prop :=
  match parseText xmlText with
  | none => parseXmlFromText parseText xmlText = .ok none
  | some root =>
    (root.Complete → ∃ info, parseXmlFromText parseText xmlText = .ok (some info)) ∧
      (¬ root.Complete → parseXmlFromText parseText xmlText = .ok none)

/-- A text is answered as expected exactly when it is no document or a complete one. -/
theorem answered_iff (parseText : String → Option Element) (xmlText : String) :
    Answered parseText xmlText ↔ ∀ root, parseText xmlText = some root → root.Complete := by
  unfold Answered parseXmlFromText
  cases hroot : parseText xmlText with
  | none => exact iff_of_true rfl nofun
  | some root =>
    simp only [Option.some.injEq, forall_eq', map_eq_ok]
    constructor
    · rintro ⟨_,hnull⟩
      by_contra hnot
      obtain ⟨_,_,h⟩ := hnull hnot
      cases h
    · intro hroot
      obtain ⟨info,h⟩ := exists_parseXml_ok.mpr hroot
      exact ⟨fun _ => ⟨info,info,h,rfl⟩,fun hnot => absurd hroot hnot⟩

/-- A document without sections: the parser throws. -/
theorem not_answered_without_sections :
    ¬ Answered (fun _ => some (.mk "policy" [] [])) "<policy/>" ∧
      parseXmlFromText (fun _ => some (.mk "policy" [] [])) "<policy/>" = .error .nullPointer := by
  have hthrow : parseXmlFromText (fun _ => some (.mk "policy" [] [])) "<policy/>" = .error .nullPointer := rfl
  refine ⟨fun h => ?_,hthrow⟩
  have hnot : ¬ (Element.mk "policy" [] []).Complete := by
    rintro ⟨s⟩
    cases s.files
  cases hthrow.symm.trans (h.2 hnot)

end Parsing
section Containers
variable {V : Type*} {id : V → NString} {entries entries' : List V} {k : NString} {v : V}

theorem putAll_append_singleton : putAll id (entries ++ [v]) = (putAll id entries).insert (id v) v := by
  rw [putAll, List.foldl_append, List.foldl_cons, List.foldl_nil, putAll]

/-- With distinct ids a container holds each entry under its id, and nothing else. -/
theorem lookup_putAll (h : (entries.map id).Nodup) :
    (putAll id entries).lookup k = some v ↔ v ∈ entries ∧ id v = k := by
  induction entries using List.reverseRecOn with
  | nil => exact iff_of_false (by simp [putAll]) nofun
  | append_singleton entries e ih =>
    rw [List.map_append, List.nodup_append] at h
    obtain ⟨hentries,_,hne⟩ := h
    rw [putAll_append_singleton, List.mem_append, List.mem_singleton]
    by_cases hk : k = id e
    · subst hk
      rw [Finmap.lookup_insert, Option.some.injEq]
      constructor
      · rintro rfl
        exact ⟨Or.inr rfl,rfl⟩
      · rintro ⟨hv | rfl,he⟩
        · exact absurd he (hne _ (List.mem_map_of_mem hv) _ (by simp))
        · rfl
    · rw [Finmap.lookup_insert_of_ne _ hk, ih hentries]
      constructor
      · rintro ⟨hv,he⟩
        exact ⟨Or.inl hv,he⟩
      · rintro ⟨hv | rfl,he⟩
        · exact ⟨hv,he⟩
        · exact absurd he.symm hk

theorem putAll_keys : (putAll id entries).keys = (entries.map id).toFinset := by
  induction entries using List.reverseRecOn with
  | nil => rfl
  | append_singleton entries e ih =>
    ext k
    rw [putAll_append_singleton, Finmap.mem_keys, Finmap.mem_insert, ← Finmap.mem_keys, ih]
    simp

theorem putAll_perm (h : (entries.map id).Nodup) (hp : entries.Perm entries') :
    putAll id entries = putAll id entries' := by
  refine Finmap.ext_lookup fun k => Option.ext fun v => ?_
  rw [lookup_putAll h, lookup_putAll ((hp.map id).nodup_iff.mp h), hp.mem_iff]

end Containers

namespace Sections
variable {root : Element} (s : Sections root)

/-- No two elements of a section share their id. -/
def Distinct : Prop :=
  ∀ m, ((s.fileElements m).map fun e => e.attributeValue "id").Nodup ∧
    ((s.intervalElements m).map fun e => e.attributeValue "ID").Nodup

end Sections

/-- The entry says what the element says. -/
structure AdInfo.Describes (v : AdInfo) (m : Media) (e : Element) : Prop where
  id : v.id = e.attributeValue "id"
  filename : v.filename = e.attributeValue "file"
  md5 : v.md5 = e.attributeValue "md5"
  voice : m = .video → v.voice = e.attributeValue "voice"
  b_day : v.b_day = e.attributeValue "b_day"
  e_day : v.e_day = e.attributeValue "e_day"
  elipse : v.elipse = e.attributeValue "elipse"

structure OneInterval.Describes (one : OneInterval) (e : Element) : Prop where
  id : one.id = e.attributeValue "ID"
  begin : one.begin = e.attributeValue "begin"
  «end» : one.end = e.attributeValue "end"
  prime_time : one.prime_time = e.attributeValue "prime_time"
  fileContainer : ∀ file, file ∈ one.fileContainer ↔ ∃ child ∈ e.elements, child.attributeValue "file" = file

/-- The container has one entry for every element, under the id the element has. -/
def Exact {V : Type*} (container : Finmap (fun _ : NString => V)) (id : Element → NString)
    (describes : V → Element → Prop) (elements : List Element) : Prop :=
  container.keys.card = elements.length ∧
    ∀ e ∈ elements, ∃ v, container.lookup (id e) = some v ∧ describes v e

/-- The policy is what the sections say. -/
structure AdMediaInfo.Says (info : AdMediaInfo) {root : Element} (s : Sections root) : Prop where
  files : ∀ m, Exact (info.container m) (fun e => e.attributeValue "id") (fun v => v.Describes m)
    (s.fileElements m)
  intervals : ∀ m, Exact (info.intervalContainer m) (fun e => e.attributeValue "ID") OneInterval.Describes
    (s.intervalElements m)
  resolution : info.resolution = root.attributeValue "resolution"
  ver : info.ver = root.attributeValue "ver"
  templet : info.templet = root.attributeValue "templet"

/-- A policy is its containers and its attributes. -/
theorem AdMediaInfo.eq_of_containers {info info' : AdMediaInfo}
    (hfiles : ∀ m, info.container m = info'.container m)
    (hintervals : ∀ m, info.intervalContainer m = info'.intervalContainer m)
    (hr : info.resolution = info'.resolution) (hv : info.ver = info'.ver) (ht : info.templet = info'.templet) :
    info = info' := by
  cases info
  cases info'
  rw [AdMediaInfo.mk.injEq]
  exact ⟨hfiles .video,hfiles .image,hintervals .video,hintervals .image,hr,hv,ht⟩

section Exactness
variable {root root' : Element} {m : Media} {e : Element}

theorem parseFile_describes (m : Media) (e : Element) : (parseFile m e).Describes m e := by
  cases m with
  | video => exact ⟨rfl,rfl,rfl,fun _ => rfl,rfl,rfl,rfl⟩
  | image => exact ⟨rfl,rfl,rfl,nofun,rfl,rfl,rfl⟩

theorem parseInterval_describes (e : Element) : (parseInterval e).Describes e :=
  ⟨rfl,rfl,rfl,rfl,fun file => by simp [parseInterval]⟩

/-- Elements with distinct ids fill a container exactly. -/
theorem putAll_exact {V : Type*} {id : V → NString} {key : Element → NString} {parse : Element → V}
    {describes : V → Element → Prop} {elements : List Element} (hkey : ∀ e, id (parse e) = key e)
    (hparse : ∀ e, describes (parse e) e) (h : (elements.map key).Nodup) :
    Exact (putAll id (elements.map parse)) key describes elements := by
  have hids : (elements.map parse).map id = elements.map key := by
    rw [List.map_map]
    exact List.map_congr_left fun e _ => hkey e
  constructor
  · rw [putAll_keys, hids, List.toFinset_card_of_nodup h, List.length_map]
  · intro e he
    refine ⟨parse e,?_,hparse e⟩
    rw [lookup_putAll (hids ▸ h)]
    exact ⟨List.mem_map_of_mem he,hkey e⟩

theorem says_of_distinct {info : AdMediaInfo} {s : Sections root} (hs : s.Distinct)
    (h : parseXml root = .ok info) : info.Says s := by
  obtain ⟨info',h',hc,hi,hr,hv,ht⟩ := parseXml_eq s
  cases h.symm.trans h'
  refine ⟨fun m => ?_,fun m => ?_,hr,hv,ht⟩
  · rw [hc]
    exact putAll_exact (fun e => (parseFile_describes m e).id) (parseFile_describes m) (hs m).1
  · rw [hi]
    exact putAll_exact (fun e => (parseInterval_describes e).id) parseInterval_describes (hs m).2

/-- Intervals with the same attributes and, in some order, the same children. -/
def SameInterval (e e' : Element) : Prop :=
  e.attributeValue = e'.attributeValue ∧ e.elements.Perm e'.elements

/-- A document with the same sections, their elements permuted, also inside the intervals. -/
structure Sections.Permuted (s : Sections root) (s' : Sections root') : Prop where
  attributes : root.attributeValue = root'.attributeValue
  files : ∀ m, (s.fileElements m).Perm (s'.fileElements m)
  intervals : ∀ m, ∃ elements, (s.intervalElements m).Perm elements ∧
    List.Forall₂ SameInterval elements (s'.intervalElements m)

theorem SameInterval.parseInterval_eq {e e' : Element} (h : SameInterval e e') :
    parseInterval e = parseInterval e' := by
  obtain ⟨hattr,hperm⟩ := h
  unfold parseInterval
  rw [hattr, List.toFinset_eq_of_perm _ _ (hperm.map _)]

theorem map_parseInterval_eq {elements elements' : List Element}
    (h : List.Forall₂ SameInterval elements elements') :
    elements.map parseInterval = elements'.map parseInterval := by
  induction h with
  | nil => rfl
  | cons hse _ ih => rw [List.map_cons, List.map_cons, hse.parseInterval_eq, ih]

theorem parseXml_permuted {s : Sections root} {s' : Sections root'} (hs : s.Distinct) (hp : s.Permuted s') :
    parseXml root = parseXml root' := by
  obtain ⟨info,h,hc,hi,hr,hv,ht⟩ := parseXml_eq s
  obtain ⟨info',h',hc',hi',hr',hv',ht'⟩ := parseXml_eq s'
  have hfiles : ∀ m, info.container m = info'.container m := by
    intro m
    rw [hc, hc']
    refine putAll_perm ?_ ((hp.files m).map _)
    rw [List.map_map]
    exact (List.map_congr_left fun e _ => (parseFile_describes m e).id) ▸ (hs m).1
  have hintervals : ∀ m, info.intervalContainer m = info'.intervalContainer m := by
    intro m
    obtain ⟨elements,hperm,hsame⟩ := hp.intervals m
    rw [hi, hi', ← map_parseInterval_eq hsame]
    refine putAll_perm ?_ (hperm.map _)
    rw [List.map_map]
    exact (hs m).2
  have hattr := hp.attributes
  rw [h, h', AdMediaInfo.eq_of_containers hfiles hintervals (by rw [hr, hr', hattr]) (by rw [hv, hv', hattr])
    (by rw [ht, ht', hattr])]

end Exactness
end AdSystem.Policy
