import AdSystem.Library.Iteration
import AdSystem.Policy.PolicyDocument

/-! # Writing a policy back

The repository only reads policies. The writer here is the inverse that the format allows:
four sections, an element for every entry, and no attribute for what is null.
-/
namespace AdSystem.Policy
open Iteration

/-- The attributes that are not null. -/
def attributes (values : List (String × NString)) : List (String × String) :=
  values.filterMap fun value => value.2.map fun written => (value.1,written)

def writeVideo (v : AdInfo) : Element :=
  .mk "file" (attributes [("id",v.id),("file",v.filename),("md5",v.md5),("voice",v.voice),("b_day",v.b_day),
    ("e_day",v.e_day),("elipse",v.elipse)]) []

def writeImage (v : AdInfo) : Element :=
  .mk "file" (attributes [("id",v.id),("file",v.filename),("md5",v.md5),("b_day",v.b_day),
    ("e_day",v.e_day),("elipse",v.elipse)]) []

def writeFile : Media → AdInfo → Element
  | .video => writeVideo
  | .image => writeImage

section
variable (order : IterOrder NString)

def writeInterval (one : OneInterval) : Element :=
  .mk "interval"
    (attributes [("ID",one.id),("begin",one.begin),("end",one.end),("prime_time",one.prime_time)])
    ((order.list one.fileContainer).map fun file => .mk "file" (attributes [("file",file)]) [])

/-- What a container holds, in the order in which its keys are iterated. -/
def values {V : Type*} (c : Finmap (fun _ : NString => V)) : List V :=
  (order.list c.keys).filterMap c.lookup

def writeXml (rootName : String) (info : AdMediaInfo) : Element :=
  .mk rootName (attributes [("resolution",info.resolution),("ver",info.ver),("templet",info.templet)])
    [.mk "files" [] [.mk "media" [] ((values order info.videoContainer).map writeVideo),
        .mk "pic" [] ((values order info.imageContainer).map writeImage)],
      .mk "media_play" [] ((values order info.videoIntervalContainer).map (writeInterval order)),
      .mk "pic_play" [] ((values order info.imageIntervalContainer).map (writeInterval order))]

end

section
variable {order : IterOrder NString}

theorem lookup_attributes {values : List (String × NString)} (h : (values.map Prod.fst).Nodup) (key : String) :
    (attributes values).lookup key = (values.lookup key).join := by
  induction values with
  | nil => rfl
  | cons value values ih =>
    obtain ⟨name,value⟩ := value
    rw [List.map_cons, List.nodup_cons] at h
    have hrest := ih h.2
    by_cases hkey : key = name
    · subst hkey
      rw [List.lookup_cons_self, Option.join_some]
      cases value with
      | some written => exact List.lookup_cons_self
      | none =>
        have hnone : values.lookup key = none := by
          rw [List.lookup_eq_none_iff]
          intro p hp
          simpa using fun he => h.1 (List.mem_map.mpr ⟨p,hp,he.symm⟩)
        rw [hnone] at hrest
        exact hrest
    · have hne : (key == name) = false := beq_false_of_ne hkey
      rw [List.lookup_cons, hne, ← hrest]
      cases value with
      | some written =>
        change List.lookup key ((name,written) :: attributes values) = _
        rw [List.lookup_cons, hne]
      | none => rfl

theorem attributeValue_attributes {values : List (String × NString)} (h : (values.map Prod.fst).Nodup)
    (name key : String) (elements : List Element) :
    (Element.mk name (attributes values) elements).attributeValue key = (values.lookup key).join :=
  lookup_attributes h key

theorem parseFile_writeFile {m : Media} {v : AdInfo} (hv : m = .image → v.voice = none) :
    parseFile m (writeFile m v) = v := by
  cases m with
  | video =>
    unfold parseFile writeFile parseVideo writeVideo
    simp (disch := simp) only [attributeValue_attributes]
    simp [List.lookup_cons]
  | image =>
    unfold parseFile writeFile parseImage writeImage
    simp (disch := simp) only [attributeValue_attributes]
    simp [List.lookup_cons, ← hv rfl]

theorem parseInterval_writeInterval (one : OneInterval) : parseInterval (writeInterval order one) = one := by
  have hfiles : ∀ file : NString, (Element.mk "file" (attributes [("file",file)]) []).attributeValue "file" = file := by
    intro file
    simp (disch := simp) only [attributeValue_attributes]
    simp
  have hset : (order.list one.fileContainer).toFinset = one.fileContainer := by
    ext file
    rw [List.mem_toFinset, order.mem]
  unfold parseInterval writeInterval
  simp (disch := simp) only [attributeValue_attributes]
  simp [List.lookup_cons, Element.elements, Function.comp_def, hfiles, hset]

section Containers
variable {V : Type*} {c : Finmap (fun _ : NString => V)} {id : V → NString}

theorem mem_values {v : V} : v ∈ values order c ↔ ∃ k, c.lookup k = some v := by
  rw [values, List.mem_filterMap]
  constructor
  · rintro ⟨k,_,hk⟩
    exact ⟨k,hk⟩
  · rintro ⟨k,hk⟩
    refine ⟨k,?_,hk⟩
    rw [order.mem, Finmap.mem_keys, Finmap.mem_iff]
    exact ⟨v,hk⟩

/-- The keys of a container whose entries lie under their ids, read off its entries. -/
theorem map_values (hid : ∀ k v, c.lookup k = some v → id v = k) :
    (values order c).map id = order.list c.keys := by
  rw [values, List.map_filterMap]
  refine (List.filterMap_congr fun k hk => ?_).trans List.filterMap_some
  rw [order.mem, Finmap.mem_keys, Finmap.mem_iff] at hk
  obtain ⟨v,hv⟩ := hk
  rw [hv, Option.map_some, hid k v hv]

theorem putAll_values (hid : ∀ k v, c.lookup k = some v → id v = k) : putAll id (values order c) = c := by
  have hnodup : ((values order c).map id).Nodup := by
    rw [map_values hid]
    exact order.nodup _
  refine Finmap.ext_lookup fun k => Option.ext fun v => ?_
  rw [lookup_putAll hnodup, mem_values]
  constructor
  · rintro ⟨⟨k',hk'⟩,rfl⟩
    rw [hid k' v hk']
    exact hk'
  · intro hk
    exact ⟨⟨k,hk⟩,hid k v hk⟩

end Containers

theorem putAll_parsed {V : Type*} {c : Finmap (fun _ : NString => V)} {id : V → NString} {write : V → Element}
    {parse : Element → V} (hid : ∀ k v, c.lookup k = some v → id v = k)
    (hparse : ∀ k v, c.lookup k = some v → parse (write v) = v) :
    putAll id (((values order c).map write).map parse) = c := by
  have hmap : ((values order c).map write).map parse = values order c := by
    rw [List.map_map]
    refine (List.map_congr_left fun v hv => ?_).trans (List.map_id _)
    obtain ⟨k,hk⟩ := mem_values.mp hv
    exact hparse k v hk
  rw [hmap, putAll_values hid]

/-- A written policy has all sections. -/
def writtenSections (order : IterOrder NString) (rootName : String) (info : AdMediaInfo) :
    Sections (writeXml order rootName info) where
  filesElement := .mk "files" [] [.mk "media" [] ((values order info.videoContainer).map writeVideo),
    .mk "pic" [] ((values order info.imageContainer).map writeImage)]
  mediaElement := .mk "media" [] ((values order info.videoContainer).map writeVideo)
  pictureElement := .mk "pic" [] ((values order info.imageContainer).map writeImage)
  videoInterval := .mk "media_play" [] ((values order info.videoIntervalContainer).map (writeInterval order))
  imageInterval := .mk "pic_play" [] ((values order info.imageIntervalContainer).map (writeInterval order))
  files := by simp [writeXml, Element.element, Element.elements, Element.name]
  media := by simp [Element.element, Element.elements, Element.name]
  pic := by simp [Element.element, Element.elements, Element.name]
  media_play := by simp [writeXml, Element.element, Element.elements, Element.name]
  pic_play := by simp [writeXml, Element.element, Element.elements, Element.name]

/-- A policy that was parsed is read back as it was written. -/
theorem parseXml_writeXml {root : Element} {info : AdMediaInfo} (h : parseXml root = .ok info)
    (order : IterOrder NString) (rootName : String) : parseXml (writeXml order rootName info) = .ok info := by
  obtain ⟨s⟩ := exists_parseXml_ok.mp ⟨info,h⟩
  obtain ⟨info₀,h₀,hc,hi,_⟩ := parseXml_eq s
  cases h.symm.trans h₀
  obtain ⟨info',h',hc',hi',hr',hv',ht'⟩ := parseXml_eq (writtenSections order rootName info)
  have hcontainer : ∀ m, info'.container m = info.container m := by
    intro m
    have hfiles : (writtenSections order rootName info).fileElements m =
        (values order (info.container m)).map (writeFile m) := by
      cases m <;> rfl
    rw [hc', hfiles]
    refine putAll_parsed (fun k v hv => ?_) fun k v hv => parseFile_writeFile ?_
    · rw [hc] at hv
      exact (putAll_id AdInfo.id _ hv).1
    · rintro rfl
      rw [hc] at hv
      obtain ⟨e,_,rfl⟩ := List.mem_map.mp (putAll_id AdInfo.id _ hv).2
      rfl
  have hinterval : ∀ m, info'.intervalContainer m = info.intervalContainer m := by
    intro m
    have hintervals : (writtenSections order rootName info).intervalElements m =
        (values order (info.intervalContainer m)).map (writeInterval order) := by
      cases m <;> rfl
    rw [hi', hintervals]
    refine putAll_parsed (fun k v hv => ?_) fun k v _ => parseInterval_writeInterval v
    rw [hi] at hv
    exact (putAll_id OneInterval.id _ hv).1
  have hattr : ∀ key, (writeXml order rootName info).attributeValue key =
      ([("resolution",info.resolution),("ver",info.ver),("templet",info.templet)].lookup key).join :=
    fun key => attributeValue_attributes (by simp) _ key _
  rw [h', AdMediaInfo.eq_of_containers hcontainer hinterval ?_ ?_ ?_]
  · rw [hr', hattr]
    simp
  · rw [hv', hattr]
    simp [List.lookup_cons]
  · rw [ht', hattr]
    simp [List.lookup_cons]

/-- Nothing of a document with distinct ids is lost: the policy says what its sections say, in
whatever order they list it, and is the same when it is written back and parsed again. -/
theorem parseXml_lossless {root : Element} (s : Sections root) (hs : s.Distinct) :
    ∃ info, parseXml root = .ok info ∧ info.Says s ∧
      (∀ (root' : Element) (s' : Sections root'), s.Permuted s' → parseXml root' = .ok info) ∧
      ∀ order rootName, parseXml (writeXml order rootName info) = .ok info := by
  obtain ⟨info,h⟩ := exists_parseXml_ok.mpr ⟨s⟩
  refine ⟨info,h,says_of_distinct hs h,fun root' s' hp => ?_,parseXml_writeXml h⟩
  rw [← parseXml_permuted hs hp, h]

/-- A document with two videos and an interval for both. -/
def twoVideos : Element :=
  .mk "policy" [("ver","1")]
    [.mk "files" [] [.mk "media" [] [.mk "file" [("id","1"),("file","a.mp4")] [],
        .mk "file" [("id","2"),("file","b.mp4"),("voice","on")] []],.mk "pic" [] []],
      .mk "media_play" [] [.mk "interval" [("ID","7"),("begin","08:00:00"),("end","09:00:00")]
        [.mk "file" [("file","1")] [],.mk "file" [("file","2")] []]],
      .mk "pic_play" [] []]

def twoVideosSections : Sections twoVideos where
  filesElement := .mk "files" [] [.mk "media" [] [.mk "file" [("id","1"),("file","a.mp4")] [],
    .mk "file" [("id","2"),("file","b.mp4"),("voice","on")] []],.mk "pic" [] []]
  mediaElement := .mk "media" [] [.mk "file" [("id","1"),("file","a.mp4")] [],
    .mk "file" [("id","2"),("file","b.mp4"),("voice","on")] []]
  pictureElement := .mk "pic" [] []
  videoInterval := .mk "media_play" [] [.mk "interval" [("ID","7"),("begin","08:00:00"),("end","09:00:00")]
    [.mk "file" [("file","1")] [],.mk "file" [("file","2")] []]]
  imageInterval := .mk "pic_play" [] []
  files := by simp [twoVideos, Element.element, Element.elements, Element.name]
  media := by simp [Element.element, Element.elements, Element.name]
  pic := by simp [Element.element, Element.elements, Element.name]
  media_play := by simp [twoVideos, Element.element, Element.elements, Element.name]
  pic_play := by simp [twoVideos, Element.element, Element.elements, Element.name]

theorem parseXml_lossless_twoVideos : ∃ info, parseXml twoVideos = .ok info ∧ info.Says twoVideosSections ∧
    (∀ (root' : Element) (s' : Sections root'), twoVideosSections.Permuted s' → parseXml root' = .ok info) ∧
    ∀ order rootName, parseXml (writeXml order rootName info) = .ok info := by
  apply parseXml_lossless twoVideosSections
  intro m
  cases m <;> decide

end
end AdSystem.Policy
