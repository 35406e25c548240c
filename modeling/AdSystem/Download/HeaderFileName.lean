import AdSystem.Library.Fallible
import AdSystem.Library.Regex
import AdSystem.Download.DownloadService

/-! # The file name in the headers

Without a name from its caller or in the link, an init thread asks the connection for one.
`getFileName` goes through the header fields from field 0 on, which is the status line: it
has a value and no key. What is read from a header is read in lower case.
-/
namespace AdSystem.Download
open Regex Fallible

inductive HeaderThrown where
  | nullPointer
  deriving DecidableEq, Repr

/-- What `getHeaderFieldKey` and `getHeaderField` return for one index; null beyond the last. -/
structure HeaderField where
  key : Option String
  value : Option String
  deriving DecidableEq, Repr

section GetFileName
variable (toLowerCase : String → String) (isLineTerminator : Char → Bool)

/-- `.*filename=(.*)`. -/
def filenamePattern : Pattern Char :=
  .star (fun c => !isLineTerminator c) ::
    (literal "filename=".toList ++ [.group fun c => !isLineTerminator c])

/-- `group(1)` of a match in a value. -/
def findFileName (value : String) : Option String :=
  (find (filenamePattern isLineTerminator) (toLowerCase value).toList).map fun groups =>
    String.ofList (groups.getD 0 [])

/-- The loop, over the fields from its index on: the name found, or null after a break. -/
def scanFields : List HeaderField → Except HeaderThrown (Option String)
  | [] => .ok none
  | field :: fields =>
    match field.value with
    | none => .ok none
    | some mine =>
      match field.key with
      | none => .error .nullPointer
      | some key =>
        if toLowerCase key = "content-disposition" then
          match findFileName toLowerCase isLineTerminator mine with
          | some fileName => .ok (some fileName)
          | none => scanFields fields
        else scanFields fields

def getFileName (conn : List HeaderField) (randomUUID : String) : Except HeaderThrown String :=
  (scanFields toLowerCase isLineTerminator conn).map fun found => found.getD (randomUUID ++ ".tmp")

/-- The name of the caller, or of the link. -/
def givenFileName (taskInfo : TaskInfo) : Option String :=
  if isEmpty taskInfo.fileName then some (lastSegment taskInfo.url) else taskInfo.fileName

/-- The name given, or the one of the headers. -/
def chooseFileName (taskInfo : TaskInfo) (conn : List HeaderField) (randomUUID : String) :
    Except HeaderThrown (Option String) :=
  if isEmpty (givenFileName taskInfo) then
    (getFileName toLowerCase isLineTerminator conn randomUUID).map some
  else .ok (givenFileName taskInfo)

/-- `InitThread.run`, with the `headerName` of its answer looked up. -/
def initThreadRunWith (taskInfo : TaskInfo) (answer : InitAnswer) (conn : List HeaderField)
    (randomUUID : String) : Except HeaderThrown (Option TaskInfo) :=
  if answer.responseCode = httpOk ∧ 0 < answer.contentLength then
    let filePath := if isEmpty taskInfo.filePath then some answer.defaultPath else taskInfo.filePath
    (chooseFileName toLowerCase isLineTerminator taskInfo conn randomUUID).map fun fileName =>
      some { taskInfo with lenght := answer.contentLength, filePath, fileName }
  else .ok none

/-- A response as `HttpURLConnection` reports it: the status line, then the fields. -/
def response (statusLine : String) (fields : List (String × String)) : List HeaderField :=
  ⟨none,some statusLine⟩ :: fields.map fun field => ⟨some field.1,some field.2⟩

/-- The name is the filename parameter, however it is read from a value, of the first
`Content-Disposition` that has one, or else generated. -/
def FindsFileName (filenameParameter : String → Option String) (statusLine : String)
    (fields : List (String × String)) (randomUUID : String) : Prop :=
  getFileName toLowerCase isLineTerminator (response statusLine fields) randomUUID =
    .ok ((fields.findSome? fun field =>
      if toLowerCase field.1 = "content-disposition" then filenameParameter field.2 else none).getD
        (randomUUID ++ ".tmp"))

section
variable {toLowerCase : String → String} {isLineTerminator : Char → Bool}

/-- Between fields with keys, the loop finds the first name there is, in lower case. -/
theorem scanFields_pairs (fields : List (String × String)) :
    scanFields toLowerCase isLineTerminator (fields.map fun field => ⟨some field.1,some field.2⟩) =
      .ok (fields.findSome? fun field =>
        if toLowerCase field.1 = "content-disposition" then findFileName toLowerCase isLineTerminator field.2
        else none) := by
  induction fields with
  | nil => rfl
  | cons field fields ih =>
    rw [List.map_cons, scanFields, List.findSome?_cons]
    dsimp only
    by_cases hkey : toLowerCase field.1 = "content-disposition"
    · rw [if_pos hkey, if_pos hkey]
      cases findFileName toLowerCase isLineTerminator field.2 with
      | none => exact ih
      | some fileName => rfl
    · rw [if_neg hkey, if_neg hkey]
      exact ih

/-- What is found follows a `filename=` of the value in lower case, up to the end of its line. -/
theorem findFileName_eq_some {value fileName : String}
    (h : findFileName toLowerCase isLineTerminator value = some fileName) :
    ∃ u w, (toLowerCase value).toList = u ++ ("filename=".toList ++ w) ∧
      fileName = String.ofList (w.takeWhile fun c => !isLineTerminator c) := by
  obtain ⟨groups,hgroups,rfl⟩ := Option.map_eq_some_iff.mp h
  obtain ⟨u,w,hvalue,rfl⟩ := find_after_literal hgroups
  exact ⟨u,w,hvalue,rfl⟩

theorem findFileName_eq_none {value : String} : findFileName toLowerCase isLineTerminator value = none ↔
    ¬ "filename=".toList <:+: (toLowerCase value).toList := by
  rw [findFileName, Option.map_eq_none_iff]
  exact find_after_literal_eq_none_iff

theorem getFileName_response (statusLine : String) (fields : List (String × String)) (randomUUID : String) :
    getFileName toLowerCase isLineTerminator (response statusLine fields) randomUUID = .error .nullPointer := rfl

/-- A run that returns is one of the machine's, for some name that the headers may hold. -/
theorem initThreadRunWith_eq_ok {taskInfo : TaskInfo} {answer : InitAnswer} {conn : List HeaderField}
    {randomUUID : String} {r : Option TaskInfo}
    (h : initThreadRunWith toLowerCase isLineTerminator taskInfo answer conn randomUUID = .ok r) :
    ∃ headerName, initThreadRun taskInfo { answer with headerName } = r := by
  rw [initThreadRunWith] at h
  by_cases hanswer : answer.responseCode = httpOk ∧ 0 < answer.contentLength
  · rw [if_pos hanswer, map_eq_ok] at h
    obtain ⟨fileName,hchoose,rfl⟩ := h
    rw [chooseFileName] at hchoose
    split_ifs at hchoose with hempty
    · obtain ⟨headerName,_,rfl⟩ := map_eq_ok.mp hchoose
      exact ⟨headerName,by rw [initThreadRun, if_pos hanswer, ← givenFileName]; simp only [hempty, if_true]⟩
    · cases hchoose
      exact ⟨answer.headerName,by rw [initThreadRun, if_pos hanswer, ← givenFileName]; simp only [hempty]; rfl⟩
  · rw [if_neg hanswer, Except.ok.injEq] at h
    exact ⟨answer.headerName,by rw [initThreadRun, if_neg hanswer, h]⟩

/-- A thread that needs the name from the headers of a response ends by an exception that it
does not catch. -/
theorem initThreadRunWith_throws {taskInfo : TaskInfo} {answer : InitAnswer} {statusLine : String}
    {fields : List (String × String)} {randomUUID : String}
    (hanswer : answer.responseCode = httpOk ∧ 0 < answer.contentLength)
    (hgiven : isEmpty (givenFileName taskInfo) = true) :
    initThreadRunWith toLowerCase isLineTerminator taskInfo answer (response statusLine fields) randomUUID =
      .error .nullPointer := by
  rw [initThreadRunWith, if_pos hanswer, chooseFileName, if_pos hgiven]
  rfl

end

/-- No response has its file name found: the status line stops the search. -/
theorem not_findsFileName (filenameParameter : String → Option String) (statusLine : String)
    (fields : List (String × String)) (randomUUID : String) :
    ¬ FindsFileName toLowerCase isLineTerminator filenameParameter statusLine fields randomUUID := by
  intro h
  rw [FindsFileName, getFileName_response] at h
  cases h

end GetFileName

/-- The name `Ad.mp4` of a `Content-Disposition` is not found. -/
theorem not_findsFileName_ad :
    ¬ ∀ (toLowerCase : String → String) (isLineTerminator : Char → Bool)
      (filenameParameter : String → Option String) (statusLine : String) (fields : List (String × String))
      (randomUUID : String),
      FindsFileName toLowerCase isLineTerminator filenameParameter statusLine fields randomUUID := by
  intro h
  have hfound := h String.toLower (fun c => c = '\n' ∨ c = '\r') (fun value => some (value.drop 21).toString)
    "HTTP/1.1 200 OK" [("Content-Disposition","attachment; filename=Ad.mp4")] "uuid"
  cases hfound

/-- Without the status line it is found, in lower case. -/
example : getFileName String.toLower (fun c => c = '\n' ∨ c = '\r')
    [⟨some "Content-Disposition",some "attachment; filename=Ad.mp4"⟩] "uuid" = .ok "ad.mp4" := by
  decide +kernel

end AdSystem.Download
