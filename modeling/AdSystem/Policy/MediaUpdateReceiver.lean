import AdSystem.Library.Batches
import AdSystem.Library.Transition
import AdSystem.Policy.MediaStrategyMgr

/-! # Updating the policy

A receiver compares a fetched policy with the active one, starts the downloads of
the new ids and counts their completions kind by kind. The last completion of a
kind cuts over to the new container and deletes the files of the dropped ids.
-/
namespace AdSystem.Policy
open Iteration

structure Receiver where
  newMediaInfo : AdMediaInfo
  downloadSet : Media → Finset NString
  deleteSet : Media → Finset NString
  totalTaskNum : Media → ℕ
  finishedNum : Media → ℕ

def process (oldMedia newMedia : AdMediaInfo) : Receiver where
  newMediaInfo := newMedia
  downloadSet m := getSetDifference (newMedia.container m).keys (oldMedia.container m).keys
  deleteSet m := getSetDifference (oldMedia.container m).keys (newMedia.container m).keys
  totalTaskNum m := (getSetDifference (newMedia.container m).keys (oldMedia.container m).keys).card
  finishedNum _ := 0

structure Download where
  receiver : ℕ
  media : Media
  id : NString
  deriving DecidableEq, Repr

/-- The callback object a download reports to. -/
def Download.target (d : Download) : ℕ × Media := (d.receiver,d.media)

def fileServer : String := "http://117.158.178.198:8010/media/"

namespace Receiver

/-- The downloads started by `process`, all videos first. -/
def downloads (order : IterOrder NString) (r : Receiver) (k : ℕ) : List Download :=
  [Media.video,Media.image].flatMap fun m => (order.list (r.downloadSet m)).map fun id => ⟨k,m,id⟩

def resName (r : Receiver) (d : Download) : NString :=
  ((r.newMediaInfo.container d.media).lookup d.id).bind AdInfo.filename

def resUrl (r : Receiver) (d : Download) : String := fileServer ++ text (r.resName d)

/-- The count of `onDownloadFinished`, and whether it calls the cut-over. -/
def onDownloadFinished (r : Receiver) (m : Media) : Receiver × Bool :=
  let finished := r.finishedNum m + 1
  ({ r with finishedNum := Function.update r.finishedNum m finished },
    decide (r.totalTaskNum m ≤ finished))

end Receiver

section CutOver
variable (mMediaPath : String) (order : IterOrder NString)

/-- Delete the files of the ids, in order, until an id has no entry; then the loop throws. -/
def deleteLoop (container : Container) : List NString → Storage → Storage × Bool
  | [], storage => (storage,true)
  | id :: ids, storage =>
    match container.lookup id with
    | none => (storage,false)
    | some entry => deleteLoop container ids (storage.delete (mediaFile mMediaPath entry.filename))

/-- `videoDownloadFinished` and `imageDownloadFinished`; `false` when it throws. -/
def Device.downloadFinished (d : Device) (m : Media) (r : Receiver) : Device × Bool :=
  let container := d.adMediaInfo.container m
  let adMediaInfo := d.adMediaInfo.setContainer m (r.newMediaInfo.container m)
  -- the player, if there is one, takes its list from the policy just changed
  let list := (d.playlist m).map fun _ => getList mMediaPath order adMediaInfo m
  let deleted := deleteLoop mMediaPath container (order.list (r.deleteSet m)) d.storage
  ({ d with adMediaInfo, playlist := Function.update d.playlist m list, storage := deleted.1 },deleted.2)

def videoDownloadFinished (d : Device) (r : Receiver) : Device × Bool :=
  d.downloadFinished mMediaPath order .video r

def imageDownloadFinished (d : Device) (r : Receiver) : Device × Bool :=
  d.downloadFinished mMediaPath order .image r

end CutOver

/-- The receivers of a process with the downloads in progress. -/
structure Updates where
  device : Device
  receivers : List Receiver
  downloads : List Download
  crashed : Bool

def Updates.ofDevice (device : Device) : Updates := ⟨device,[],[],false⟩

inductive UpdateAction where
  | fetched (xmlText : String)
  /-- A download has left its file and calls back. -/
  | finished (d : Download)

namespace Updates
variable (mMediaPath : String) (order : IterOrder NString)
  (parse : String → Except Thrown (Option AdMediaInfo))

/-- The handler of a fetched text; a policy that is null or incomplete makes it throw. -/
def fetched (s : Updates) (xmlText : String) : Updates :=
  match parse xmlText with
  | .ok (some newMediaInfo) =>
    let r := process s.device.adMediaInfo newMediaInfo
    { s with
      device := { s.device with saved := some xmlText },
      receivers := s.receivers ++ [r],
      downloads := s.downloads ++ r.downloads order s.receivers.length }
  | _ => { s with crashed := true }

def finish (s : Updates) (d : Download) (r : Receiver) : Updates :=
  let landed := { s.device with storage := s.device.storage.land (mediaFile mMediaPath (r.resName d)) }
  let counted := r.onDownloadFinished d.media
  let done := if counted.2 then landed.downloadFinished mMediaPath order d.media r else (landed,true)
  { device := done.1, receivers := s.receivers.set d.receiver counted.1,
    downloads := s.downloads.erase d, crashed := !done.2 }

def step (s : Updates) : UpdateAction → Option Updates
  | .fetched xmlText => if s.crashed then none else some (s.fetched order parse xmlText)
  | .finished d =>
    if s.crashed = false ∧ d ∈ s.downloads then
      s.receivers[d.receiver]?.map (s.finish mMediaPath order d)
    else none

def cutOvers (s : Updates) : UpdateAction → List (ℕ × Media)
  | .fetched _ => []
  | .finished d =>
    match s.receivers[d.receiver]? with
    | some r => if (r.onDownloadFinished d.media).2 then [d.target] else []
    | none => []

end Updates
end AdSystem.Policy
