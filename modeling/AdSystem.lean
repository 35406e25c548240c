import AdSystem.Library.Transition
import AdSystem.Library.SignedWord
import AdSystem.Library.ByteFile
import AdSystem.Library.Slices
import AdSystem.Library.Pool
import AdSystem.Download.ThreadDao
import AdSystem.Download.DownloadTask
import AdSystem.Download.Segments
import AdSystem.Download.TaskSession
import AdSystem.Download.FinishedFile
import AdSystem.Download.SessionSafety
import AdSystem.Download.SingleThread
import AdSystem.Download.DownloadService
import AdSystem.Download.ServiceInvariant
import AdSystem.Download.ServiceExclusion
import AdSystem.Download.ServiceLiveness
import AdSystem.Download.ServiceCallbacks
import AdSystem.Download.DownloadManager
import AdSystem.Download.BindHandover
import AdSystem.Download.DatabaseSharing
import AdSystem.Library.Tiling
import AdSystem.Download.RowInserts
import AdSystem.Download.RowLayout
import AdSystem.Download.SegmentTiling
import AdSystem.Download.ResumedBytes
import AdSystem.Library.Iteration
import AdSystem.Policy.AdMediaInfo
import AdSystem.Policy.MediaStrategyMgr
import AdSystem.Library.Batches
import AdSystem.Policy.MediaUpdateReceiver
import AdSystem.Policy.CutOver
import AdSystem.Policy.CutOverTiming
import AdSystem.Policy.ReferencedFiles
import AdSystem.Policy.RestartEquivalence
import AdSystem.Policy.CutOverSequence
import AdSystem.Policy.LostUpdates
import AdSystem.Policy.OverlappingUpdates
import AdSystem.Library.Fallible
import AdSystem.Policy.SavedPolicy
import AdSystem.Policy.PolicyDocument
import AdSystem.Policy.PolicyWriter
import AdSystem.Policy.ActiveInterval
import AdSystem.Policy.PolicyInMemory
import AdSystem.Library.Rotation
import AdSystem.Policy.PlayOrder
import AdSystem.Library.Query
import AdSystem.Library.MonotoneScale
import AdSystem.Schedule.FileListMgr
import AdSystem.Schedule.AdVideoCtrl
import AdSystem.Schedule.AdImageCtrl
import AdSystem.Schedule.VideoCursor
import AdSystem.Schedule.VideoPlayback
import AdSystem.Schedule.ScheduledList
import AdSystem.Schedule.DownloadReceivers
import AdSystem.Schedule.BatchCounting
import AdSystem.Schedule.Redelivery
import AdSystem.Schedule.CurrentTime
import AdSystem.Schedule.AlarmUtil
import AdSystem.Schedule.IntervalTimes
import AdSystem.Library.Writes
import AdSystem.Schedule.AlarmCoverage
import AdSystem.Library.Ledger
import AdSystem.Schedule.AlarmSlots
import AdSystem.Schedule.FileDeletion
import AdSystem.Schedule.MessageReceivers
import AdSystem.Schedule.MessageDispatcher
import AdSystem.Library.Regex
import AdSystem.Schedule.FolderScan
import AdSystem.Download.HeaderFileName
import AdSystem.Library.Heap
import AdSystem.Camera.UVCCamera
import AdSystem.Camera.UVCCameraEnumerator
import AdSystem.Camera.FramePath
import AdSystem.Camera.UVCCameraVideoCapturer
import AdSystem.Camera.CaptureSession
import AdSystem.Camera.CameraCalls
import AdSystem.Library.Registers
import AdSystem.Sensor.Rc522
import AdSystem.Sensor.AnswerLength
import AdSystem.Sensor.Anticollision
import AdSystem.Sensor.CardNumber
import AdSystem.Sensor.DriverHandles
import AdSystem.Library.LocalArray
import AdSystem.Sensor.NativeReads
import AdSystem.Sensor.StatusReport
import AdSystem.Library.BigEndian
import AdSystem.Stream.StartCode
import AdSystem.Stream.NalSplit
import AdSystem.Stream.RawH264
import AdSystem.Stream.AvcDemux
import AdSystem.Stream.VideoRoundTrip
import AdSystem.Stream.VideoDelivery
import AdSystem.Stream.RawAac
import AdSystem.Stream.AacDemux
import AdSystem.Stream.SoundDelivery
import AdSystem.Stream.AnyRtmpPush
import AdSystem.Library.Clock
import AdSystem.Library.Observer
import AdSystem.Stream.PushRuns
import AdSystem.Stream.PushQueue
import AdSystem.Stream.LiveConnection
import AdSystem.Stream.ConnectionRuns
import AdSystem.Stream.ParameterSets
import AdSystem.Library.Grouping
import AdSystem.Library.Skipping
import AdSystem.Camera.UvcStream
import AdSystem.Camera.FrameAssembly
import AdSystem.Camera.CameraFrames
import AdSystem.Camera.FrameCallback
import AdSystem.Stream.PlyBuffer
import AdSystem.Stream.PlayerRuns
import AdSystem.Stream.PlayerQueues
import AdSystem.Camera.PreviewRuns
