import Goav.Av.Rescale
import Goav.Clock.Timeline
import Goav.Compile.Preference
import Goav.Compile.WorkPlan
import Goav.Flow.Sync
import Goav.Format.DemuxWindow
import Goav.H264.Scanners
import Goav.H265.Escape
import Goav.Join.Align
import Goav.Join.EndOfStream
import Goav.Join.Mix
import Goav.Kit.AnnexBMuxer
import Goav.Matroska.Void
import Goav.Mp4.BoxWalk
import Goav.Mp4.DecodeOrder
import Goav.Mp4.Demux
import Goav.Mp4.FragmentSamples
import Goav.Pipeline.Drop
import Goav.Pipeline.Flush
import Goav.Pipeline.FlushDownstream
import Goav.Pipeline.Readiness
import Goav.Pipeline.RingQueue
import Goav.Pipeline.Stats
import Goav.Pipeline.TimeOrder
import Goav.Pipeline.UpstreamFirst
import Goav.Player.SeekCut
import Goav.Rtpav.Feedback
import Goav.Rtpav.H264Loss
import Goav.Rtpav.SendHistory
import Goav.Rtpav.Sequence
import Goav.Rtpav.SourceRoom
import Goav.Rtpav.VideoBlocks
import Goav.Scheme.HttpVersion
import Goav.Webrtcav.Track
import Goav.Webrtcav.TrackUpdates
