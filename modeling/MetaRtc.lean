import MetaRtc.Rtcp.Framing
import MetaRtc.Rtcp.Bounds
import MetaRtc.Rtcp.Denoted
import MetaRtc.Rtcp.Atomic
import MetaRtc.Rtcp.TwccRoundTrip
import MetaRtc.Publish.Resend
import MetaRtc.Session.Dispatch
import MetaRtc.Session.Once
import MetaRtc.Session.Connection
import MetaRtc.Session.SenderReport
import MetaRtc.Session.RoundTripTime
import MetaRtc.Session.Bandwidth
import MetaRtc.Play.Pending
import MetaRtc.Play.Sweep
import MetaRtc.Play.SortBuffer
import MetaRtc.Play.Untouched
import MetaRtc.Play.Ring
import MetaRtc.Play.Whole
import MetaRtc.Play.Proper
import MetaRtc.Play.Room
import MetaRtc.Play.Reported
import MetaRtc.Play.Stream
import MetaRtc.Play.ReceiverReport
import MetaRtc.Play.Track
import MetaRtc.Play.H265
import MetaRtc.Play.H264
import MetaRtc.Publish.Fragments
import MetaRtc.Publish.Twcc
import MetaRtc.Rtp.RoundTrip
import MetaRtc.Ice.Channels
import MetaRtc.Ice.Bound
import MetaRtc.Ice.Nonce
import MetaRtc.Ice.Holders
import MetaRtc.Ts.Packets
import MetaRtc.Ts.RoundTrip
import MetaRtc.Rtmp.Reassembly
import MetaRtc.Sdp.LineEnds
import MetaRtc.Sdp.LinesFit
import MetaRtc.Sdp.Candidates
import MetaRtc.Sorted
import MetaRtc.Rtp.FastTwcc
import MetaRtc.Rtp.PacketBounds
import MetaRtc.Rtp.FastAgrees
import MetaRtc.Play.Aggregates
import MetaRtc.Play.Orders
import MetaRtc.Rtcp.Encode
import MetaRtc.Session.XrBlocks
import MetaRtc.Play.AudioFrames
import MetaRtc.Publish.MediaBuffer
import MetaRtc.Session.Locks
import MetaRtc.Ice.Integrity
import MetaRtc.Ice.Datagrams
import MetaRtc.Ice.StunDecode
import MetaRtc.Ice.BindingResponse
import MetaRtc.Ts.Headers
import MetaRtc.Video.AnnexB
import MetaRtc.Video.Emulation
import MetaRtc.Video.NalWalk
import MetaRtc.Video.SpsParse
import MetaRtc.Video.SpsPps
import MetaRtc.Ice.Fingerprint
import MetaRtc.Rtcp.Packer
import MetaRtc.SortedMemory
import MetaRtc.Sdp.Strings
import MetaRtc.Play.RequestFits
import MetaRtc.Play.Recursion
import MetaRtc.Signal.Url
import MetaRtc.Signal.SrsAnswer
import MetaRtc.Signal.HttpSplits
import MetaRtc.Rtmp.AmfEncode
import MetaRtc.Rtmp.AmfDecode
import MetaRtc.Rtmp.Sent
