import SrsChatRoom.Lib.Dict
import SrsChatRoom.Lib.NestedDict
import SrsChatRoom.Lib.System
import SrsChatRoom.Lib.EventLoop
import SrsChatRoom.Lib.Outcome
import SrsChatRoom.Lib.Bytes
import SrsChatRoom.Lib.SerialNumber
import SrsChatRoom.Kernel.Buffer
import SrsChatRoom.Kernel.Rtcp
import SrsChatRoom.Kernel.Rtp
import SrsChatRoom.Protocol.FastStream
import SrsChatRoom.Protocol.RtmpSend
import SrsChatRoom.Protocol.RtmpRecv
import SrsChatRoom.Protocol.RtmpRoundTrip
import SrsChatRoom.App.RtcQueue
import SrsChatRoom.Server.InvitationStore
import SrsChatRoom.Server.InvitationInvariant
import SrsChatRoom.Server.InvitationLifecycle
import SrsChatRoom.Server.InvitationWriter
import SrsChatRoom.Server.InvitationDurability
import SrsChatRoom.Server.InvitationStop
import SrsChatRoom.Server.TokenRevocation
import SrsChatRoom.Server.TokenListing
import SrsChatRoom.Server.UserManager
import SrsChatRoom.Server.RoomOwner
import SrsChatRoom.Server.Sanctions
import SrsChatRoom.Server.RoomHandlers
import SrsChatRoom.Server.RoomRoles
import SrsChatRoom.Server.TranslationManager
import SrsChatRoom.Server.TranslationIndexes
import SrsChatRoom.Server.TranslationHandlers
import SrsChatRoom.Server.TranslationRuns
import SrsChatRoom.Server.ConnectionManager
import SrsChatRoom.Server.Debouncer
import SrsChatRoom.Server.SyncClient
import SrsChatRoom.Server.Accounts
import SrsChatRoom.Server.AccountInvariant
import SrsChatRoom.Server.LogoutAll
import SrsChatRoom.Server.RequestIdentity
import SrsChatRoom.App.GopCache
import SrsChatRoom.App.MessageQueue
import SrsChatRoom.Protocol.FlvTransmuxer
import SrsChatRoom.Server.RoomDeletion
import SrsChatRoom.Kernel.NaluDemux
import SrsChatRoom.Kernel.NaluFormats
import SrsChatRoom.Kernel.NaluGuess
import SrsChatRoom.Kernel.NaluRoundTrip
import SrsChatRoom.Protocol.Amf0
import SrsChatRoom.Kernel.BufferRules
import SrsChatRoom.Protocol.Amf0Grammar
import SrsChatRoom.Protocol.Amf0Writer
import SrsChatRoom.Protocol.Amf0RoundTrip
import SrsChatRoom.Kernel.TsContext
import SrsChatRoom.Kernel.BufferPositions
import SrsChatRoom.Kernel.TsLayout
import SrsChatRoom.Kernel.TsDemux
import SrsChatRoom.Kernel.TsSafety
import SrsChatRoom.Kernel.Cursor
import SrsChatRoom.Protocol.Stun
import SrsChatRoom.App.RtcTcp
import SrsChatRoom.App.ResourceManager
import SrsChatRoom.App.SipRegistration
import SrsChatRoom.App.GbMuxer
import SrsChatRoom.App.GbMuxerQueue
import SrsChatRoom.App.GbMuxerHeaders
import SrsChatRoom.App.GbMuxerRuns
import SrsChatRoom.Kernel.Mp4Samples
import SrsChatRoom.Kernel.Mp4Loading
import SrsChatRoom.Kernel.Mp4RoundTrip
import SrsChatRoom.Kernel.Mp4Recording
import SrsChatRoom.Kernel.PsContext
import SrsChatRoom.App.GbMedia
import SrsChatRoom.Kernel.PsLayout
import SrsChatRoom.Kernel.PsSafety
import SrsChatRoom.App.GbMediaSafety
import SrsChatRoom.Protocol.RtmpPacket
import SrsChatRoom.Protocol.RtmpPacketRoundTrip
import SrsChatRoom.App.Statistic
import SrsChatRoom.App.StatisticCounts
import SrsChatRoom.App.Disposal
import SrsChatRoom.App.DisposalCallbacks
import SrsChatRoom.App.HlsMuxer
import SrsChatRoom.App.HlsPlaylist
import SrsChatRoom.App.HlsKeys
import SrsChatRoom.App.Sdp
import SrsChatRoom.App.SdpSafety
import SrsChatRoom.App.SdpLines
import SrsChatRoom.App.SdpRoundTrip
import SrsChatRoom.App.LiveSource
import SrsChatRoom.App.LiveSourceHeaders
import SrsChatRoom.Server.InvitationAccept
import SrsChatRoom.Server.SyncBackoff
import SrsChatRoom.Server.UserNames
import SrsChatRoom.App.Security
import SrsChatRoom.App.SecurityRules
import SrsChatRoom.Server.StreamNames
import SrsChatRoom.Lib.Json
import SrsChatRoom.Protocol.Json
import SrsChatRoom.Lib.Hex
import SrsChatRoom.Protocol.HttpHeader
import SrsChatRoom.Protocol.HttpWriter
import SrsChatRoom.Protocol.HttpReader
import SrsChatRoom.Protocol.HttpBodyRoundTrip
import SrsChatRoom.Protocol.HttpMux
import SrsChatRoom.Lib.FieldScan
import SrsChatRoom.Lib.SubText
import SrsChatRoom.Protocol.HttpUri
import SrsChatRoom.Protocol.HttpUriParsing
import SrsChatRoom.Protocol.StreamUrl
import SrsChatRoom.Protocol.StreamUrlRules
import SrsChatRoom.Protocol.StreamUrlSpellings
import SrsChatRoom.App.RtcBuilder
import SrsChatRoom.App.RtcExtendedSequence
import SrsChatRoom.App.RtcJitter
import SrsChatRoom.Kernel.BitBuffer
import SrsChatRoom.Protocol.RtmpHandshake
import SrsChatRoom.Kernel.Rbsp
import SrsChatRoom.Kernel.RtcpNack
import SrsChatRoom.App.RtcNackTimeout
import SrsChatRoom.Kernel.RtpHeader
import SrsChatRoom.Kernel.RtpTwcc
import SrsChatRoom.Kernel.RtpPacket
import SrsChatRoom.Kernel.RtpPacketRoundTrip
import SrsChatRoom.App.RtmpJitter
import SrsChatRoom.App.MixQueue
import SrsChatRoom.App.MpegpsQueue
import SrsChatRoom.App.Aggregate
import SrsChatRoom.Protocol.RawAvc
import SrsChatRoom.Protocol.ReceiveBuffer
import SrsChatRoom.Kernel.TsTables
import SrsChatRoom.Kernel.AvcConfig
import SrsChatRoom.Protocol.AvcSequenceHeader
import SrsChatRoom.Kernel.Crc
import SrsChatRoom.Protocol.StunResponse
import SrsChatRoom.Kernel.Mp4Boxes
import SrsChatRoom.Kernel.Mp4Segment
import SrsChatRoom.App.FastTimer
import SrsChatRoom.App.SrtStreamId
import SrsChatRoom.Kernel.Base64
import SrsChatRoom.Kernel.EncFileWriter
import SrsChatRoom.Kernel.Mp4SegmentLayout
import SrsChatRoom.Kernel.TsMessageCache
import SrsChatRoom.Protocol.HttpFile
import SrsChatRoom.Protocol.UrlEscape
import SrsChatRoom.Protocol.AccessUnit
import SrsChatRoom.Protocol.RawAac
import SrsChatRoom.Lib.Varint
import SrsChatRoom.Kernel.Base64Bits
import SrsChatRoom.Protocol.HttpAuth
import SrsChatRoom.Protocol.Protobuf
import SrsChatRoom.Protocol.RtmpSession
