import En675.Lib.AnnexB
import En675.Lib.Bytes
import En675.Lib.CString
import En675.Lib.Fifo
import En675.Lib.Fragment
import En675.Lib.Heap
import En675.Lib.Paged
import En675.Lib.Ring
import En675.Lib.Segment
import En675.Lib.SpinLock
import En675.Lib.Tally
import En675.Lib.Transition
import En675.Lib.Word
import En675.Core.MsgQueue
import En675.Core.MsgHeld
import En675.Core.MsgRuns
import En675.Core.MsgRec
import En675.Core.MsgStm
import En675.Rtsp.Define
import En675.Rtsp.RtpNal
import En675.Rtsp.RtpH264
import En675.Rtsp.RtpH265
import En675.Rtsp.RtpNalScan
import En675.Rtsp.RtpNalSend
import En675.Rtsp.RtpReceiver
import En675.Rtsp.TxRun
import En675.Rtsp.RtpJpeg
import En675.Rtsp.RtpQueue
import En675.Rtsp.Process
import En675.Rtsp.Response
import En675.Rtsp.Handled
import En675.Rtsp.Session
import En675.Rtsp.SessionId
import En675.Rtsp.Rejected
import En675.Rtsp.Receive
import En675.Rtsp.Server
import En675.Rtsp.Players
import En675.Rtsp.RtpPlay
import En675.Rtsp.Playing
import En675.Rtsp.Delivery
import En675.Rtsp.Slot
import En675.Rtsp.SlotSteps
import En675.Rtsp.SlotRuns
import En675.Rtsp.Freed
import En675.Rtsp.OneSender
import En675.Rtsp.Interleaved
import En675.Rtsp.KeepAlive
import En675.Dev.Eeprom
import En675.Net.EthRx
import En675.Uart.RxQue
import En675.Uart.Comm
import En675.Uart.CommFrames
import En675.Uart.UsrPar
import En675.Videnc.Define
import En675.Videnc.Muxer
import En675.Videnc.RollOver
import En675.Videnc.Buffer
import En675.Videnc.Write
import En675.Videnc.Sample
import En675.Videnc.Mp4
import En675.Videnc.Tables
import En675.Videnc.SampleTables
import En675.Videnc.FrameRate
import En675.Videnc.NameHeap
import En675.Videnc.Gop
import En675.Videnc.Handle
import En675.Videnc.FileList
import En675.Videnc.Codec
import En675.Videnc.JpegStill
import En675.Videnc.JpegBuf
import En675.Videnc.SdcardTask
import En675.Rtsp.Rtcp
import En675.Lib.While
import En675.Isp.AeCtrl
import En675.Isp.ShtPos
import En675.Isp.AeRange
import En675.Lib.Components
import En675.Isp.Imd
import En675.Isp.ImdLabels
import En675.Isp.ImdBoxes
import En675.Isp.UsrPar
import En675.Isp.UsrParChg
import En675.Isp.UsrParCpy
import En675.Isp.UsrParSht
import En675.Isp.UsrParRestore
import En675.Lib.Scan
import En675.Net.EthTx
import En675.Net.MacFilter
import En675.Net.DefaultNetif
import En675.Net.ApList
import En675.Rtsp.ReadBounds
import En675.Rtsp.TrackIndex
import En675.Rtsp.Replies
import En675.Rtsp.NalCut
import En675.Rtsp.NalFinish
import En675.Rtsp.RtpTime
import En675.Rtsp.Refill
import En675.Rtsp.CaptureClock
import En675.Rtsp.RtpInfo
import En675.Lib.Settles
import En675.Isp.AeStage
import En675.Isp.AeDebt
import En675.Isp.AgcDrive
import En675.Isp.ShtDrive
import En675.Isp.AeDrive
import En675.Isp.AeRun
import En675.Isp.AeHandover
import En675.Isp.AeLadder
import En675.Lib.Base64
import En675.Rtsp.Authorization
import En675.Rtsp.Digest
import En675.Rtsp.DigestTotal
import En675.Rtsp.DigestParams
import En675.Lib.Boxes
import En675.Videnc.Header
import En675.Videnc.HeaderTree
import En675.Videnc.ParamRoom
import En675.Videnc.WriteBuf
import En675.Videnc.HvcC
import En675.Isp.StylePrevious
import En675.Isp.DZoom
import En675.Lib.Quota
import En675.Dev.Vsnprintf
import En675.Dev.VsnprintfRoom
import En675.Dev.Mcp2515
import En675.Http.Cgi
import En675.Http.CgiSettings
import En675.Http.FsFileList
import En675.Http.FsFileListRoom
import En675.Lib.Compar
import En675.Http.FsFileListOrder
import En675.Lib.Runs
import En675.Shell.Tokenize
import En675.Shell.Words
import En675.Shell.TokenizeWords
import En675.Shell.DoCommand
import En675.Shell.GetLine
import En675.Dev.Pcf8563
import En675.Lib.Alloc
import En675.Core.Heap5
import En675.Lib.Gather
import En675.Isp.CombineRect
import En675.Isp.ImdMasks
import En675.Lib.Maxima
import En675.Isp.MaskImd
import En675.Lib.Bisect
import En675.Dev.FloorSqrt
import En675.Lib.Lag
import En675.Isp.Iir
import En675.Lib.Recent
import En675.Isp.ErrCht
import En675.Lib.Knots
import En675.Isp.AutoGamma
import En675.Lib.Cursor
import En675.Isp.WdrCtrl
import En675.Isp.BoxImd
import En675.Isp.PrivacyBox
import En675.Isp.BoxLast
import En675.Lib.Decay
import En675.Lib.Latch
import En675.Lib.Radix
import En675.Isp.Awb
import En675.Isp.AwbRegs
import En675.Isp.AwbPreset
import En675.Isp.HexDec
import En675.Isp.Int2Str
import En675.Lib.FreeList
import En675.Lib.Load
import En675.Core.HeapBlocks
import En675.Core.HeapChain
import En675.Core.HeapCalls
import En675.Core.HeapBoot
import En675.Core.HeapRuns
import En675.Core.HeapSafe
import En675.Core.HeapRefines
import En675.Lib.Tlv
import En675.Lib.Keyed
import En675.Net.DhcpOptions
import En675.Net.DhcpLeases
import En675.Net.Dhcpd
import En675.Net.DhcpdRuns
import En675.Net.DhcpdSafe
import En675.Net.DhcpdReply
