import En675.Lib.Bytes
import En675.Lib.Ring
import En675.Lib.Word

/-! The slot of one RTSP client and what hangs off it.  Fields no modelled function
reads or writes are left out. -/

namespace En675.Rtsp

open Lib

scoped instance neZero_two : NeZero 2 := ⟨Nat.succ_ne_zero 1⟩

scoped instance neZero_three : NeZero 3 := ⟨Nat.succ_ne_zero 2⟩

inductive RtspMethod
  | options | describe | setup | play | pause | teardown | getParameter | setParameter
  deriving DecidableEq, Repr

inductive RtspClientState
  | none | options | describe | setup | play | pause | teardown | getParameter | setParameter
  | error
  deriving DecidableEq, Repr

inductive RtspStream
  | fileH264 | fileH265 | live | liveH264_1 | liveH264_2 | liveH265_1 | liveH265_2 | liveJpeg
  | liveJpegSw | none | error
  deriving DecidableEq, Repr

inductive RtspTransport
  | none | udp | tcp | http
  deriving DecidableEq, Repr

/-- `unset` is the zero a fresh `rtp_session` is allocated with. -/
inductive RtpTxstate
  | unset | ready | doing | ended
  deriving DecidableEq, Repr

def strtypeNone : Nat := 0
def strtypeVideo : Nat := 1
def strtypeAudio : Nat := 2

def strtypeNumVideo : Nat := 0
def strtypeNumAudio : Nat := 1
def strtypeNumNone : Nat := 2

structure RtpQueueData where
  addr : Nat
  size : Nat
  flags : Nat
  ts : Nat
  deriving DecidableEq, Repr

abbrev RtpQueue := RingQueue RtpQueueData

structure RtpPacket where
  base : Nat
  size : Nat
  offset : Nat
  width : Nat
  height : Nat
  dataOffset : Nat
  nalfirst : Nat
  naltype : Nat
  nalidc : Nat
  nalnum : Nat
  nalunithdr : Nat
  deriving DecidableEq, Repr

/-- `buffer i` is the first `buf_len[i]` octets of the `i`-th send buffer. -/
structure RtpSession where
  txReady : RtpTxstate
  rtpPk : RtpPacket
  payloadType : Nat
  ssrc : Nat
  startRtptime : Nat
  startSeq : Nat
  packetCnt : Nat
  totalLength : Nat
  buffer : Fin 2 → List UInt8
  bufIdx : Fin 2

def RtpSession.bufLen (ss : RtpSession) : Nat := (ss.buffer ss.bufIdx).length

/-- The block `pvPortCalloc(ENX_RTSP_STRTYPE_numNONE, sizeof(rtp_session))`. -/
structure RtpSs where
  video : RtpSession
  audio : RtpSession

structure RtspConnectInfo where
  videoType : RtspStream
  rtpType : RtspTransport
  rtpPort : Fin 2 → Nat
  rtcpPort : Fin 2 → Nat

structure RtspClient where
  index : Nat
  clientid : Int
  login : Bool
  state : RtspClientState
  connInfo : RtspConnectInfo
  rtpQueueVideo : RtpQueue
  /-- The pointer to the queue; a stray port store can reach it. -/
  rtpQueueVideoAddr : Nat
  nVEncoderIdx : Int
  isLive : RtspStream
  nSession : Int
  playQuery : Nat
  eTransport : RtspTransport
  rtpSs : Option RtpSs
  nCSeq : Int
  method : RtspMethod
  strUrl : List UInt8
  strVersion : List UInt8
  isAccept : Bool
  isTransport : Bool
  setupQuery : Nat
  nQuery : Nat

section zeroed

/-! What `pvPortCalloc` and `memset` leave. -/

def RtpPacket.zero : RtpPacket := ⟨0, 0, 0, 0, 0, 0, 0, 0, 0, 0, 0⟩

def RtpSession.zero : RtpSession :=
  ⟨.unset, .zero, 0, 0, 0, 0, 0, 0, fun _ => [], 0⟩

def RtpSs.zero : RtpSs := ⟨.zero, .zero⟩

/-- `rtp_queue_init` followed by `rtp_queue_freebuffer`. -/
def rtpQueueInit (totNum : Nat) : RtpQueue := ⟨0, 0, totNum, fun _ => ⟨0, 0, 0, 0⟩⟩

def RtspClient.zero : RtspClient where
  index := 0
  clientid := 0
  login := false
  state := .none
  connInfo := ⟨.fileH264, .none, fun _ => 0, fun _ => 0⟩
  rtpQueueVideo := rtpQueueInit 60
  rtpQueueVideoAddr := 0
  nVEncoderIdx := 0
  isLive := .fileH264
  nSession := 0
  playQuery := 0
  eTransport := .none
  rtpSs := none
  nCSeq := 0
  method := .options
  strUrl := []
  strVersion := []
  isAccept := false
  isTransport := false
  setupQuery := 0
  nQuery := 0

end zeroed

def RtspClient.withVideo (rc : RtspClient) (ss : RtpSs) (q : RtpQueue) (v : RtpSession) :
    RtspClient :=
  { rc with rtpSs := some { ss with video := v }, rtpQueueVideo := q }

def tcpMss : Nat := 1460

section queue

def rtpQueuePut (q : RtpQueue) (d : RtpQueueData) : RtpQueue := q.push d

def rtpQueueGet (q : RtpQueue) : Option (RtpQueueData × RtpQueue) :=
  if q.isEmpty then none else some (q.front, q.pop)

end queue

section headers

/-- `rthInterleaved`, 4 octets. -/
def rthInterleaved (channel length : Nat) : List UInt8 :=
  [0x24, UInt8.ofNat channel] ++ be 2 length

/-- `rthRTPHeader`, 12 octets: version 2, no padding, no extension, no CSRC. -/
def rthRTPHeader (marker : Bool) (payloadType seq ts ssrc : Nat) : List UInt8 :=
  [0x80, UInt8.ofNat ((if marker then 128 else 0) + payloadType % 128)] ++
    be 2 seq ++ be 4 ts ++ be 4 ssrc

@[simp] theorem length_rthInterleaved (c n : Nat) : (rthInterleaved c n).length = 4 := by
  simp [rthInterleaved]

@[simp] theorem length_rthRTPHeader (m : Bool) (p s t r : Nat) :
    (rthRTPHeader m p s t r).length = 12 := by
  simp [rthRTPHeader]

/-- Octets of the headers in front of the payload. -/
def headLen : RtspTransport → Nat
  | .udp => 12
  | _ => 4 + 12

/-- One packet: the interleaved header unless over UDP, the RTP header, the payload. -/
def rtpPacket (tr : RtspTransport) (channel : Nat) (ss : RtpSession) (last : Bool)
    (payload : List UInt8) : List UInt8 :=
  (if tr = .udp then [] else rthInterleaved channel (12 + payload.length)) ++
    rthRTPHeader last ss.payloadType ((ss.startSeq + 1) % 2 ^ 16) ss.startRtptime ss.ssrc ++ payload

/-- What every packetizer does with a payload: it fills the other send buffer, and once
`rtp_pk.offset` has reached `rtp_pk.size` it stores the marker and the end bit and goes
through `ENX_RTP_TXSTE_END`. -/
def rtpEmit (tr : RtspTransport) (channel : Nat) (ss : RtpSession) (pk : RtpPacket)
    (payload : Bool → List UInt8) : RtpSession :=
  let last := pk.offset == pk.size
  let idx := ss.bufIdx + 1
  { ss with
    rtpPk := pk
    startSeq := (ss.startSeq + 1) % 2 ^ 16
    bufIdx := idx
    buffer := Function.update ss.buffer idx (rtpPacket tr channel ss last (payload last))
    txReady := if last then .ready else .doing }

/-- What the packetizers return. -/
def rtpLeft (ss : RtpSession) : Int := asInt (usub ss.rtpPk.size ss.rtpPk.offset)

end headers

end En675.Rtsp
