import En675.Rtsp.Define

/-! The packetizers of `rtp_h264.c` and `rtp_h265.c`.  The two functions differ in
their header layouts, NAL types and scan windows only, which `NalCodec` collects. -/

namespace En675.Rtsp

open Lib

structure NalCodec where
  /-- How far the start-code scan and the parameter-set scan look. -/
  window : Nat
  /-- Octets of the NAL header that the first fragment drops. -/
  hdrLen : Nat
  /-- `sizeof(avcFUHeader)`, `sizeof(hevcFUHeader)`. -/
  fuLen : Nat
  readHdr : (Nat → UInt8) → RtpPacket → RtpPacket
  isSlice : Nat → Bool
  isParam : Nat → Bool
  fuHeader : RtpPacket → (start stop : Bool) → List UInt8
  /-- What a frame refused in `ENX_RTP_TXSTE_READY` returns. -/
  refused : RtpPacket → Int

/-- The NAL unit test: octets up to and including the first `00 00 01`, 0 when there
is none among the first `loop` positions. -/
def startCode (p : Nat → UInt8) : (n i : Nat) → Nat
  | 0, _ => 0
  | n + 1, i =>
    if p i == 0 && p (i + 1) == 0 && p (i + 2) == 1 then i + 3 else startCode p n (i + 1)

/-- The parameter-set size check: `j` counts the zeros just before position `i`. -/
def paramSize (p : Nat → UInt8) : (n i j : Nat) → Nat
  | 0, _, _ => 0
  | n + 1, i, j =>
    if p i == 0 then
      if p (i + 1) == 1 && 2 ≤ j + 1 then i + 1 - (j + 1) else paramSize p n (i + 1) (j + 1)
    else paramSize p n (i + 1) 0

def remainingOf : RtspTransport → Nat
  | .udp => tcpMss + 12
  | _ => tcpMss

/-- What the start-code test leaves behind for the rest of one call. -/
structure NalScan where
  nalzerocnt : Nat
  left : Nat
  fuSize : Nat
  spsppsSize : Nat
  pk : RtpPacket

def addrOf (mem : Mem) (pk : RtpPacket) : Nat → UInt8 :=
  fun i => mem (uadd pk.base pk.offset + i)

def nalScan (c : NalCodec) (mem : Mem) (tr : RtspTransport) (pk : RtpPacket) : NalScan :=
  let left := usub pk.size pk.offset
  let p := addrOf mem pk
  let nalzerocnt := if p 0 == 0 then startCode p (min left c.window) 0 else 0
  if nalzerocnt ≠ 0 then
    let pk := { pk with offset := uadd pk.offset nalzerocnt }
    let left := usub left nalzerocnt
    let p := addrOf mem pk
    let pk := c.readHdr p pk
    { nalzerocnt, left, pk
      fuSize := if c.isSlice pk.naltype && decide (left > remainingOf tr - headLen tr) then
        c.fuLen else 0
      spsppsSize := if !c.isSlice pk.naltype && c.isParam pk.naltype then
        paramSize p c.window 0 0 else 0 }
  else { nalzerocnt, left, pk, fuSize := c.fuLen, spsppsSize := 0 }

/-- The payload octets of one call before the end flags are known: the FU header is
added once `rtp_pk.offset` has moved. -/
structure NalCopy where
  fu : Bool
  start : Bool
  data : List UInt8
  pk : RtpPacket

def nalCopy (c : NalCodec) (mem : Mem) (tr : RtspTransport) (s : NalScan) : NalCopy :=
  if s.spsppsSize ≠ 0 then
    { fu := false, start := false
      data := mem.read (uadd s.pk.base s.pk.offset) s.spsppsSize
      pk := { s.pk with offset := uadd s.pk.offset s.spsppsSize } }
  else
    let fu := decide (s.fuSize ≠ 0)
    let start := fu && decide (s.nalzerocnt ≠ 0)
    let drop := if start then c.hdrLen else 0
    let offset := uadd s.pk.offset drop
    let left := usub s.left drop
    let remaining := min left (remainingOf tr - (headLen tr + s.fuSize))
    { fu, start
      data := mem.read (uadd s.pk.base offset) remaining
      pk := { s.pk with offset := uadd offset remaining
                        dataOffset := uadd s.pk.dataOffset remaining } }

def nalPayload (c : NalCodec) (k : NalCopy) (last : Bool) : List UInt8 :=
  (if k.fu then c.fuHeader k.pk k.start last else []) ++ k.data

/-- `case ENX_RTP_TXSTE_DOING`, falling through to `ENX_RTP_TXSTE_END`. -/
def nalDoing (c : NalCodec) (mem : Mem) (tr : RtspTransport) (channel : Nat)
    (ss : RtpSession) : RtpSession :=
  let k := nalCopy c mem tr (nalScan c mem tr ss.rtpPk)
  rtpEmit tr channel ss k.pk (nalPayload c k)

/-- `case ENX_RTP_TXSTE_READY` up to the gate: the frame is taken from the queue. -/
def nalTake (ss : RtpSession) (pd : RtpQueueData) : RtpSession :=
  { ss with
    rtpPk := { ss.rtpPk with base := pd.addr, size := pd.size, offset := 0 }
    startRtptime := uadd ss.startRtptime pd.ts }

/-- The gate: until a frame with `flags == 1` has been seen nothing is sent. -/
def nalAdmits (ss : RtpSession) (pd : RtpQueueData) : Bool :=
  ss.rtpPk.nalfirst ≠ 0 || pd.flags == 1

def nalOpen (ss : RtpSession) (pd : RtpQueueData) : RtpSession :=
  let ss' := nalTake ss pd
  { ss' with
    rtpPk := { ss'.rtpPk with
      nalfirst := if ss.rtpPk.nalfirst = 0 then 1 else ss.rtpPk.nalfirst }
    txReady := .doing }

/-- The common body of `rtspd_client_rtp_h264_main` and `rtspd_client_rtp_h265_main`;
`none` is the dereference of a null `rtp_ss`. -/
def rtspdClientRtpNalMain (c : NalCodec) (mem : Mem) (rc : RtspClient) :
    Option (Int × RtspClient) :=
  if rc.eTransport = .udp ∨ rc.eTransport = .tcp then
    rc.rtpSs.map fun s =>
      let channel := rc.connInfo.rtpPort 0
      match s.video.txReady with
      | .ready =>
        match rtpQueueGet rc.rtpQueueVideo with
        | none => (0, rc)
        | some (pd, q) =>
          if nalAdmits s.video pd then
            let v := nalDoing c mem rc.eTransport channel (nalOpen s.video pd)
            (rtpLeft v, rc.withVideo s q v)
          else
            let v := nalTake s.video pd
            (c.refused v.rtpPk, rc.withVideo s q v)
      | .doing =>
        let v := nalDoing c mem rc.eTransport channel s.video
        (rtpLeft v, rc.withVideo s rc.rtpQueueVideo v)
      | .ended =>
        let v := { s.video with txReady := .ready }
        (rtpLeft v, rc.withVideo s rc.rtpQueueVideo v)
      | .unset => (rtpLeft s.video, rc)
  else some (-1, rc)

section members

def avcReadHdr (p : Nat → UInt8) (pk : RtpPacket) : RtpPacket :=
  { pk with naltype := (p 0 &&& 0x1F).toNat, nalidc := ((p 0 &&& 0x60) >>> 5).toNat }

def avcFUHeader (pk : RtpPacket) (start stop : Bool) : List UInt8 :=
  [UInt8.ofNat (pk.nalidc % 4 * 32 + 0x1C),
   UInt8.ofNat ((if start then 128 else 0) + (if stop then 64 else 0) + pk.naltype % 32)]

def avc : NalCodec where
  window := 20
  hdrLen := 1
  fuLen := 2
  readHdr := avcReadHdr
  isSlice t := t == 0x01 || t == 0x05
  isParam t := t == 0x07 || t == 0x08
  fuHeader := avcFUHeader
  refused _ := 0

def rtspdClientRtpH264Main (mem : Mem) (rc : RtspClient) : Option (Int × RtspClient) :=
  rtspdClientRtpNalMain avc mem rc

def hevcReadHdr (p : Nat → UInt8) (pk : RtpPacket) : RtpPacket :=
  { pk with
    nalunithdr := (p 0).toNat * 256 + (p 1).toNat
    naltype := ((p 0 >>> 1) &&& 0x3F).toNat }

/-- `htons(nalunithdr & 0x81FF) | (49 << 1)`: the or falls on the octet stored first. -/
def hevcFUHeader (pk : RtpPacket) (start stop : Bool) : List UInt8 :=
  let hdr := pk.nalunithdr &&& 0x81FF
  [UInt8.ofNat (hdr / 256) ||| 0x62, UInt8.ofNat hdr,
   UInt8.ofNat ((if start then 128 else 0) + (if stop then 64 else 0) + pk.naltype % 64)]

def hevc : NalCodec where
  window := 64
  hdrLen := 2
  fuLen := 3
  readHdr := hevcReadHdr
  isSlice t := t == 0x01 || t == 0x13 || t == 0x15
  isParam t := t == 0x20 || t == 0x21 || t == 0x22
  fuHeader := hevcFUHeader
  refused pk := asInt (usub pk.size pk.offset)

def rtspdClientRtpH265Main (mem : Mem) (rc : RtspClient) : Option (Int × RtspClient) :=
  rtspdClientRtpNalMain hevc mem rc

end members

end En675.Rtsp
