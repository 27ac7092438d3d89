import En675.Lib.AnnexB
import En675.Videnc.Buffer
import En675.Videnc.Define

/-! `muxer_videnc_write`: the sample a frame becomes in an MP4 file, its table entries and
the parameter sets kept for the header.  `none` is an access the source does not have
memory for. -/

namespace En675.Videnc

open Lib

/-- Swaps the octets of a 32-bit word. -/
def vidswapSB32 (x : Nat) : Nat :=
  x % 256 * 2 ^ 24 + x / 2 ^ 8 % 256 * 2 ^ 16 + x / 2 ^ 16 % 256 * 2 ^ 8 + x / 2 ^ 24 % 256

/-- A `UINT` as it lies in memory. -/
def wordPtr (x : Nat) : Ptr := fun i => UInt8.ofNat (x / 256 ^ i)

def nalStart : List UInt8 := [0, 0, 1]

/-- `n` start positions from `p` on. -/
def memstrFrom (m : Mem) (search : List UInt8) : Nat → Nat → Option Nat
  | 0, _ => none
  | n + 1, p => if m.read p search.length = search then some (p + search.length)
      else memstrFrom m search n (p + 1)

def enxMemstr (m : Mem) (src : Option Nat) (srcSize : Nat) (search : List UInt8) : Option Nat :=
  match src with
  | none => none
  | some src => memstrFrom m search (srcSize + 1 - search.length) src

/-- The successive searches, each in its window behind the one before. -/
def nalStarts (m : Mem) : Option Nat → List Nat → List (Option Nat)
  | _, [] => []
  | src, w :: ws =>
    let p := enxMemstr m src w nalStart
    p :: nalStarts m p ws

/-- The loop that takes trailing zeros off a parameter set; the source's index wraps below
the first octet. -/
def trimZeros (m : Mem) (start : Nat) : Nat → Option Nat
  | 0 => none
  | n + 1 => if m (start + n) = 0 then trimZeros m start n else some (n + 1)

/-- The sizes of the parameter sets: 0 where the next start code was not found. -/
def paramSizes (m : Mem) : List (Option Nat) → Option (List Nat)
  | some a :: some b :: rest => do
    let n ← trimZeros m a (b - a - 3)
    let ns ← paramSizes m (some b :: rest)
    return n :: ns
  | _ :: b :: rest => do
    let ns ← paramSizes m (b :: rest)
    return 0 :: ns
  | _ => some []

/-- The size of the picture's own NAL unit, which runs to the end of the frame. -/
def frameSize (k size : Nat) : Option Nat → Nat
  | some start => usub size (start - k)
  | none => size

structure MP4HeaderSTBL where
  size : Nat
  stss : List Nat
  stsz : List Nat
  stco : List Nat
  deriving DecidableEq, Repr

/-- An entry stored at the end of a table of `size` entries. -/
def storeEntry (size : Nat) (table : List Nat) (entry : Nat) : Option (List Nat) :=
  if table.length < size then some (table ++ [entry]) else none

structure TMp4Data extends TMp4 where
  vpsSize : Nat
  spsSize : Nat
  ppsSize : Nat
  vpsData : List UInt8
  spsData : List UInt8
  ppsData : List UInt8
  mdatSize : Nat
  deriving DecidableEq, Repr

/-- What `muxer_videnc_write` works on, out of `t_videnc_t` and `t_videnc_totalbuf_t`. -/
structure Muxing where
  state : VidencState
  vidinfo : TMp4Data
  datablock : TBlock
  sink : Sink
  hdrSize : Nat
  vstbl : MP4HeaderSTBL
  audioStsz : Nat
  audio : MP4HeaderSTBL
  deriving DecidableEq, Repr

/-- Signed reading of a size passed as `int32`. -/
def int32 (n : Nat) : Int := asInt n

def memPtr (m : Mem) (a : Nat) : Ptr := fun i => m (a + i)

/-- The two adds of a NAL unit: its size in network order, then its octets. -/
def addNal (m : Mem) (k : Sink) (start : Option Nat) (size : Nat) : Option Sink := do
  let k ← k.muxerVidencBufferadd (some (wordPtr (vidswapSB32 size))) 4
  k.muxerVidencBufferadd (start.map (memPtr m)) (int32 size)

def addNals (m : Mem) : Sink → List (Option Nat) → List Nat → Option Sink
  | k, start :: starts, size :: sizes => do
    let k ← addNal m k start size
    addNals m k starts sizes
  | k, _, _ => some k

/-- `sizeof` a size field for each NAL unit, and the units. -/
def sampleSize (sizes : List Nat) : Nat := (sizes.sum + 4 * sizes.length) % 2 ^ 32

/-- The table entries of a sample, `stss` for a sync sample only. -/
def tableSample (s : Muxing) (sync : Bool) (size : Nat) : Option Muxing := do
  let stss ← if sync then storeEntry s.vstbl.size s.vstbl.stss (vidswapSB32 s.vidinfo.un32vidscount)
    else some s.vstbl.stss
  let stsz ← storeEntry s.vstbl.size s.vstbl.stsz (vidswapSB32 size)
  let stco ← storeEntry s.vstbl.size s.vstbl.stco (vidswapSB32 (uadd s.vidinfo.mdatSize s.hdrSize))
  return { s with
    vstbl := { s.vstbl with stss := stss, stsz := stsz, stco := stco }
    vidinfo := { s.vidinfo with mdatSize := uadd s.vidinfo.mdatSize size } }

/-- The copy of a parameter set into its array; the size field has 16 bits. -/
def copyParam (m : Mem) (array : List UInt8) (start : Option Nat) (size : Nat) :
    Option (Nat × List UInt8) :=
  let n := size % 2 ^ 16
  if n = 0 then some (0, array)
  else match start with
    | none => none
    | some a => if n ≤ array.length then some (n, m.read a n ++ array.drop n) else none

/-- The NAL units found in a frame and added to the file: where they start, and their sizes. -/
def addFrame (m : Mem) (windows : List Nat) (s : Muxing) :
    Option (List (Option Nat) × List Nat × Sink) := do
  let starts := nalStarts m (some s.datablock.addr) windows
  let params ← paramSizes m starts
  let last := (starts.getLast?).join
  let sizes := params ++ [frameSize s.datablock.addr s.datablock.size last]
  let sink ← addNals m s.sink starts sizes
  return (starts, sizes, sink)

/-- The branch of an I frame, by the windows of its searches and the copies made in
`VIDENC_FIRST_NEXT`. -/
def writeIframe (m : Mem) (windows : List Nat)
    (keep : TMp4Data → List (Option Nat) → List Nat → Option TMp4Data) (s : Muxing) :
    Option Muxing := do
  let (starts, sizes, sink) ← addFrame m windows s
  let s ← tableSample { s with sink := sink } true (sampleSize sizes)
  if s.state = .firstNext then
    let info ← keep s.vidinfo starts sizes
    return { s with vidinfo := info }
  else return s

def writePframe (m : Mem) (s : Muxing) : Option Muxing := do
  let (_, sizes, sink) ← addFrame m [32] s
  tableSample { s with sink := sink } false (sampleSize sizes)

def h264Windows : List Nat := [32, 16, 16]

def h265Windows : List Nat := [32, 64, 128, 16]

def keepH264 (m : Mem) (info : TMp4Data) : List (Option Nat) → List Nat → Option TMp4Data
  | sps :: pps :: _, spsSize :: ppsSize :: _ => do
    let (n, spsData) ← copyParam m info.spsData sps spsSize
    let (k, ppsData) ← copyParam m info.ppsData pps ppsSize
    return { info with spsSize := n, spsData := spsData, ppsSize := k, ppsData := ppsData }
  | _, _ => some info

def keepH265 (m : Mem) (info : TMp4Data) : List (Option Nat) → List Nat → Option TMp4Data
  | vps :: params, vpsSize :: sizes => do
    let (n, vpsData) ← copyParam m info.vpsData vps vpsSize
    keepH264 m { info with vpsSize := n, vpsData := vpsData } params sizes
  | _, _ => some info

/-- Audio is added as it is; its sizes are counted, not stored. -/
def writeAudio (m : Mem) (s : Muxing) : Option Muxing := do
  let sink ← s.sink.muxerVidencBufferadd (some (memPtr m s.datablock.addr)) (int32 s.datablock.size)
  let stco ← storeEntry s.audio.size s.audio.stco (vidswapSB32 (uadd s.vidinfo.mdatSize s.hdrSize))
  return { s with
    sink := sink
    audioStsz := s.audioStsz + 1
    audio := { s.audio with stco := stco }
    vidinfo := { s.vidinfo with mdatSize := uadd s.vidinfo.mdatSize s.datablock.size } }

def writeSample (m : Mem) (s : Muxing) : StreamKind → Option Muxing
  | .h264 => if s.datablock.flags ≠ 0 then writeIframe m h264Windows (keepH264 m) s else writePframe m s
  | .h265 => if s.datablock.flags ≠ 0 then writeIframe m h265Windows (keepH265 m) s else writePframe m s
  | .g711 => writeAudio m s
  | .txts => some s

theorem writeSample_h264I {s : Muxing} (h : s.datablock.flags ≠ 0) :
    writeSample m s .h264 = writeIframe m h264Windows (keepH264 m) s := if_pos h

theorem writeSample_h265I {s : Muxing} (h : s.datablock.flags ≠ 0) :
    writeSample m s .h265 = writeIframe m h265Windows (keepH265 m) s := if_pos h

theorem writeSample_h264P {s : Muxing} (h : s.datablock.flags = 0) :
    writeSample m s .h264 = writePframe m s := if_neg (fun k => k h)

theorem writeSample_h265P {s : Muxing} (h : s.datablock.flags = 0) :
    writeSample m s .h265 = writePframe m s := if_neg (fun k => k h)

def muxerVidencWriteProcess (m : Mem) (s : Muxing) (kind : StreamKind) : Option Muxing := do
  let s ← writeSample m s kind
  return { s with datablock := .cleared }

/-- The counters of the first switch advanced. -/
def Muxing.counted (s : Muxing) : Muxing :=
  { s with vidinfo := { s.vidinfo with toTMp4 := (s.vidinfo.toTMp4.count s.datablock.type).1 } }

def muxerVidencWrite (m : Mem) (s : Muxing) : Option Muxing :=
  if s.datablock.state = 1 then
    match (s.vidinfo.toTMp4.count s.datablock.type).2 with
    | some kind => muxerVidencWriteProcess m s.counted kind
    | none => some { s.counted with datablock := { s.datablock with state := 0 } }
  else some s

/-- The part of `muxer_videnc_open` after `f_open`; `header` is `hdr_info` as
`mp4_write_header` fills it. -/
def muxerVidencOpenFile (s : Muxing) (header : Ptr) : Option Muxing := do
  let s := { s with
    vidinfo := { s.vidinfo with
      un32vidicount := 0, un32vidscount := 0, un32audscount := 0, un32txtscount := 0, mdatSize := 0 }
    sink := { s.sink with fpvid := ⟨[], 0, 0⟩, buf := [], filesize := 0 }
    vstbl := { s.vstbl with stss := [], stsz := [], stco := [] }
    audioStsz := 0
    audio := { s.audio with stss := [], stsz := [], stco := [] } }
  let sink ← s.sink.muxerVidencBufferadd (some header) s.hdrSize
  return { s with sink := sink, state := .first }

/-- `muxer_videnc_close` up to the sizes it records. -/
def closeSizes (s : Muxing) : Muxing :=
  let sink := s.sink.muxerVidencBufferflush
  { s with sink := { sink with
      filesize := sink.fpvid.fptr % 2 ^ 32
      fpvid := { sink.fpvid with objsize := uadd s.hdrSize s.vidinfo.mdatSize } } }

/-- The rest of it: the header again, over the one written by the open. -/
def closeHeader (s : Muxing) (header : Ptr) : Option Muxing := do
  let sink ← s.sink.muxerVidencBufferadd (some header) s.hdrSize
  let sink := { sink with fpvid := fLseek sink.fpvid 0 }
  return { s with sink := sink.muxerVidencBufferflush, state := .idle }

def muxerVidencClose (s : Muxing) (header : Ptr) : Option Muxing :=
  closeHeader (closeSizes s) header

end En675.Videnc
