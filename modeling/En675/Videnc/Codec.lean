import En675.Rtsp.Process
import En675.Videnc.Sample
import En675.Videnc.Tables

/-! The sample description of a recording.  `enx_mp4_header_stsd` picks the entry when the
file is closed, by the codec set for the channel then; the samples carry the codec they
were encoded with, and the parameter sets are those last kept.  The recorder is that of
`Tables`, beside the octets its frames point to. -/

namespace En675.Videnc

open Lib Lib.AnnexB Recorder
open Rtsp (VideoCodec)

/-- `MP4_AVC_CONFIGURATION_BOX` with the parameter sets behind it. -/
structure AvcC where
  bAVCProfile : UInt8
  bProfileCompatibility : UInt8
  bAVCLevelIndication : UInt8
  sps : List UInt8
  pps : List UInt8
  deriving DecidableEq, Repr

/-- `MP4_HEVC_CONFIGURATION_BOX` with its three arrays. -/
structure HvcC where
  bGeneralProfile : UInt8
  bGeneralProfileCompatibilityFlags : List UInt8
  bGeneralConstraintIndicatorFlags : List UInt8
  bGeneralLevelIdc : UInt8
  vps : List UInt8
  sps : List UInt8
  pps : List UInt8
  deriving DecidableEq, Repr

/-- The sample entries `avc1` and `hev1`. -/
inductive SampleEntry
  | avc1 (avcC : AvcC)
  | hev1 (hvcC : HvcC)
  deriving DecidableEq, Repr

section header

variable (mp4a : TMp4Data)

def enxMp4HeaderAvcc : AvcC where
  bAVCProfile := mp4a.spsData.getD 1 0
  bProfileCompatibility := mp4a.spsData.getD 2 0
  bAVCLevelIndication := mp4a.spsData.getD 3 0
  sps := mp4a.spsData.take mp4a.spsSize
  pps := mp4a.ppsData.take mp4a.ppsSize

/-- `helper_3byte_zero_nalunit`, on `i` and `zerocount`: one octet further, or two after
every second zero. -/
def helper3byteZeroNalunit (vpsData : List UInt8) (i zerocount : Nat) : Nat × Nat :=
  if vpsData.getD i 0 = 0 then
    if zerocount + 1 = 2 then (i + 2, 0) else (i + 1, zerocount + 1)
  else (i + 1, zerocount)

/-- The next `n` octets read with it. -/
def helperOctets (vpsData : List UInt8) : Nat → Nat → Nat → List UInt8
  | 0, _, _ => []
  | n + 1, i, zerocount =>
    let next := helper3byteZeroNalunit vpsData i zerocount
    vpsData.getD i 0 :: helperOctets vpsData n next.1 next.2

def enxMp4HeaderHvcc : HvcC :=
  let octets := helperOctets mp4a.vpsData 11 6 0
  { bGeneralProfile := octets.getD 0 0
    bGeneralProfileCompatibilityFlags := (octets.drop 1).take 4
    bGeneralConstraintIndicatorFlags := octets.drop 5
    bGeneralLevelIdc := 0
    vps := mp4a.vpsData.take mp4a.vpsSize
    sps := mp4a.spsData.take mp4a.spsSize
    pps := mp4a.ppsData.take mp4a.ppsSize }

/-- The entry of the video track; for a third codec there is none. -/
def enxMp4HeaderStsd : VideoCodec → Option SampleEntry
  | .h264 => some (.avc1 (enxMp4HeaderAvcc mp4a))
  | .h265 => some (.hev1 (enxMp4HeaderHvcc mp4a))
  | .jpeg => none

end header

/-- A frame of a file, with its octets at the time they were written. -/
structure Written where
  frame : SbufData
  octets : List UInt8
  deriving DecidableEq, Repr

structure ClosedFile where
  samples : List Written
  stsd : Option SampleEntry
  deriving DecidableEq, Repr

/-- What a turn of `muxer_videnc_process` does to its file: nothing, or it creates one, or it
writes or closes it, as the recorder named. -/
inductive FileTurn
  | keep
  | create
  | write (r : Recorder)
  | close (r : Recorder)

def Recorder.fileTurn (r : Recorder) : FileTurn :=
  match r.pc with
  | .wait =>
    match r.pvid.state with
    | .idle => .create
    | .exit => .close r
    | _ => .keep
  | .frist => .keep
  | .next => if r.nVidencModeNow ≠ r.nVidencModeOld then .keep else .write r
  | .nextI =>
    match sbufGet r.pvid.sbuf with
    | none => .keep
    | some (d, q) => if d.flags = 1 then .write (((r.taken d q).setState .write).hold) else .keep
  | .write => if r.bSdVidSave ∧ r.fpsval false ≠ r.nVidencFpsOld then .close r else .keep
  | .peek =>
    match sbufPeek r.pvid.sbuf with
    | none => .keep
    | some d =>
      if d.type.isIframe ∧ r.pvid.vidinfo.un32vidscount ≥ r.pvid.vidinfo.un32vidsmax then .close r
      else .keep
  | .get =>
    match sbufGet r.pvid.sbuf with
    | none => .keep
    | some (d, q) => .write ((r.taken d q).hold)

/-- While it is not recording, a recorder at rest is left alone. -/
def Muxer.fileTurn (m : Muxer) : FileTurn :=
  if m.gVidenc.pc = .wait ∧ m.recording = false then .keep else m.gVidenc.fileTurn

/-- The recorder, the memory its frames lie in and the `eCodec` of its channel.  Of `mp4info`
only the parameter sets are followed here; `file` and `closed` are the files of `muxer` with
what was written to them. -/
structure CodecMuxer where
  muxer : Muxer
  mem : Mem
  eCodec : VideoCodec
  mp4info : TMp4Data
  file : Option (List Written)
  closed : List ClosedFile

namespace CodecMuxer

variable (c : CodecMuxer)

def written (b : TBlock) : Written := ⟨b.data, c.mem.read b.addr b.size⟩

/-- The searches in an I frame, and the copies made of what they found in
`VIDENC_FIRST_NEXT`. -/
def iframeParams (r : Recorder) (windows : List Nat)
    (keep : TMp4Data → List (Option Nat) → List Nat → Option TMp4Data) : Option TMp4Data := do
  let b := r.pvid.datablock
  let starts := nalStarts c.mem (some b.addr) windows
  let params ← paramSizes c.mem starts
  if r.pvid.state = .firstNext then
    keep c.mp4info starts (params ++ [frameSize b.addr b.size (starts.getLast?).join])
  else some c.mp4info

def keepParams (r : Recorder) (windows : List Nat)
    (keep : TMp4Data → List (Option Nat) → List Nat → Option TMp4Data) : Option TMp4Data :=
  if r.pvid.datablock.flags ≠ 0 then c.iframeParams r windows keep else some c.mp4info

def added (r : Recorder) (info : TMp4Data) : CodecMuxer :=
  { c with mp4info := info, file := c.file.map (· ++ [c.written r.pvid.datablock]) }

def muxerVidencWriteProcess (r : Recorder) : StreamKind → Option CodecMuxer
  | .h264 => (c.keepParams r h264Windows (keepH264 c.mem)).map (c.added r)
  | .h265 => (c.keepParams r h265Windows (keepH265 c.mem)).map (c.added r)
  | .g711 => some (c.added r c.mp4info)
  | .txts => some c

def muxerVidencWrite (r : Recorder) : Option CodecMuxer :=
  if r.pvid.datablock.state = 1 then
    match (r.pvid.vidinfo.count r.pvid.datablock.type).2 with
    | some kind => c.muxerVidencWriteProcess r kind
    | none => some c
  else some c

/-- The header has a video track if samples were counted. -/
def muxerVidencClose (r : Recorder) : CodecMuxer :=
  let stsd := if r.pvid.vidinfo.un32vidscount ≠ 0 then enxMp4HeaderStsd c.mp4info c.eCodec else none
  { c with closed := c.closed ++ (c.file.map (⟨·, stsd⟩)).toList, file := none }

def turned : FileTurn → Option CodecMuxer
  | .keep => some c
  | .create => some { c with file := some [] }
  | .write r => c.muxerVidencWrite r
  | .close r => some (c.muxerVidencClose r)

/-- A turn of `muxer_videnc`. -/
def muxerVidenc : Option CodecMuxer :=
  (c.turned c.muxer.fileTurn).map (fun t => { t with muxer := c.muxer.muxerVidenc })

end CodecMuxer

/-- A step of the recorder; the user sets the channel's codec; the encoder writes memory. -/
inductive CodecEvent
  | muxer (e : MuxerEvent)
  | codec (eCodec : VideoCodec)
  | encode (m : Mem)

def CodecMuxer.step (c : CodecMuxer) : CodecEvent → Option CodecMuxer
  | .muxer (.task .process) => c.muxerVidenc
  | .muxer e => some { c with muxer := c.muxer.step e }
  | .codec eCodec => some { c with eCodec := eCodec }
  | .encode m => some { c with mem := m }

/-- `t_mp4_t` before the first recording. -/
def mp4infoInit : TMp4Data :=
  ⟨recorderInit.pvid.vidinfo, 0, 0, 0, List.replicate 32 0, List.replicate 64 0, List.replicate 8 0, 0⟩

def codecInit (nFps : Nat) (m : Mem) (eCodec : VideoCodec) : CodecMuxer :=
  ⟨muxerInit nFps, m, eCodec, mp4infoInit, none, []⟩

def codecMuxer : Lts CodecMuxer CodecEvent where
  init c := ∃ n m eCodec, c = codecInit n m eCodec
  step c e t := c.step e = some t

/-- The NAL unit types of the two codecs. -/
def nalType : VideoCodec → List UInt8 → Nat
  | .h264, nal => (nal.headD 0).toNat % 32
  | .h265, nal => (nal.headD 0).toNat / 2 % 64
  | .jpeg, _ => 0

/-- The NAL units of one type in a frame. -/
def unitsOf (codec : VideoCodec) (type : Nat) (octets : List UInt8) : List (List UInt8) :=
  (units octets).filter (fun nal => nalType codec nal = type)

/-- A NAL unit less its emulation-prevention octets. -/
def unescape : List UInt8 → List UInt8
  | 0 :: 0 :: 3 :: rest => 0 :: 0 :: unescape rest
  | b :: rest => b :: unescape rest
  | [] => []

/-- The entry describes a frame: profile and level stand behind the first octet of an SPS of
H.264, and in the octets from the seventh on of a VPS of H.265. -/
def SampleEntry.Describes (octets : List UInt8) : SampleEntry → Prop
  | .avc1 a =>
    unitsOf .h264 7 octets = [a.sps] ∧ unitsOf .h264 8 octets = [a.pps] ∧
      [a.bAVCProfile, a.bProfileCompatibility, a.bAVCLevelIndication] = (a.sps.drop 1).take 3
  | .hev1 h =>
    unitsOf .h265 32 octets = [h.vps] ∧ unitsOf .h265 33 octets = [h.sps] ∧
      unitsOf .h265 34 octets = [h.pps] ∧
      h.bGeneralProfile :: h.bGeneralProfileCompatibilityFlags ++ h.bGeneralConstraintIndicatorFlags ++
        [h.bGeneralLevelIdc] = ((unescape h.vps).drop 6).take 12

def SampleEntry.codec : SampleEntry → VideoCodec
  | .avc1 _ => .h264
  | .hev1 _ => .h265

def StreamMsg.codec : StreamMsg → Option VideoCodec
  | .h264I => some .h264
  | .h264P => some .h264
  | .h265I => some .h265
  | .h265P => some .h265
  | .jpeg => some .jpeg
  | _ => none

/-- All samples have the codec of the entry, and the entry describes the first I frame. -/
structure ClosedFile.Announced (f : ClosedFile) : Prop where
  codec : ∀ x ∈ f.samples, ∃ e, f.stsd = some e ∧ x.frame.type.codec = some e.codec
  params : ∀ x, f.samples.find? (fun x => x.frame.type.isIframe) = some x →
    ∃ e, f.stsd = some e ∧ e.Describes x.octets

namespace Recorder

/-- What a turn makes of the files of the recorder. -/
def Turned (r t : Recorder) : FileTurn → Prop
  | .keep => t.file = r.file ∧ t.files = r.files
  | .create => t.file = some [] ∧ t.files = r.files
  | .write w =>
    t.file = r.file.map (· ++ [w.pvid.datablock.data]) ∧ t.files = r.files ∧
      w.pvid.datablock.state = 1 ∧ recordFlags w.pvid.datablock.type = some w.pvid.datablock.flags ∧
      (r.file = some [] ∧ w.pvid.datablock.flags = 1 ∨
        (∃ x f, r.file = some (x :: f)) ∧ w.pvid.state ≠ .firstNext)
  | .close _ => t.file = none ∧ t.files = r.files ++ r.file.toList

variable {r : Recorder}

theorem goOn_file (r : Recorder) : r.goOn.file = r.file ∧ r.goOn.files = r.files := by
  rcases r.goOn_cases with h | ⟨s, _, _, h⟩ <;> rw [h] <;> exact ⟨rfl, rfl⟩

theorem Writing.ready (h : r.Writing) : (∃ x f, r.file = some (x :: f)) ∧ r.pvid.state ≠ .firstNext := by
  obtain ⟨hs, f, filling⟩ := h
  obtain ⟨x, rest, rfl, _⟩ := filling.key
  refine ⟨⟨x, rest, filling.file⟩, ?_⟩
  rcases hs with hs | hs | hs | hs <;> simp [hs]

theorem turned_wait (s : r.Sound) (hp : r.pc = .wait) : r.Turned r.muxerVidencProcess r.fileTurn := by
  have place : r.Stands .wait := hp ▸ s.place
  cases hs : r.pvid.state with
  | idle =>
    have blank := muxerVidencIdle_blank s.modeNow
    have files := r.muxerVidencIdle_fields.2.2.2.2.1
    simpa [muxerVidencProcess, fileTurn, hp, enter, hs, Turned, goto] using ⟨blank.file, files⟩
  | firstNext => exact absurd hs place.2.2
  | exit => simp [muxerVidencProcess, fileTurn, hp, enter, hs, Turned, muxerVidencClose]
  | _ => simp [muxerVidencProcess, fileTurn, hp, enter, hs, Turned, goto]

theorem turned_frist (hp : r.pc = .frist) : r.Turned r.muxerVidencProcess r.fileTurn := by
  simp only [muxerVidencProcess, fileTurn, hp, muxerVidencFristVideo]
  split
  · exact ⟨rfl, rfl⟩
  · split <;> exact ⟨rfl, rfl⟩

theorem turned_next (s : r.Sound) (hp : r.pc = .next) : r.Turned r.muxerVidencProcess r.fileTurn := by
  obtain ⟨blank, hb, hf, hr⟩ : r.Stands .next := hp ▸ s.place
  have mode : ¬ r.nVidencModeNow ≠ r.nVidencModeOld := by
    rw [s.modeNow, blank.modeOld]
    exact fun h => h rfl
  simp only [muxerVidencProcess, fileTurn, hp, muxerVidencFirstNext, if_neg mode,
    muxerVidencWrite_eq hb hr]
  exact ⟨rfl, rfl, hb, hf ▸ hr, .inl ⟨blank.file, hf⟩⟩

theorem turned_write (s : r.Sound) (hp : r.pc = .write) : r.Turned r.muxerVidencProcess r.fileTurn := by
  obtain ⟨_, f, filling⟩ : r.Stands .write := hp ▸ s.place
  have old := filling.fpsOld
  have rate : r.fpsval false = r.nFps := rfl
  simp only [muxerVidencProcess, fileTurn, hp, writeEntry, changeSavetime_eq old, rate, old]
  cases r.bSdVidSave with
  | false => exact ⟨rfl, rfl⟩
  | true =>
    by_cases hn : r.nFps = 30
    · simpa [hn, Turned] using r.goOn_file
    · have out := r.rateChanged.goOn_file
      simpa [hn] using ⟨out.1.trans rfl, out.2.trans rfl⟩

theorem turned_peek (s : r.Sound) (hp : r.pc = .peek) : r.Turned r.muxerVidencProcess r.fileTurn := by
  rcases sbuf_cases s.queue.wf with ⟨_, _, hg⟩ | ⟨d, _, _, hg⟩
  · simp only [muxerVidencProcess, fileTurn, hp, writePeek, hg]
    exact ⟨rfl, rfl⟩
  · by_cases hk : r.Full d
    · have full : d.type.isIframe = true ∧ r.pvid.vidinfo.un32vidscount ≥ r.pvid.vidinfo.un32vidsmax := hk
      simp only [muxerVidencProcess, fileTurn, hp, writePeek_roll hg hk, hg, if_pos full]
      exact ⟨rfl, rfl⟩
    · have full : ¬ (d.type.isIframe = true ∧
          r.pvid.vidinfo.un32vidscount ≥ r.pvid.vidinfo.un32vidsmax) := hk
      simp only [muxerVidencProcess, fileTurn, hp, writePeek_look hg hk, hg, if_neg full]
      exact ⟨rfl, rfl⟩

theorem turned_get (s : r.Sound) (hp : r.pc = .get) : r.Turned r.muxerVidencProcess r.fileTurn := by
  have writing : r.Writing := by simpa [Stands, hp] using s.place
  rcases sbuf_cases s.queue.wf with ⟨_, hg, _⟩ | ⟨d, hq, hg, _⟩
  · simp only [muxerVidencProcess, fileTurn, hp, writeGet, hg]
    exact ⟨rfl, rfl⟩
  · have hd := s.queue.frames d (by simp [hq])
    simp only [muxerVidencProcess, fileTurn, hp, writeGet, hg]
    rw [muxerVidencWrite_eq (r := (r.taken d r.pvid.sbuf.pop).hold) rfl hd]
    obtain ⟨file, files⟩ := ((r.taken d r.pvid.sbuf.pop).hold).appended.goOn_file
    exact ⟨file, files, rfl, hd, .inr writing.ready⟩

/-- Each turn does to the files what `fileTurn` says. -/
theorem turned (s : r.Sound) : r.Turned r.muxerVidencProcess r.fileTurn := by
  cases hp : r.pc with
  | wait => exact turned_wait s hp
  | frist => exact turned_frist hp
  | next => exact turned_next s hp
  | nextI => exact absurd s.place (by simp [Stands, hp])
  | write => exact turned_write s hp
  | peek => exact turned_peek s hp
  | get => exact turned_get s hp

end Recorder

theorem Recorder.isrRecorddata_file (r : Recorder) (addr size : Nat) (type : StreamMsg) :
    (r.isrRecorddata addr size type).file = r.file ∧ (r.isrRecorddata addr size type).files = r.files := by
  rcases r.record_cases addr size type with h | ⟨_, _, h⟩ <;> rw [h] <;> exact ⟨rfl, rfl⟩

theorem Muxer.sdcardTask_file (m : Muxer) : m.sdcardTask.gVidenc.file = m.gVidenc.file ∧
    m.sdcardTask.gVidenc.files = m.gVidenc.files := by
  unfold sdcardTask
  split <;> split
  · exact ⟨rfl, rfl⟩
  · exact ⟨rfl, rfl⟩
  · by_cases hf : (30 : Nat) = m.gVidenc.nVidencFpsOld
    · simp [muxerVidencInit, muxerVidencChangeSavetime, Recorder.setState, ← hf]
    · simp [muxerVidencInit, muxerVidencChangeSavetime, Recorder.setState, hf, videncInfoInitSavetime]
  · exact ⟨rfl, rfl⟩

theorem Muxer.turned (m : Muxer) (s : m.gVidenc.Sound) :
    m.gVidenc.Turned m.muxerVidenc.gVidenc m.fileTurn := by
  unfold Muxer.fileTurn muxerVidenc
  split
  · exact ⟨rfl, rfl⟩
  · exact Recorder.turned s

/-- The arrays hold the parameter sets of a frame of H.264. -/
structure TMp4Data.Holds (info : TMp4Data) (octets : List UInt8) : Prop where
  sps : unitsOf .h264 7 octets = [info.spsData.take info.spsSize]
  pps : unitsOf .h264 8 octets = [info.ppsData.take info.ppsSize]
  level : 4 ≤ (info.spsData.take info.spsSize).length

/-- An I frame of H.264 whose parameter sets the searches find and the arrays have room for. -/
structure Found (m : Mem) (d : SbufData) (z₁ z₂ z₃ : Nat) (sps pps idr : List UInt8) : Prop where
  laid : Laid m d.addr d.size h264Windows [(z₁, sps), (z₂, pps), (z₃, idr)]
  isSps : nalType .h264 sps = 7
  isPps : nalType .h264 pps = 8
  other : nalType .h264 idr ≠ 7 ∧ nalType .h264 idr ≠ 8
  level : 4 ≤ sps.length

theorem TMp4Data.Holds.describes {info : TMp4Data} (h : info.Holds octets) :
    (SampleEntry.avc1 (enxMp4HeaderAvcc info)).Describes octets := by
  refine ⟨h.sps, h.pps, ?_⟩
  have level := h.level
  simp only [enxMp4HeaderAvcc]
  generalize info.spsData = data at *
  generalize info.spsSize = n at *
  rw [List.length_take] at level
  obtain ⟨k, rfl⟩ := Nat.exists_eq_add_of_le' (show 4 ≤ n by omega)
  match data, (show 4 ≤ data.length by omega) with
  | _ :: _ :: _ :: _ :: _, _ => simp

section keep

variable {m : Mem} {array nal : List UInt8} {info info' : TMp4Data}

/-- A parameter set of fewer than 2 ^ 16 octets that is copied is kept whole. -/
theorem copyParam_take (held : m.Holds a nal) (hn : nal.length < 2 ^ 16)
    (h : copyParam m array (some a) nal.length = some (n, array')) : array'.take n = nal := by
  rw [copyParam, Nat.mod_eq_of_lt hn] at h
  by_cases h0 : nal.length = 0
  · simp only [h0, if_true, Option.some.injEq, Prod.mk.injEq] at h
    rw [← h.1, List.take_zero, List.eq_nil_of_length_eq_zero h0]
  · simp only [if_neg h0] at h
    split at h
    · obtain ⟨rfl, rfl⟩ : nal.length = n ∧ m.read a nal.length ++ array.drop nal.length = array' := by
        simpa using h
      rw [held, List.take_left]
    · cases h

theorem keepH264_take {sps pps : List UInt8} (hs : m.Holds a sps) (hp : m.Holds b pps)
    (ls : sps.length < 2 ^ 16) (lp : pps.length < 2 ^ 16)
    (h : keepH264 m info (some a :: some b :: starts) (sps.length :: pps.length :: sizes) = some info') :
    info'.spsData.take info'.spsSize = sps ∧ info'.ppsData.take info'.ppsSize = pps := by
  simp only [keepH264, Option.bind_eq_bind, Option.bind_eq_some_iff] at h
  obtain ⟨⟨n, spsData⟩, es, ⟨k, ppsData⟩, ep, e⟩ := h
  obtain rfl := Option.some.inj e
  exact ⟨copyParam_take hs ls es, copyParam_take hp lp ep⟩

end keep

namespace Found

variable {m : Mem} {d : SbufData} (f : Found m d z₁ z₂ z₃ sps pps idr)
include f

/-- Where the first two units lie, the second not behind the 32nd octet. -/
theorem held : m.Holds (d.addr + z₁ + 3) sps ∧ m.Holds (d.addr + z₁ + 3 + sps.length + z₂ + 3) pps := by
  have held := f.laid.held
  simp only [annexB, Mem.Holds.append, List.length_replicate, List.length_cons, List.length_nil,
    Nat.zero_add, Nat.reduceAdd] at held
  exact ⟨held.2.2.1, held.2.2.2.2.2.1⟩

theorem short : sps.length < 2 ^ 16 ∧ pps.length < 2 ^ 16 := by
  obtain ⟨_, hs, hp, _⟩ := f.laid.fits
  exact ⟨by omega, by omega⟩

theorem units : units (m.read d.addr d.size) = [sps, pps, idr] := by
  rw [f.laid.octets, units_annexB (fun u hu => (f.laid.plain u hu).1)]
  rfl

theorem holds {info : TMp4Data} (hs : info.spsData.take info.spsSize = sps)
    (hp : info.ppsData.take info.ppsSize = pps) : info.Holds (m.read d.addr d.size) where
  sps := by simp [unitsOf, f.units, hs, f.isSps, f.isPps, f.other.1]
  pps := by simp [unitsOf, f.units, hp, f.isSps, f.isPps, f.other.2]
  level := hs ▸ f.level

end Found

theorem Found.keeps {c : CodecMuxer} {r : Recorder}
    (f : Found c.mem r.pvid.datablock.data z₁ z₂ z₃ sps pps idr)
    (hs : r.pvid.state = .firstNext)
    (h : c.iframeParams r h264Windows (keepH264 c.mem) = some info) :
    info.Holds (c.written r.pvid.datablock).octets := by
  obtain ⟨params, ep, sizes⟩ := f.laid.sizes
  have starts := f.laid.starts
  simp only [TBlock.data] at starts ep sizes
  simp only [CodecMuxer.iframeParams, starts, ep, sizes, if_pos hs, Option.bind_eq_bind, Option.bind_some] at h
  obtain ⟨ls, lp⟩ := f.short
  obtain ⟨es, ek⟩ := keepH264_take f.held.1 f.held.2 ls lp h
  exact f.holds es ek

namespace CodecMuxer

variable {c t : CodecMuxer} {r : Recorder}

theorem keepParams_other (hs : r.pvid.state ≠ .firstNext)
    (h : c.keepParams r windows keep = some info) : info = c.mp4info := by
  unfold keepParams at h
  split at h
  · simp only [iframeParams, if_neg hs, Option.bind_eq_bind, Option.bind_eq_some_iff] at h
    obtain ⟨_, _, h⟩ := h
    exact (Option.some.inj h).symm
  · exact (Option.some.inj h).symm

/-- The parameter sets after a write of a video frame. -/
structure Kept (c : CodecMuxer) (r : Recorder) (info : TMp4Data) : Prop where
  other : r.pvid.state ≠ .firstNext → info = c.mp4info
  first : r.pvid.datablock.type = .h264I → r.pvid.datablock.flags = 1 →
    c.iframeParams r h264Windows (keepH264 c.mem) = some info

theorem muxerVidencWrite_added (hb : r.pvid.datablock.state = 1)
    (hr : recordFlags r.pvid.datablock.type = some r.pvid.datablock.flags)
    (h : c.muxerVidencWrite r = some t) : ∃ info, c.Kept r info ∧ t = c.added r info := by
  have kept {windows keep} (hk : (c.keepParams r windows keep).map (c.added r) = some t)
      (hi : r.pvid.datablock.type = .h264I → windows = h264Windows ∧ keep = keepH264 c.mem) :
      ∃ info, c.Kept r info ∧ t = c.added r info := by
    obtain ⟨info, e, rfl⟩ := Option.map_eq_some_iff.mp hk
    refine ⟨info, ⟨fun hs => keepParams_other hs e, fun ht hf => ?_⟩, rfl⟩
    obtain ⟨rfl, rfl⟩ := hi ht
    rwa [keepParams, hf, if_pos Nat.one_ne_zero] at e
  rw [muxerVidencWrite, if_pos hb] at h
  cases ht : r.pvid.datablock.type with
  | h264I =>
    rw [ht] at h
    exact kept h (fun _ => ⟨rfl, rfl⟩)
  | h264P =>
    rw [ht] at h
    exact kept h (fun hi => nomatch ht.symm.trans hi)
  | h265I =>
    rw [ht] at h
    exact kept h (fun hi => nomatch ht.symm.trans hi)
  | h265P =>
    rw [ht] at h
    exact kept h (fun hi => nomatch ht.symm.trans hi)
  | _ =>
    rw [ht] at hr
    cases hr

theorem step_write (hf : c.muxer.fileTurn = .write r) (hb : r.pvid.datablock.state = 1)
    (hr : recordFlags r.pvid.datablock.type = some r.pvid.datablock.flags)
    (h : c.step (.muxer (.task .process)) = some t) :
    ∃ info, t = { c.added r info with muxer := c.muxer.muxerVidenc } := by
  obtain ⟨u, hu, rfl⟩ := Option.map_eq_some_iff.mp h
  rw [hf] at hu
  obtain ⟨info, _, rfl⟩ := muxerVidencWrite_added hb hr hu
  exact ⟨info, rfl⟩

end CodecMuxer

/-- The frames written are of H.264.  The parameter sets of the first one of a file are found
and copied, or, once the state has changed under it, the arrays hold them already; and when
the file is closed the channel is set to H.264 and the sample count has not wrapped to 0. -/
def Matched (c : CodecMuxer) : CodecEvent → Prop
  | .muxer (.task .process) =>
    match c.muxer.fileTurn with
    | .write r =>
      r.pvid.datablock.type.codec = some .h264 ∧
        (c.file = some [] →
          if r.pvid.state = .firstNext then
            ∃ z₁ z₂ z₃ sps pps idr, Found c.mem r.pvid.datablock.data z₁ z₂ z₃ sps pps idr
          else c.mp4info.Holds (c.written r.pvid.datablock).octets)
    | .close r => (∃ x f, c.file = some (x :: f)) → c.eCodec = .h264 ∧ r.pvid.vidinfo.un32vidscount ≠ 0
    | _ => True
  | _ => True

theorem codec_h264I (h : recordFlags type = some 1) (hc : type.codec = some .h264) : type = .h264I := by
  cases type <;> cases h <;> first | rfl | cases hc

/-- The samples of an open file. -/
structure Uniform (info : TMp4Data) (f : List Written) : Prop where
  codec : ∀ x ∈ f, x.frame.type.codec = some .h264
  first : ∀ x rest, f = x :: rest → x.frame.type.isIframe = true ∧ info.Holds x.octets

/-- The invariant of the runs whose steps are all `Matched`. -/
structure Tracked (c : CodecMuxer) : Prop where
  sound : c.muxer.gVidenc.Sound
  file : c.file.map (List.map Written.frame) = c.muxer.gVidenc.file
  files : c.closed.map (fun f => f.samples.map Written.frame) = c.muxer.gVidenc.files
  samples : ∀ f, c.file = some f → Uniform c.mp4info f
  closed : ∀ f ∈ c.closed, f.Announced

theorem uniform_nil (info : TMp4Data) : Uniform info [] := ⟨by simp, by simp⟩

theorem Uniform.concat (h : Uniform info (x :: f)) (hy : y.frame.type.codec = some .h264) :
    Uniform info (x :: f ++ [y]) where
  codec z hz := by
    rcases List.mem_append.mp hz with hz | hz
    · exact h.codec z hz
    · exact List.mem_singleton.mp hz ▸ hy
  first z rest e := h.first z f (by rw [(List.cons.inj e).1])

/-- With the channel at H.264, the entry describes the first sample and has the codec of all. -/
theorem Uniform.announced (h : Uniform info f) (hs : f ≠ [] → stsd = enxMp4HeaderStsd info .h264) :
    ClosedFile.Announced ⟨f, stsd⟩ where
  codec x hx := ⟨_, hs (List.ne_nil_of_mem hx), h.codec x hx⟩
  params x hx := by
    cases f with
    | nil => cases hx
    | cons y rest =>
      obtain ⟨key, holds⟩ := h.first y rest rfl
      obtain rfl : y = x := by simpa [List.find?_cons, key] using hx
      exact ⟨_, hs (List.cons_ne_nil _ _), holds.describes⟩

namespace Tracked

variable {c t : CodecMuxer} (k : Tracked c)
include k

/-- A step that leaves the files and the parameter sets alone. -/
theorem same {m : Muxer} (s : m.gVidenc.Sound) (file : m.gVidenc.file = c.muxer.gVidenc.file)
    (files : m.gVidenc.files = c.muxer.gVidenc.files) : Tracked { c with muxer := m } :=
  ⟨s, k.file.trans file.symm, k.files.trans files.symm, k.samples, k.closed⟩

theorem file_nil (h : c.muxer.gVidenc.file = some []) : c.file = some [] := by
  obtain ⟨f, hf, e⟩ := Option.map_eq_some_iff.mp (k.file.trans h)
  rw [hf, List.map_eq_nil_iff.mp e]

theorem file_cons (h : c.muxer.gVidenc.file = some (d :: ds)) : ∃ x f, c.file = some (x :: f) := by
  obtain ⟨f, hf, e⟩ := Option.map_eq_some_iff.mp (k.file.trans h)
  obtain ⟨x, rest, rfl, _⟩ := List.map_eq_cons_iff.mp e
  exact ⟨x, rest, hf⟩

/-- The samples with the one that is written. -/
theorem samples_added {r : Recorder} {info : TMp4Data} (kept : c.Kept r info)
    (hr : recordFlags r.pvid.datablock.type = some r.pvid.datablock.flags)
    (codec : r.pvid.datablock.type.codec = some .h264)
    (first : c.file = some [] →
      if r.pvid.state = .firstNext then
        ∃ z₁ z₂ z₃ sps pps idr, Found c.mem r.pvid.datablock.data z₁ z₂ z₃ sps pps idr
      else c.mp4info.Holds (c.written r.pvid.datablock).octets)
    (where_ : c.muxer.gVidenc.file = some [] ∧ r.pvid.datablock.flags = 1 ∨
      (∃ x f, c.muxer.gVidenc.file = some (x :: f)) ∧ r.pvid.state ≠ .firstNext) :
    ∀ f, (c.added r info).file = some f → Uniform info f := by
  intro f hf
  rcases where_ with ⟨hfile, flag⟩ | ⟨⟨_, _, hfile⟩, hs⟩
  · have empty := k.file_nil hfile
    obtain rfl : [c.written r.pvid.datablock] = f := by simpa [CodecMuxer.added, empty] using hf
    have key := codec_h264I (flag ▸ hr) codec
    have holds : info.Holds (c.written r.pvid.datablock).octets := by
      by_cases hs : r.pvid.state = .firstNext
      · obtain ⟨z₁, z₂, z₃, sps, pps, idr, found⟩ := if_pos hs ▸ first empty
        exact found.keeps hs (kept.first key flag)
      · have holds := first empty
        rw [if_neg hs] at holds
        rwa [kept.other hs]
    refine ⟨fun x hx => List.mem_singleton.mp hx ▸ codec, fun x rest e => ?_⟩
    obtain ⟨rfl, _⟩ := List.cons.inj e
    exact ⟨show r.pvid.datablock.type.isIframe = true by rw [key]; rfl, holds⟩
  · obtain ⟨x, g, hg⟩ := k.file_cons hfile
    obtain rfl : x :: g ++ [c.written r.pvid.datablock] = f := by
      simpa [CodecMuxer.added, hg] using hf
    rw [kept.other hs]
    exact (k.samples _ hg).concat codec

theorem closed_announced (r : Recorder)
    (ok : (∃ x f, c.file = some (x :: f)) → c.eCodec = .h264 ∧ r.pvid.vidinfo.un32vidscount ≠ 0) :
    ∀ f ∈ (c.muxerVidencClose r).closed, f.Announced := by
  intro f hf
  rcases List.mem_append.mp hf with hf | hf
  · exact k.closed f hf
  · obtain ⟨g, hg, rfl⟩ := by simpa using hf
    refine (k.samples g hg).announced (fun hne => ?_)
    obtain ⟨x, rest, rfl⟩ := List.exists_cons_of_ne_nil hne
    obtain ⟨codec, count⟩ := ok ⟨x, rest, hg⟩
    rw [if_neg count, codec]

theorem turn (ok : Matched c (.muxer (.task .process))) (h : c.muxerVidenc = some t) : Tracked t := by
  obtain ⟨u, hu, rfl⟩ := Option.map_eq_some_iff.mp h
  have sound := (Muxer.turn k.sound).sound k.sound
  have turned := c.muxer.turned k.sound
  simp only [Matched] at ok
  cases hf : c.muxer.fileTurn with
  | keep =>
    rw [hf] at hu turned
    obtain rfl := Option.some.inj hu
    exact k.same sound turned.1 turned.2
  | create =>
    rw [hf] at hu turned
    obtain rfl := Option.some.inj hu
    exact
      { sound := sound
        file := turned.1.symm
        files := k.files.trans turned.2.symm
        samples := fun f e => Option.some.inj e ▸ uniform_nil _
        closed := k.closed }
  | write r =>
    rw [hf] at hu turned ok
    obtain ⟨file, files, hb, hr, place⟩ := turned
    obtain ⟨info, kept, rfl⟩ := CodecMuxer.muxerVidencWrite_added hb hr hu
    exact
      { sound := sound
        file := by
          simp only [file, ← k.file, CodecMuxer.added]
          cases c.file <;> simp [CodecMuxer.written]
        files := k.files.trans files.symm
        samples := k.samples_added kept hr ok.1 ok.2 place
        closed := k.closed }
  | close r =>
    rw [hf] at hu turned ok
    obtain rfl := Option.some.inj hu
    exact
      { sound := sound
        file := turned.1.symm
        files := by
          simp only [turned.2, ← k.files, ← k.file, CodecMuxer.muxerVidencClose]
          cases c.file <;> simp
        samples := fun f e => nomatch e
        closed := k.closed_announced r ok }

end Tracked

theorem codecMuxer_tracked : codecMuxer.Inductive Matched Tracked where
  init h := by
    obtain ⟨n, m, eCodec, rfl⟩ := h
    exact ⟨muxer_sound.init ⟨n, Set.mem_univ n, rfl⟩, rfl, rfl, by simp [codecInit], by simp [codecInit]⟩
  step {c e t} k ok st := by
    have st : c.step e = some t := st
    have sound (e : MuxerEvent) : (c.muxer.step e).gVidenc.Sound :=
      (muxer_sound (F := Set.univ)).step k.sound trivial ⟨fun _ _ => trivial, rfl⟩
    cases e with
    | codec eCodec =>
      obtain rfl := Option.some.inj st
      exact { k with }
    | encode m =>
      obtain rfl := Option.some.inj st
      exact { k with }
    | muxer e =>
      cases e with
      | sdcard =>
        obtain rfl := Option.some.inj st
        exact k.same (sound _) c.muxer.sdcardTask_file.1 c.muxer.sdcardTask_file.2
      | task e =>
        cases e with
        | process => exact k.turn ok st
        | record addr size type =>
          obtain rfl := Option.some.inj st
          obtain ⟨file, files⟩ := c.muxer.gVidenc.isrRecorddata_file addr size type
          exact k.same (sound _) file files
        | save on =>
          obtain rfl := Option.some.inj st
          exact k.same (sound _) rfl rfl
        | fps n =>
          obtain rfl := Option.some.inj st
          exact k.same (sound _) rfl rfl

/-- A frame recorded alone; recording is then switched off, and the codec set for the channel. -/
def soleFrame (frame : List UInt8) (type : StreamMsg) (eCodec : VideoCodec) : List CodecEvent :=
  [.muxer (.task .process), .muxer (.task (.record 0 frame.length type)), .muxer (.task .process),
    .muxer (.task .process), .muxer (.task (.save false)), .codec eCodec, .muxer (.task .process),
    .muxer (.task .process)]

def avcFrame : List UInt8 :=
  annexB [(1, [0x67, 0x4d, 0x20, 0x1f]), (1, [0x68, 0xee]), (1, [0x65, 0x88, 0x84])]

def hevcVps : List UInt8 :=
  [0x40, 0x01, 0x0c, 0x01, 0xff, 0xff, 0x01, 0x60, 0x00, 0x00, 0x03, 0x00, 0x90, 0x00, 0x00, 0x03, 0x00,
    0x00, 0x03, 0x00, 0x5d, 0x95, 0x98, 0x09]

/-- A frame with the VPS of a stream of main profile at level 3.1. -/
def hevcFrame : List UInt8 :=
  annexB [(1, hevcVps), (1, [0x42, 0x01, 0x01]), (1, [0x44, 0x01, 0xc1]), (1, [0x26, 0x01, 0xaf])]

theorem codecMuxer_run {es : List CodecEvent} (allowed : Admitted ok CodecMuxer.step c es)
    (init : codecMuxer.init c) (h : (es.foldlM CodecMuxer.step c).map CodecMuxer.closed = some l) :
    ∃ t, Reach codecMuxer ok t ∧ t.closed = l := by
  obtain ⟨t, ht, rfl⟩ := Option.map_eq_some_iff.mp h
  exact ⟨t, (Reach.init init).foldlM (fun h => h) allowed ht, rfl⟩

theorem avcFrame_found : Found (Mem.ofList avcFrame) ⟨0, avcFrame.length, 1, .h264I⟩ 1 1 1
    [0x67, 0x4d, 0x20, 0x1f] [0x68, 0xee] [0x65, 0x88, 0x84] where
  laid :=
    { octets := Mem.holds_ofList _
      plain := by
        intro u hu
        simp only [List.mem_cons, List.not_mem_nil, or_false] at hu
        rcases hu with rfl | rfl | rfl <;> exact ⟨⟨by decide, by decide⟩, by decide⟩
      fits := ⟨by decide, by decide, by decide, trivial⟩
      some_unit := by decide
      size_lt := by decide }
  isSps := by decide
  isPps := by decide
  other := by decide
  level := by decide

/-- In a run whose steps are all matched, every file that was closed announces its samples. -/
theorem codec_announced (h : Reach codecMuxer Matched c) :
    c.closed.map (fun f => f.samples.map Written.frame) = c.muxer.gVidenc.files ∧
      ∀ f ∈ c.closed, f.Announced :=
  have k := codecMuxer_tracked.reach h
  ⟨k.files, k.closed⟩

theorem codec_announced_avc : ∃ c, Reach codecMuxer Matched c ∧
    c.closed = [⟨[⟨⟨0, avcFrame.length, 1, .h264I⟩, avcFrame⟩],
      some (.avc1 ⟨0x4d, 0x20, 0x1f, [0x67, 0x4d, 0x20, 0x1f], [0x68, 0xee]⟩)⟩] ∧
    ∀ f ∈ c.closed, f.Announced := by
  have matched : Admitted Matched CodecMuxer.step (codecInit 30 (Mem.ofList avcFrame) .h264)
      (soleFrame avcFrame .h264I .h264) := by
    refine .next trivial rfl (.next trivial rfl (.next trivial rfl
      ⟨⟨rfl, fun _ => ⟨1, 1, 1, _, _, _, avcFrame_found⟩⟩, fun t ht => ?_⟩))
    obtain ⟨info, rfl⟩ := CodecMuxer.step_write rfl rfl rfl ht
    exact .next trivial rfl (.next trivial rfl (.next trivial rfl
      ⟨fun _ => ⟨rfl, Nat.one_ne_zero⟩, fun _ _ => trivial⟩))
  obtain ⟨c, reach, closed⟩ := codecMuxer_run matched ⟨_, _, _, rfl⟩
    (show _ = some [⟨[⟨⟨0, avcFrame.length, 1, .h264I⟩, avcFrame⟩],
      some (.avc1 ⟨0x4d, 0x20, 0x1f, [0x67, 0x4d, 0x20, 0x1f], [0x68, 0xee]⟩)⟩] by decide +kernel)
  exact ⟨c, reach, closed, (codec_announced reach).2⟩

/-- An H.265 file is closed with level 0; one of H.264 is closed as H.265 once the user has set
that. -/
theorem codec_unannounced :
    (∃ c, Reach codecMuxer Lts.any c ∧
      c.closed = [⟨[⟨⟨0, hevcFrame.length, 1, .h265I⟩, hevcFrame⟩],
        some (.hev1 ⟨0x01, [0x60, 0, 0, 0], [0x90, 0, 0x03, 0, 0, 0], 0, hevcVps, [0x42, 0x01, 0x01],
          [0x44, 0x01, 0xc1]⟩)⟩] ∧
      ¬ ∀ f ∈ c.closed, f.Announced) ∧
    ∃ c h, Reach codecMuxer Lts.any c ∧
      c.closed = [⟨[⟨⟨0, avcFrame.length, 1, .h264I⟩, avcFrame⟩], some (.hev1 h)⟩] ∧
      ¬ ∀ f ∈ c.closed, f.Announced := by
  constructor
  · obtain ⟨c, reach, closed⟩ := codecMuxer_run (admitted_any _ _ (soleFrame hevcFrame .h265I .h265))
      ⟨30, Mem.ofList hevcFrame, .h265, rfl⟩
      (show _ = some [⟨[⟨⟨0, hevcFrame.length, 1, .h265I⟩, hevcFrame⟩],
        some (.hev1 ⟨0x01, [0x60, 0, 0, 0], [0x90, 0, 0x03, 0, 0, 0], 0, hevcVps, [0x42, 0x01, 0x01],
          [0x44, 0x01, 0xc1]⟩)⟩] by decide +kernel)
    refine ⟨c, reach, closed, fun h => ?_⟩
    rw [closed] at h
    obtain ⟨e, he, describes⟩ := (h _ List.mem_cons_self).params _ rfl
    obtain rfl := Option.some.inj he
    exact absurd describes.2.2.2 (by decide)
  · obtain ⟨c, reach, closed⟩ := codecMuxer_run (admitted_any _ _ (soleFrame avcFrame .h264I .h265))
      ⟨30, Mem.ofList avcFrame, .h264, rfl⟩
      (show _ = some [⟨[⟨⟨0, avcFrame.length, 1, .h264I⟩, avcFrame⟩],
        some (.hev1 ⟨0, [0, 0, 0, 0], [0, 0, 0, 0, 0, 0], 0, [], [0x67, 0x4d, 0x20, 0x1f],
          [0x68, 0xee]⟩)⟩] by decide +kernel)
    refine ⟨c, _, reach, closed, fun h => ?_⟩
    rw [closed] at h
    obtain ⟨e, he, codec⟩ := (h _ List.mem_cons_self).codec _ List.mem_cons_self
    obtain rfl := Option.some.inj he
    cases codec

end En675.Videnc
