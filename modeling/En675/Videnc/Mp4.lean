import En675.Lib.Transition
import En675.Videnc.Sample

/-! An MP4 recording from open to close, and when its sample tables describe the file. -/

namespace En675.Videnc

open Lib Lib.AnnexB

inductive Phase
  | none | recording | closed
  deriving DecidableEq, Repr

/-- A recorder and the frames given to `muxer_videnc_write` since the last open. -/
structure Mp4 where
  mux : Muxing
  phase : Phase
  frames : List (List UInt8)

inductive FileOp
  | start (header : Ptr)
  | write (state : VidencState) (m : Mem) (frame : SbufData)
  | finish (header : Ptr)

/-- The recorder about to write a frame, in state `VIDENC_FIRST_NEXT` or `VIDENC_WRITE`. -/
def Muxing.given (s : Muxing) (state : VidencState) (d : SbufData) : Muxing :=
  { s with state := state, datablock := { s.datablock.load d with state := 1 } }

def Mp4.step (s : Mp4) : FileOp → Option Mp4
  | .start header =>
    if s.phase = .recording then none
    else (muxerVidencOpenFile s.mux header).map (fun t => ⟨t, .recording, []⟩)
  | .write state m d =>
    if s.phase = .recording then
      (muxerVidencWrite m (s.mux.given state d)).map
        (fun t => ⟨t, .recording, s.frames ++ [m.read d.addr d.size]⟩)
    else none
  | .finish header =>
    if s.phase = .recording then
      (muxerVidencClose { s.mux with state := .close } header).map (fun t => ⟨t, .closed, s.frames⟩)
    else none

structure Arrays (info : TMp4Data) : Prop where
  vps : info.vpsData.length = 32
  sps : info.spsData.length = 64
  pps : info.ppsData.length = 8

/-- What `videnc_info_init_buffer` and `videnc_info_init_savetime` set up. -/
structure Muxing.Init (s : Muxing) : Prop where
  hdrSize : s.hdrSize = 64 * 1024
  total : s.sink.total = vidBufSize
  arrays : Arrays s.vidinfo

def mp4 : Lts Mp4 FileOp where
  init s := s.mux.Init ∧ s.phase = .none
  step s op t := s.step op = some t

/-- The octets of the file, those still buffered included. -/
def Mp4.octets (s : Mp4) : List UInt8 :=
  match s.phase with
  | .closed => s.mux.sink.fpvid.content
  | _ => s.mux.sink.written

def Mp4.samples (s : Mp4) : List (List UInt8) := s.frames.map (fun f => sampleOf (units f))

/-- The offsets of samples laid out one after the other from `ofs` on. -/
def offsets : Nat → List (List UInt8) → List Nat
  | _, [] => []
  | ofs, x :: xs => ofs :: offsets (ofs + x.length) xs

/-- The sample tables describe the octets of the file. -/
structure Mp4.Described (s : Mp4) : Prop where
  stsz : s.mux.vstbl.stsz.map vidswapSB32 = s.samples.map List.length
  stco : s.mux.vstbl.stco.map vidswapSB32 = offsets s.mux.hdrSize s.samples
  mdat : s.mux.vidinfo.mdatSize = (s.mux.vstbl.stsz.map vidswapSB32).sum
  octets : ∃ header, header.length = s.mux.hdrSize ∧ s.octets = header ++ s.samples.flatten

def frameWindows : StreamMsg → List Nat
  | .h264I => h264Windows
  | .h265I => h265Windows
  | _ => [32]

/-- The arrays that keep the parameter sets of the first I frame. -/
def keepCaps : StreamMsg → List Nat
  | .h264I => [64, 8]
  | .h265I => [32, 64, 8]
  | _ => []

/-- The frames for which the tables come out right: every start code is found, the
parameter sets fit their arrays, the tables have room and the file stays below 4 GiB. -/
structure Framed (s : Muxing) (state : VidencState) (m : Mem) (d : SbufData)
    (l : List (Nat × List UInt8)) : Prop where
  recorded : recordFlags d.type = some d.flags
  laid : Laid m d.addr d.size (frameWindows d.type) l
  keeps : state = .firstNext →
    List.Forall₂ (fun cap u => u.2.length ≤ cap) (keepCaps d.type) (l.take (keepCaps d.type).length)
  tables : s.vstbl.stsz.length < s.vstbl.size
  total : s.hdrSize + s.vidinfo.mdatSize + (sampleOf (l.map Prod.snd)).length < 2 ^ 32

/-- What a write leaves, `x` being the sample. -/
structure Wrote (s : Muxing) (x : List UInt8) (t : Muxing) : Prop where
  sink : Sink.Added s.sink x t.sink
  stsz : t.vstbl.stsz = s.vstbl.stsz ++ [vidswapSB32 x.length]
  stco : t.vstbl.stco = s.vstbl.stco ++ [vidswapSB32 (s.hdrSize + s.vidinfo.mdatSize)]
  stss : t.vstbl.stss.length ≤ s.vstbl.stss.length + 1
  mdat : t.vidinfo.mdatSize = s.vidinfo.mdatSize + x.length
  hdrSize : t.hdrSize = s.hdrSize
  arrays : Arrays t.vidinfo

/-- The three tables grow together, but for `stss`. -/
structure Level (t : MP4HeaderSTBL) : Prop where
  stco : t.stco.length = t.stsz.length
  stss : t.stss.length ≤ t.stsz.length

theorem storeEntry_eq (h : table.length < size) (e : Nat) :
    storeEntry size table e = some (table ++ [e]) := if_pos h

theorem tableSample_eq {s : Muxing} (level : Level s.vstbl) (room : s.vstbl.stsz.length < s.vstbl.size)
    (sync : Bool) (size : Nat) :
    tableSample s sync size = some
      { s with
        vstbl :=
          { s.vstbl with
            stss := if sync then s.vstbl.stss ++ [vidswapSB32 s.vidinfo.un32vidscount] else s.vstbl.stss
            stsz := s.vstbl.stsz ++ [vidswapSB32 size]
            stco := s.vstbl.stco ++ [vidswapSB32 (uadd s.vidinfo.mdatSize s.hdrSize)] }
        vidinfo := { s.vidinfo with mdatSize := uadd s.vidinfo.mdatSize size } } := by
  have stco : s.vstbl.stco.length < s.vstbl.size := level.stco ▸ room
  have stss : s.vstbl.stss.length < s.vstbl.size := level.stss.trans_lt room
  cases sync with
  | true =>
    simp only [tableSample, storeEntry_eq room, storeEntry_eq stco, storeEntry_eq stss, if_true,
      Option.bind_eq_bind, Option.bind_some]
    rfl
  | false =>
    simp only [tableSample, storeEntry_eq room, storeEntry_eq stco, Bool.false_eq_true, if_false,
      Option.bind_eq_bind, Option.bind_some]
    rfl

theorem tableSample_wrote {s : Muxing} (level : Level s.vstbl) (arrays : Arrays s.vidinfo)
    (room : s.vstbl.stsz.length < s.vstbl.size) (added : Sink.Added s.sink x k)
    (total : s.hdrSize + s.vidinfo.mdatSize + x.length < 2 ^ 32) (sync : Bool) :
    ∃ t, tableSample { s with sink := k } sync x.length = some t ∧ Wrote s x t ∧ t.state = s.state := by
  have ofs : uadd s.vidinfo.mdatSize s.hdrSize = s.hdrSize + s.vidinfo.mdatSize := by
    rw [uadd_of_lt (by omega), Nat.add_comm]
  have mdat : uadd s.vidinfo.mdatSize x.length = s.vidinfo.mdatSize + x.length :=
    uadd_of_lt (by omega)
  have e := tableSample_eq (s := { s with sink := k }) level room sync x.length
  simp only [ofs, mdat] at e
  refine ⟨_, e, ⟨added, rfl, rfl, ?_, rfl, rfl, arrays.1, arrays.2, arrays.3⟩, rfl⟩
  cases sync <;> simp

/-- A parameter set that fits its array is copied. -/
theorem copyParam_fits {m : Mem} {array nal : List UInt8} (hn : nal.length ≤ array.length)
    (ha : array.length < 2 ^ 16) (a : Nat) :
    ∃ n array', copyParam m array (some a) nal.length = some (n, array') ∧
      array'.length = array.length := by
  simp only [copyParam, Nat.mod_eq_of_lt (show nal.length < 2 ^ 16 by omega), if_pos hn]
  split
  · exact ⟨_, _, rfl, rfl⟩
  · refine ⟨_, _, rfl, ?_⟩
    simp only [List.length_append, Mem.length_read, List.length_drop]
    omega

theorem keepH264_fits {m : Mem} {info : TMp4Data} {sps pps : List UInt8} (arrays : Arrays info)
    (hs : sps.length ≤ 64) (hp : pps.length ≤ 8) (a b : Nat) (starts : List (Option Nat))
    (sizes : List Nat) :
    ∃ info', keepH264 m info (some a :: some b :: starts) (sps.length :: pps.length :: sizes) =
        some info' ∧ Arrays info' ∧ info'.mdatSize = info.mdatSize := by
  obtain ⟨n, spsData, es, ls⟩ := copyParam_fits (m := m) (arrays.sps ▸ hs)
    (by rw [arrays.sps]; decide) a
  obtain ⟨k, ppsData, ep, lp⟩ := copyParam_fits (m := m) (arrays.pps ▸ hp)
    (by rw [arrays.pps]; decide) b
  simp only [keepH264, es, ep, Option.bind_eq_bind, Option.bind_some]
  exact ⟨_, rfl, ⟨arrays.vps, ls.trans arrays.sps, lp.trans arrays.pps⟩, rfl⟩

theorem keepH265_fits {m : Mem} {info : TMp4Data} {vps sps pps : List UInt8} (arrays : Arrays info)
    (hv : vps.length ≤ 32) (hs : sps.length ≤ 64) (hp : pps.length ≤ 8) (a b c : Nat)
    (starts : List (Option Nat)) (sizes : List Nat) :
    ∃ info', keepH265 m info (some a :: some b :: some c :: starts)
        (vps.length :: sps.length :: pps.length :: sizes) = some info' ∧ Arrays info' ∧
        info'.mdatSize = info.mdatSize := by
  obtain ⟨n, vpsData, ev, lv⟩ := copyParam_fits (m := m) (arrays.vps ▸ hv)
    (by rw [arrays.vps]; decide) a
  have arrays' : Arrays { info with vpsSize := n, vpsData := vpsData } :=
    ⟨lv.trans arrays.vps, arrays.sps, arrays.pps⟩
  obtain ⟨info', e, ha, hm⟩ := keepH264_fits (m := m) arrays' hs hp b c starts sizes
  simp only [keepH265, ev, Option.bind_eq_bind, Option.bind_some, e]
  exact ⟨info', rfl, ha, hm⟩

/-- The first I frame's parameter sets are kept, if they fit. -/
def Keeps (s : Muxing) (l : List (Nat × List UInt8))
    (keep : TMp4Data → List (Option Nat) → List Nat → Option TMp4Data) : Prop :=
  s.state = .firstNext → ∀ info, Arrays info →
    ∃ info', keep info (unitStarts s.datablock.addr l) (l.map (fun u => u.2.length)) = some info' ∧
      Arrays info' ∧ info'.mdatSize = info.mdatSize

structure Ready (s : Muxing) : Prop where
  appends : s.sink.Appends
  filesize : s.sink.filesize < 2 ^ 32
  level : Level s.vstbl
  arrays : Arrays s.vidinfo

theorem writeIframe_wrote {m : Mem} {s : Muxing} (r : Ready s)
    (laid : Laid m s.datablock.addr s.datablock.size windows l)
    (room : s.vstbl.stsz.length < s.vstbl.size)
    (total : s.hdrSize + s.vidinfo.mdatSize + (sampleOf (l.map Prod.snd)).length < 2 ^ 32)
    (keeps : Keeps s l keep) :
    ∃ t, writeIframe m windows keep s = some t ∧ Wrote s (sampleOf (l.map Prod.snd)) t := by
  obtain ⟨k, ek, added⟩ := addFrame_added laid r.appends r.filesize
  have size := sampleSize_eq (show (sampleOf (l.map Prod.snd)).length < 2 ^ 32 by omega)
  rw [List.map_map, show List.length ∘ Prod.snd = fun u : Nat × List UInt8 => u.2.length from rfl] at size
  obtain ⟨t, et, wrote, hstate⟩ := tableSample_wrote r.level r.arrays room added total true
  simp only [writeIframe, ek, size, et, Option.bind_eq_bind, Option.bind_some]
  split
  · rename_i hs
    obtain ⟨info', ei, arrays, mdat⟩ := keeps (hstate ▸ hs) t.vidinfo wrote.arrays
    simp only [ei, Option.bind_some]
    exact ⟨_, rfl, { wrote with mdat := mdat.trans wrote.mdat, arrays := arrays }⟩
  · exact ⟨t, rfl, wrote⟩

theorem writePframe_wrote {m : Mem} {s : Muxing} (r : Ready s)
    (laid : Laid m s.datablock.addr s.datablock.size [32] l)
    (room : s.vstbl.stsz.length < s.vstbl.size)
    (total : s.hdrSize + s.vidinfo.mdatSize + (sampleOf (l.map Prod.snd)).length < 2 ^ 32) :
    ∃ t, writePframe m s = some t ∧ Wrote s (sampleOf (l.map Prod.snd)) t := by
  obtain ⟨k, ek, added⟩ := addFrame_added laid r.appends r.filesize
  have size := sampleSize_eq (show (sampleOf (l.map Prod.snd)).length < 2 ^ 32 by omega)
  rw [List.map_map, show List.length ∘ Prod.snd = fun u : Nat × List UInt8 => u.2.length from rfl] at size
  obtain ⟨t, et, wrote, _⟩ := tableSample_wrote r.level r.arrays room added total false
  simp only [writePframe, ek, size, et, Option.bind_eq_bind, Option.bind_some]
  exact ⟨t, rfl, wrote⟩

/-- Three units in the windows of an H.264 I frame. -/
theorem keeps_h264 {m : Mem} {s : Muxing} (fits : Fits h264Windows 0 l)
    (caps : s.state = .firstNext → List.Forall₂ (fun cap u => u.2.length ≤ cap) [64, 8] (l.take 2)) :
    Keeps s l (keepH264 m) := by
  intro hs info arrays
  match l, fits, caps hs with
  | [(_, sps), (_, pps), _], _, .cons h₁ (.cons h₂ .nil) =>
    exact keepH264_fits arrays h₁ h₂ _ _ _ _

theorem keeps_h265 {m : Mem} {s : Muxing} (fits : Fits h265Windows 0 l)
    (caps : s.state = .firstNext →
      List.Forall₂ (fun cap u => u.2.length ≤ cap) [32, 64, 8] (l.take 3)) :
    Keeps s l (keepH265 m) := by
  intro hs info arrays
  match l, fits, caps hs with
  | [(_, vps), (_, sps), (_, pps), _], _, .cons h₁ (.cons h₂ (.cons h₃ .nil)) =>
    exact keepH265_fits arrays h₁ h₂ h₃ _ _ _ _ _

/-- `muxer_videnc_write` counts a held frame, writes its sample and clears the block. -/
theorem muxerVidencWrite_eq {m : Mem} {s t : Muxing}
    (hc : (s.vidinfo.toTMp4.count s.datablock.type).2 = some kind) (hb : s.datablock.state = 1)
    (hs : writeSample m s.counted kind = some t) :
    muxerVidencWrite m s = some { t with datablock := .cleared } := by
  simp only [muxerVidencWrite, if_pos hb, hc, muxerVidencWriteProcess, Option.bind_eq_bind, hs]
  rfl

theorem write_wrote {m : Mem} {s : Muxing} (r : Ready s) (f : Framed s state m d l) :
    ∃ t, muxerVidencWrite m (s.given state d) = some t ∧ Wrote s (sampleOf (l.map Prod.snd)) t := by
  have ready : Ready (s.given state d).counted :=
    ⟨r.appends, r.filesize, r.level, r.arrays.vps, r.arrays.sps, r.arrays.pps⟩
  have done {kind : StreamKind} {t : Muxing} (hc : ((s.given state d).vidinfo.toTMp4.count d.type).2 = some kind)
      (hs : writeSample m (s.given state d).counted kind = some t)
      (w : Wrote (s.given state d).counted (sampleOf (l.map Prod.snd)) t) :
      ∃ t, muxerVidencWrite m (s.given state d) = some t ∧ Wrote s (sampleOf (l.map Prod.snd)) t :=
    ⟨_, muxerVidencWrite_eq hc rfl hs, { w with }⟩
  obtain ⟨addr, size, flags, type⟩ := d
  have laid := f.laid
  cases type with
  | h264I =>
    obtain rfl : 1 = flags := Option.some.inj f.recorded
    obtain ⟨t, et, w⟩ := writeIframe_wrote ready laid f.tables f.total (keeps_h264 laid.fits f.keeps)
    exact done rfl ((writeSample_h264I Nat.one_ne_zero).trans et) w
  | h265I =>
    obtain rfl : 1 = flags := Option.some.inj f.recorded
    obtain ⟨t, et, w⟩ := writeIframe_wrote ready laid f.tables f.total (keeps_h265 laid.fits f.keeps)
    exact done rfl ((writeSample_h265I Nat.one_ne_zero).trans et) w
  | h264P =>
    obtain rfl : 0 = flags := Option.some.inj f.recorded
    obtain ⟨t, et, w⟩ := writePframe_wrote ready laid f.tables f.total
    exact done rfl ((writeSample_h264P rfl).trans et) w
  | h265P =>
    obtain rfl : 0 = flags := Option.some.inj f.recorded
    obtain ⟨t, et, w⟩ := writePframe_wrote ready laid f.tables f.total
    exact done rfl ((writeSample_h265P rfl).trans et) w
  | _ => cases f.recorded

/-- What an open leaves, over any earlier recording. -/
structure Opened (s : Muxing) (header : Ptr) (t : Muxing) : Prop where
  init : t.Init
  ready : Ready t
  written : t.sink.written = header.read t.hdrSize
  vstbl : t.vstbl = ⟨s.vstbl.size, [], [], []⟩
  mdat : t.vidinfo.mdatSize = 0

theorem open_opened {s : Muxing} (h : s.Init) (header : Ptr) :
    ∃ t, muxerVidencOpenFile s header = some t ∧ Opened s header t := by
  have room : 0 < s.sink.total := by rw [h.total]; decide
  obtain ⟨k, ek, added⟩ := Sink.bufferadd_added
    (k := { s.sink with fpvid := ⟨[], 0, 0⟩, buf := [], filesize := 0 }) ⟨rfl, room⟩
    (by decide : 0 < 2 ^ 32) header s.hdrSize
  simp only [muxerVidencOpenFile, ek, Option.bind_eq_bind, Option.bind_some]
  have arrays := h.arrays
  exact ⟨_, rfl,
    { init := ⟨h.hdrSize, added.total.trans h.total, arrays.vps, arrays.sps, arrays.pps⟩
      ready := ⟨added.appends, added.lt, ⟨rfl, le_rfl⟩, arrays.vps, arrays.sps, arrays.pps⟩
      written := by simpa [Sink.written] using added.written
      vstbl := rfl
      mdat := rfl }⟩

/-- What a close leaves: the header written again in place of the first one. -/
structure Closed (s : Muxing) (header : Ptr) (t : Muxing) : Prop where
  init : t.Init
  octets : t.sink.fpvid.content = header.read s.hdrSize ++ s.sink.written.drop s.hdrSize
  objsize : t.sink.fpvid.objsize = max (uadd s.hdrSize s.vidinfo.mdatSize) s.hdrSize
  vstbl : t.vstbl = s.vstbl
  mdat : t.vidinfo.mdatSize = s.vidinfo.mdatSize
  hdrSize : t.hdrSize = s.hdrSize

theorem close_closed {s : Muxing} (h : s.Init) (r : Ready s) (header : Ptr) :
    ∃ t, muxerVidencClose s header = some t ∧ Closed s header t := by
  have flush := Sink.flush_appends r.appends.atEnd
  have room : (closeSizes s).sink.buf.length + s.hdrSize < (closeSizes s).sink.total := by
    change 0 + s.hdrSize < s.sink.total
    rw [h.hdrSize, h.total]
    decide
  simp only [muxerVidencClose, closeHeader, Option.bind_eq_bind]
  rw [show (closeSizes s).hdrSize = s.hdrSize from rfl, Sink.bufferadd_room room header]
  refine ⟨_, rfl, ?_⟩
  exact
    { init := ⟨h.hdrSize, h.total, h.arrays.vps, h.arrays.sps, h.arrays.pps⟩
      octets := by
        rw [← flush.2.1]
        simp [Sink.muxerVidencBufferflush, fWrite, fLseek, closeSizes]
      objsize := by simp [Sink.muxerVidencBufferflush, fWrite, fLseek, closeSizes]
      vstbl := rfl
      mdat := rfl
      hdrSize := rfl }

/-- The tables of a recording, as stored. -/
structure Mp4.Tables (s : Mp4) : Prop where
  stsz : s.mux.vstbl.stsz = s.samples.map (fun x => vidswapSB32 x.length)
  stco : s.mux.vstbl.stco = (offsets s.mux.hdrSize s.samples).map vidswapSB32
  mdat : s.mux.vidinfo.mdatSize = s.samples.flatten.length
  bound : s.mux.hdrSize + s.mux.vidinfo.mdatSize < 2 ^ 32
  octets : ∃ header, header.length = s.mux.hdrSize ∧ s.octets = header ++ s.samples.flatten
  objsize : s.phase = .closed → s.mux.sink.fpvid.objsize = s.mux.hdrSize + s.mux.vidinfo.mdatSize

structure Mp4.Inv (s : Mp4) : Prop where
  init : s.mux.Init
  ready : s.phase = .recording → Ready s.mux
  tables : s.phase ≠ .none → s.Tables

/-- The condition on the frames of a run. -/
def Good (s : Mp4) : FileOp → Prop
  | .start _ => True
  | .write state m d => ∃ l, Framed s.mux state m d l
  | .finish _ => True

theorem offsets_append (ofs : Nat) (xs : List (List UInt8)) (x : List UInt8) :
    offsets ofs (xs ++ [x]) = offsets ofs xs ++ [ofs + xs.flatten.length] := by
  induction xs generalizing ofs with
  | nil => simp [offsets]
  | cons y ys ih =>
    simp only [List.cons_append, offsets, ih, List.flatten_cons, List.length_append]
    rw [Nat.add_assoc]

theorem start_inv {s t : Mp4} (h : s.Inv) (st : s.step (.start header) = some t) : t.Inv := by
  simp only [Mp4.step] at st
  split at st
  · cases st
  · obtain ⟨u, hu, o⟩ := open_opened h.init header
    rw [hu] at st
    obtain rfl := Option.some.inj st
    refine ⟨o.init, fun _ => o.ready, fun _ => ?_⟩
    exact
      { stsz := by rw [o.vstbl]; rfl
        stco := by rw [o.vstbl]; rfl
        mdat := o.mdat
        bound := by rw [o.init.hdrSize, o.mdat]; decide
        octets := ⟨header.read u.hdrSize, by simp, o.written.trans (by simp [Mp4.samples])⟩
        objsize := nofun }

theorem write_inv {s t : Mp4} (h : s.Inv) (f : Framed s.mux state m d l)
    (st : s.step (.write state m d) = some t) : t.Inv := by
  simp only [Mp4.step] at st
  split at st
  · rename_i hp
    have r := h.ready hp
    have tables := h.tables (by simp [hp])
    obtain ⟨u, hu, w⟩ := write_wrote r f
    rw [hu] at st
    obtain rfl := Option.some.inj st
    have sample : sampleOf (units (m.read d.addr d.size)) = sampleOf (l.map Prod.snd) := by
      rw [f.laid.octets, units_annexB (fun v hv => (f.laid.plain v hv).1)]
    have samples : Mp4.samples ⟨u, .recording, s.frames ++ [m.read d.addr d.size]⟩ =
        s.samples ++ [sampleOf (l.map Prod.snd)] := by
      simp [Mp4.samples, sample]
    have total := f.total
    obtain ⟨header, hh, ho⟩ := tables.octets
    refine ⟨⟨w.hdrSize.trans h.init.hdrSize, w.sink.total.trans h.init.total, w.arrays⟩, fun _ => ?_,
      fun _ => ?_⟩
    · have level := r.level
      refine ⟨w.sink.appends, w.sink.lt, ⟨?_, ?_⟩, w.arrays⟩
      · simp only [w.stco, w.stsz, List.length_append, level.stco, List.length_singleton]
      · have stss := w.stss
        have le := level.stss
        simp only [w.stsz, List.length_append, List.length_singleton]
        omega
    · exact
        { stsz := by rw [samples, List.map_append, ← tables.stsz]; exact w.stsz
          stco := by
            rw [samples]
            change u.vstbl.stco = (offsets u.hdrSize _).map _
            rw [w.hdrSize, offsets_append, List.map_append, ← tables.stco, ← tables.mdat]
            exact w.stco
          mdat := by
            rw [samples, List.flatten_append, List.length_append, ← tables.mdat]
            simpa using w.mdat
          bound := by
            change u.hdrSize + u.vidinfo.mdatSize < 2 ^ 32
            rw [w.hdrSize, w.mdat]
            omega
          octets := by
            refine ⟨header, hh.trans w.hdrSize.symm, ?_⟩
            rw [samples, List.flatten_append, ← List.append_assoc, ← ho]
            simpa [Mp4.octets, hp] using w.sink.written
          objsize := nofun }
  · cases st

theorem finish_inv {s t : Mp4} (h : s.Inv) (st : s.step (.finish header) = some t) : t.Inv := by
  simp only [Mp4.step] at st
  split at st
  · rename_i hp
    have r := h.ready hp
    have tables := h.tables (by simp [hp])
    obtain ⟨u, hu, c⟩ := close_closed (s := { s.mux with state := .close })
      ⟨h.init.hdrSize, h.init.total, h.init.arrays⟩ ⟨r.appends, r.filesize, r.level, r.arrays⟩ header
    rw [hu] at st
    obtain rfl := Option.some.inj st
    obtain ⟨head, hh, ho⟩ := tables.octets
    have bound := tables.bound
    refine ⟨c.init, nofun, fun _ => ?_⟩
    exact
      { stsz := by rw [c.vstbl]; exact tables.stsz
        stco := by rw [c.vstbl, c.hdrSize]; exact tables.stco
        mdat := c.mdat.trans tables.mdat
        bound := by rw [c.hdrSize, c.mdat]; exact bound
        octets := by
          refine ⟨header.read s.mux.hdrSize, by simp [c.hdrSize], ?_⟩
          have written : s.mux.sink.written.drop s.mux.hdrSize = s.samples.flatten := by
            rw [show s.mux.sink.written = head ++ s.samples.flatten by simpa [Mp4.octets, hp] using ho,
              ← hh, List.drop_left]
          exact c.octets.trans (congrArg _ written)
        objsize := fun _ => by
          rw [c.objsize, c.hdrSize, c.mdat]
          simp only [uadd_of_lt bound]
          omega }
  · cases st

theorem mp4_inv : mp4.Inductive Good Mp4.Inv where
  init h := ⟨h.1, fun hp => Phase.noConfusion (h.2.symm.trans hp), fun hp => absurd h.2 hp⟩
  step {s op t} h hok st := by
    cases op with
    | start header => exact start_inv h st
    | write state m d =>
      obtain ⟨l, f⟩ := hok
      exact write_inv h f st
    | finish header => exact finish_inv h st

/-- A frame the condition admits is written. -/
theorem write_step {s : Mp4} (hp : s.phase = .recording) (r : Ready s.mux) (f : Framed s.mux state m d l) :
    ∃ u, mp4.step s (.write state m d) ⟨u, .recording, s.frames ++ [m.read d.addr d.size]⟩ := by
  obtain ⟨u, hu, _⟩ := write_wrote r f
  refine ⟨u, ?_⟩
  change s.step _ = _
  simp only [Mp4.step, if_pos hp, hu]
  rfl

theorem offsets_slice {samples : List (List UInt8)} {i : Nat} (hi : samples[i]? = some x) (header : List UInt8) :
    ∃ ofs, (offsets header.length samples)[i]? = some ofs ∧
      slice (header ++ samples.flatten) ofs x.length = x := by
  induction samples generalizing i header with
  | nil => cases hi
  | cons y ys ih =>
    cases i with
    | zero =>
      obtain rfl := Option.some.inj hi
      refine ⟨header.length, rfl, ?_⟩
      rw [List.flatten_cons, ← List.append_assoc]
      exact slice_append _ _ _ rfl rfl
    | succ i =>
      obtain ⟨ofs, ho, hs⟩ := ih (by simpa using hi) (header ++ y)
      refine ⟨ofs, ?_, ?_⟩
      · simpa [offsets] using ho
      · rw [List.flatten_cons, ← List.append_assoc]
        exact hs

theorem offsets_lt {samples : List (List UInt8)} (h : base + samples.flatten.length < n)
    (ho : o ∈ offsets base samples) : o < n := by
  induction samples generalizing base with
  | nil => cases ho
  | cons x xs ih =>
    rw [List.flatten_cons, List.length_append] at h
    rcases List.mem_cons.mp ho with rfl | ho
    · omega
    · exact ih (by omega) ho

theorem length_le_flatten {samples : List (List UInt8)} (h : x ∈ samples) :
    x.length ≤ samples.flatten.length :=
  (List.sublist_flatten_of_mem h).length_le

/-- A swapped column of words below 4 GiB reads back. -/
theorem map_swap_swap {xs : List Nat} (h : ∀ x ∈ xs, x < 2 ^ 32) :
    (xs.map vidswapSB32).map vidswapSB32 = xs := by
  rw [List.map_map]
  exact (List.map_congr_left (fun x hx => vidswapSB32_vidswapSB32 (h x hx))).trans (List.map_id xs)

theorem Mp4.Tables.described {s : Mp4} (t : s.Tables) : s.Described := by
  have bound := t.bound
  rw [t.mdat] at bound
  have stsz : s.mux.vstbl.stsz.map vidswapSB32 = s.samples.map List.length := by
    rw [t.stsz, show (fun x : List UInt8 => vidswapSB32 x.length) = vidswapSB32 ∘ List.length from rfl,
      ← List.map_map, map_swap_swap]
    intro n hn
    obtain ⟨x, hx, rfl⟩ := List.mem_map.mp hn
    have := length_le_flatten hx
    omega
  exact
    { stsz := stsz
      stco := by rw [t.stco, map_swap_swap (fun o ho => offsets_lt bound ho)]
      mdat := by rw [stsz, t.mdat, List.length_flatten]
      octets := t.octets }

/-- The entries of sample `i` delimit it in the file. -/
theorem Mp4.Described.sample {s : Mp4} {i : Nat} (h : s.Described) (hi : s.samples[i]? = some x) :
    ∃ ofs len, (s.mux.vstbl.stco.map vidswapSB32)[i]? = some ofs ∧
      (s.mux.vstbl.stsz.map vidswapSB32)[i]? = some len ∧ slice s.octets ofs len = x := by
  obtain ⟨header, hh, ho⟩ := h.octets
  obtain ⟨ofs, hofs, hs⟩ := offsets_slice hi header
  refine ⟨ofs, x.length, ?_, ?_, ?_⟩
  · rw [h.stco, ← hh, hofs]
  · rw [h.stsz, List.getElem?_map, hi]
    rfl
  · rw [ho, hs]

/-- What the claim asks of the tables in every state of a recording. -/
structure Mp4.Sound (s : Mp4) : Prop where
  described : s.Described
  delimits : ∀ (i : Nat) f, s.frames[i]? = some f →
    ∃ ofs len, (s.mux.vstbl.stco.map vidswapSB32)[i]? = some ofs ∧
      (s.mux.vstbl.stsz.map vidswapSB32)[i]? = some len ∧ slice s.octets ofs len = sampleOf (units f)
  length : s.octets.length = s.mux.hdrSize + s.mux.vidinfo.mdatSize
  /-- The size `muxer_videnc_close` takes from `f_tell`. -/
  closing : s.phase = .recording →
    (closeSizes s.mux).sink.filesize = s.mux.hdrSize + s.mux.vidinfo.mdatSize
  closed : s.phase = .closed → s.mux.sink.fpvid.objsize = s.mux.hdrSize + s.mux.vidinfo.mdatSize
  /-- No write the condition admits runs out of its arrays. -/
  writes : s.phase = .recording → ∀ state m d l, Framed s.mux state m d l →
    ∃ t, mp4.step s (.write state m d) t

/-- In a run whose frames all have their start codes in the search windows, the sample
tables describe the file after every write and after the close. -/
theorem mp4_tables (h : Reach mp4 Good s) (hp : s.phase ≠ .none) : s.Sound := by
  have inv := mp4_inv.reach h
  have tables := inv.tables hp
  have length : s.octets.length = s.mux.hdrSize + s.mux.vidinfo.mdatSize := by
    obtain ⟨header, hh, ho⟩ := tables.octets
    rw [ho, List.length_append, hh, tables.mdat]
  refine ⟨tables.described, ?_, length, ?_, tables.objsize, ?_⟩
  · intro i f hf
    exact tables.described.sample (by simp [Mp4.samples, hf])
  · intro hr
    have flush := Sink.flush_appends (inv.ready hr).appends.atEnd
    change s.mux.sink.muxerVidencBufferflush.fpvid.fptr % 2 ^ 32 = _
    rw [flush.2.2, ← length, show s.octets = s.mux.sink.written by simp [Mp4.octets, hr],
      Nat.mod_eq_of_lt]
    rw [← show s.octets = s.mux.sink.written by simp [Mp4.octets, hr], length]
    exact tables.bound
  · intro hr state m d l f
    exact (write_step hr (inv.ready hr) f).imp' _ (fun _ h => h)

/-- The recorder as `muxer_videnc_init` leaves it. -/
def freshMux : Muxing where
  state := .idle
  vidinfo := ⟨⟨0, 0, 0, 0, 900⟩, 0, 0, 0, List.replicate 32 0, List.replicate 64 0, List.replicate 8 0, 0⟩
  datablock := .cleared
  sink := ⟨⟨[], 0, 0⟩, [], vidBufSize, 0⟩
  hdrSize := 64 * 1024
  vstbl := ⟨900, [], [], []⟩
  audioStsz := 0
  audio := ⟨0, [], [], []⟩

/-- A fresh recorder with its file opened. -/
theorem fresh_opened (ok : Mp4 → FileOp → Prop) (header : Ptr) (hok : ok ⟨freshMux, .none, []⟩ (.start header)) :
    ∃ t, Opened freshMux header t ∧ Reach mp4 ok ⟨t, .recording, []⟩ := by
  have init : freshMux.Init := ⟨rfl, rfl, by decide, by decide, by decide⟩
  obtain ⟨t, ht, o⟩ := open_opened init header
  have before : Reach mp4 ok ⟨freshMux, .none, []⟩ := .init ⟨init, rfl⟩
  refine ⟨t, o, before.step hok ?_⟩
  change Mp4.step _ _ = _
  simp [Mp4.step, ht]

def keyUnits : List (Nat × List UInt8) := [(1, [0x67, 0x4d, 0x20]), (1, [0x68, 0xee]), (1, [0x65, 0x88, 0x84])]

theorem mp4_tables_key : ∃ s : Mp4, s.frames = [annexB keyUnits] ∧ s.Sound := by
  obtain ⟨t, o, reach⟩ := fresh_opened Good (fun _ => 0) trivial
  have plain : ∀ u ∈ keyUnits, Plain u.2 ∧ u.2 ≠ [] := by
    intro u hu
    simp only [keyUnits, List.mem_cons, List.not_mem_nil, or_false] at hu
    rcases hu with rfl | rfl | rfl <;> exact ⟨⟨by decide, by decide⟩, by decide⟩
  have framed : Framed t .firstNext (Mem.ofList (annexB keyUnits))
      ⟨0, (annexB keyUnits).length, 1, .h264I⟩ keyUnits :=
    { recorded := rfl
      laid := ⟨by decide, plain, ⟨by decide, by decide, by decide, trivial⟩, by decide, by decide⟩
      keeps := fun _ => .cons (by decide) (.cons (by decide) .nil)
      tables := by rw [o.vstbl]; decide
      total := by rw [o.init.hdrSize, o.mdat]; decide }
  obtain ⟨u, hu⟩ := write_step (s := ⟨t, .recording, []⟩) rfl o.ready framed
  have good : Good ⟨t, .recording, []⟩ (.write .firstNext (Mem.ofList (annexB keyUnits))
      ⟨0, (annexB keyUnits).length, 1, .h264I⟩) := ⟨keyUnits, framed⟩
  exact ⟨_, congrArg (fun f => [f]) framed.laid.octets, mp4_tables (reach.step good hu) (by simp)⟩

/-- The same recording, with a sequence parameter set of 20 octets. -/
def wideUnits : List (Nat × List UInt8) :=
  [(1, 0x67 :: List.replicate 19 1), (1, [0x68, 0xee]), (1, [0x65, 0x88, 0x84])]

def wideMem : Mem := Mem.ofList (annexB wideUnits)

theorem wide_units : units (annexB wideUnits) = wideUnits.map Prod.snd := by decide

theorem wide_starts : nalStarts wideMem (some 0) h264Windows = [some 4, none, none] := by decide

theorem wide_keep (n : Nat) (info : TMp4Data) :
    ∃ info', keepH264 wideMem info [some 4, none, none] [0, 0, n] = some info' ∧
      info'.mdatSize = info.mdatSize :=
  ⟨{ info with spsSize := 0, ppsSize := 0 }, rfl, rfl⟩

theorem wide_addNals {k : Sink} (h : k.Appends) (hs : k.filesize < 2 ^ 32) (n : Nat) :
    ∃ k', addNals wideMem k [some 4, none, none] [0, 0, n] = some k' ∧
      Sink.Added k (be 4 0 ++ [] ++ (be 4 0 ++ be 4 n)) k' := by
  obtain ⟨k₁, e₁, a₁⟩ := addNal_added h hs (show wideMem.Holds 4 [] from rfl) (by decide)
  obtain ⟨k₂, e₂, a₂⟩ := addNal_missing (m := wideMem) a₁.appends a₁.lt 0
  obtain ⟨k₃, e₃, a₃⟩ := addNal_missing (m := wideMem) a₂.appends a₂.lt n
  have e₁ : addNal wideMem k (some 4) 0 = some k₁ := e₁
  refine ⟨k₃, ?_, a₁.trans (a₂.trans a₃)⟩
  simp only [addNals, Option.bind_eq_bind]
  rw [e₁, Option.bind_some, e₂, Option.bind_some, e₃]
  rfl

/-- Whatever was added, `mdat_size` advances by the sizes computed. -/
theorem writeIframe_mdat {m : Mem} {s : Muxing} (level : Level s.vstbl)
    (room : s.vstbl.stsz.length < s.vstbl.size)
    (frame : addFrame m windows s = some (starts, sizes, k))
    (keeps : ∀ info, ∃ info', keep info starts sizes = some info' ∧ info'.mdatSize = info.mdatSize) :
    ∃ u, writeIframe m windows keep s = some u ∧ u.sink = k ∧ u.hdrSize = s.hdrSize ∧
      u.vidinfo.mdatSize = uadd s.vidinfo.mdatSize (sampleSize sizes) := by
  have table := tableSample_eq (s := { s with sink := k }) level room true (sampleSize sizes)
  simp only [writeIframe, frame, Option.bind_eq_bind, Option.bind_some, table]
  split
  · obtain ⟨info', ei, mdat⟩ :=
      keeps { s.vidinfo with mdatSize := uadd s.vidinfo.mdatSize (sampleSize sizes) }
    simp only [ei, Option.bind_some]
    exact ⟨_, rfl, rfl, rfl, mdat⟩
  · exact ⟨_, rfl, rfl, rfl, rfl⟩

/-- Twelve octets are added where the tables count 12 and the whole frame. -/
theorem mp4_wide_sps :
    ∃ s : Mp4, Reach mp4 Lts.any s ∧ s.phase = .recording ∧ s.frames = [annexB wideUnits] ∧
      s.octets.length = s.mux.hdrSize + 12 ∧
      s.mux.vidinfo.mdatSize = 12 + (annexB wideUnits).length ∧ ¬ s.Described := by
  obtain ⟨t, o, reach⟩ := fresh_opened Lts.any (fun _ => 0) trivial
  let d : SbufData := ⟨0, (annexB wideUnits).length, 1, .h264I⟩
  obtain ⟨k, ek, added⟩ := wide_addNals o.ready.appends o.ready.filesize (annexB wideUnits).length
  have frame : addFrame wideMem h264Windows (t.given .firstNext d).counted =
      some ([some 4, none, none], [0, 0, (annexB wideUnits).length], k) := by
    have e : addNals wideMem (t.given .firstNext d).counted.sink [some 4, none, none]
        [0, 0, (annexB wideUnits).length] = some k := ek
    have starts : nalStarts wideMem (some (t.given .firstNext d).counted.datablock.addr) h264Windows =
        [some 4, none, none] := wide_starts
    simp only [addFrame, starts, Option.bind_eq_bind]
    exact (congrArg (fun x => Option.bind x _) e).trans rfl
  have room : t.vstbl.stsz.length < t.vstbl.size := by rw [o.vstbl]; decide
  obtain ⟨u, eu, sink, hdr, mdat⟩ := writeIframe_mdat (s := (t.given .firstNext d).counted)
    o.ready.level room frame (wide_keep _)
  have kind : ((t.given .firstNext d).vidinfo.toTMp4.count
      (t.given .firstNext d).datablock.type).2 = some .h264 := rfl
  have written := muxerVidencWrite_eq kind rfl
    ((writeSample_h264I Nat.one_ne_zero).trans eu)
  have step : mp4.step ⟨t, .recording, []⟩ (.write .firstNext wideMem d)
      ⟨{ u with datablock := .cleared }, .recording, [wideMem.read 0 (annexB wideUnits).length]⟩ := by
    change Mp4.step _ _ = _
    simp only [Mp4.step, written]
    rfl
  have frames : wideMem.read 0 (annexB wideUnits).length = annexB wideUnits :=
    Mem.holds_ofList _
  rw [frames] at step
  have length : u.sink.written.length = u.hdrSize + 12 := by
    rw [sink, added.written, o.written, hdr]
    simp
    rfl
  have size : u.vidinfo.mdatSize = 12 + (annexB wideUnits).length := by
    rw [mdat, show (t.given .firstNext d).counted.vidinfo.mdatSize = 0 from o.mdat]
    decide
  refine ⟨_, reach.step trivial step, rfl, rfl, length, size, fun h => ?_⟩
  obtain ⟨header, hh, ho⟩ := h.octets
  have both := congrArg List.length ho
  rw [List.length_append, hh] at both
  have sample : Mp4.samples ⟨{ u with datablock := .cleared }, .recording, [annexB wideUnits]⟩ =
      [sampleOf (wideUnits.map Prod.snd)] :=
    congrArg (fun x => [sampleOf x]) wide_units
  rw [sample] at both
  have := length.symm.trans both
  simp [length_sampleOf, wideUnits] at this

end En675.Videnc
