import En675.Videnc.RollOver
import Mathlib.Data.Set.Basic

/-! The sample tables of a recording, `Vstbl`, beside the recorder that fills them, with
`SdcardTask` starting and stopping it.  Allocations succeed. -/

namespace En675.Videnc

open Lib

/-- `MP4HeaderSTBL`.  The entries are the business of `Mp4`; `overrun` says that one was
stored outside the allocated `size`. -/
structure Stbl where
  size : Nat
  stssLen : Nat
  stszLen : Nat
  stcoLen : Nat
  overrun : Bool
  deriving DecidableEq, Repr

namespace Recorder

/-- What `muxer_videnc_change_savetime` returns. -/
def fpsval (r : Recorder) (start : Bool) : Nat := if start then 30 else r.nFps

end Recorder

namespace Stbl

def reset (t : Stbl) : Stbl := { t with stssLen := 0, stszLen := 0, stcoLen := 0 }

def videncInfoInitSavetime (t : Stbl) (savetime videoFps : Nat) : Stbl :=
  let un32vidsmax := savetime * videoFps % 2 ^ 32
  let t := t.reset
  if t.size < un32vidsmax then { t with size := un32vidsmax } else t

def muxerVidencChangeSavetime (t : Stbl) (r : Recorder) (start : Bool) : Stbl :=
  if r.fpsval start ≠ r.nVidencFpsOld then t.videncInfoInitSavetime saveNorTimeMax (r.fpsval start)
  else t

def muxerVidencOpen (t : Stbl) (r : Recorder) : Stbl := (t.muxerVidencChangeSavetime r true).reset

/-- A store of one entry at each of the three lengths. -/
def storeStss (t : Stbl) : Stbl :=
  { t with stssLen := uadd t.stssLen 1, overrun := t.overrun || decide (t.size ≤ t.stssLen) }

def storeStsz (t : Stbl) : Stbl :=
  { t with stszLen := uadd t.stszLen 1, overrun := t.overrun || decide (t.size ≤ t.stszLen) }

def storeStco (t : Stbl) : Stbl :=
  { t with stcoLen := uadd t.stcoLen 1, overrun := t.overrun || decide (t.size ≤ t.stcoLen) }

/-- An I frame is also entered as a sync sample. -/
def storeSample (t : Stbl) (flags : Nat) : Stbl :=
  if flags ≠ 0 then t.storeStss.storeStsz.storeStco else t.storeStsz.storeStco

def muxerVidencWriteProcess (t : Stbl) (flags : Nat) : StreamKind → Stbl
  | .h264 => t.storeSample flags
  | .h265 => t.storeSample flags
  | .g711 => t
  | .txts => t

def muxerVidencWrite (t : Stbl) (r : Recorder) : Stbl :=
  if r.pvid.datablock.state = 1 then
    match (r.pvid.vidinfo.count r.pvid.datablock.type).2 with
    | some kind => t.muxerVidencWriteProcess r.pvid.datablock.flags kind
    | none => t
  else t

/-- What a turn of `muxer_videnc_process` does to the tables, at each of its places. -/
def muxerVidencProcess (t : Stbl) (r : Recorder) : Stbl :=
  match r.pc with
  | .wait => if r.pvid.state = .idle then t.muxerVidencOpen (r.setState .open_) else t
  | .frist => t
  | .next =>
    if r.nVidencModeNow ≠ r.nVidencModeOld then t else t.muxerVidencWrite r
  | .nextI =>
    match sbufGet r.pvid.sbuf with
    | none => t
    | some (d, q) =>
      if d.flags = 1 then t.muxerVidencWrite (r.taken d q).hold else t
  | .write => if r.bSdVidSave then t.muxerVidencChangeSavetime r false else t
  | .peek => t
  | .get =>
    match sbufGet r.pvid.sbuf with
    | none => t
    | some (d, q) => t.muxerVidencWrite (r.taken d q).hold

end Stbl

/-- The recorder with its tables and the `f_fps` of its header; `recording` is the flag
`muxer_videnc_go` and `muxer_videnc_stop` write, `sdSave` is `bSDState == sd_SAVE`. -/
structure Muxer where
  gVidenc : Recorder
  vstbl : Stbl
  fFps : Nat
  recording : Bool
  sdSave : Bool

namespace Muxer

/-- A turn of `muxer_videnc`, which leaves a recorder at rest alone while not recording. -/
def muxerVidenc (m : Muxer) : Muxer :=
  if m.gVidenc.pc = .wait ∧ m.recording = false then m
  else
    { m with
      gVidenc := m.gVidenc.muxerVidencProcess
      vstbl := m.vstbl.muxerVidencProcess m.gVidenc
      fFps := if m.gVidenc.pc = .wait ∧ m.gVidenc.pvid.state = .idle then m.gVidenc.fpsval true else m.fFps
      recording := m.recording && !decide (m.gVidenc.pc = .wait ∧ m.gVidenc.pvid.state = .exit) }

def muxerVidencInit (m : Muxer) : Muxer :=
  { m with
    gVidenc := (m.gVidenc.setState .idle).muxerVidencChangeSavetime true
    vstbl := m.vstbl.muxerVidencChangeSavetime m.gVidenc true }

/-- The states `sd_IDLE` and `sd_SAVE` of `SdcardTask`. -/
def sdcardTask (m : Muxer) : Muxer :=
  if m.sdSave then
    if m.gVidenc.bSdVidSave then m
    else { m with sdSave := false, gVidenc := m.gVidenc.setState .exit }
  else if m.gVidenc.bSdVidSave then { m.muxerVidencInit with sdSave := true, recording := true }
  else m

end Muxer

inductive MuxerEvent
  | task (e : Event)
  | sdcard
  deriving DecidableEq, Repr

namespace Muxer

def step (m : Muxer) : MuxerEvent → Muxer
  | .task .process => m.muxerVidenc
  | .task e => { m with gVidenc := m.gVidenc.step e }
  | .sdcard => m.sdcardTask

end Muxer

/-- After `muxer_videnc_init` and the start of a recording, at `nFps` frames a second. -/
def muxerInit (nFps : Nat) : Muxer :=
  { gVidenc := { recorderInit with nFps := nFps }
    vstbl := ⟨saveNorTimeMax * 30, 0, 0, 0, false⟩
    fFps := 0
    recording := true
    sdSave := true }

/-- The frame rates that are configured are those in `F`. -/
def muxer (F : Set Nat) : Lts Muxer MuxerEvent where
  init m := ∃ n ∈ F, m = muxerInit n
  step m e m' := (∀ n, e = .task (.fps n) → n ∈ F) ∧ m' = m.step e

namespace Recorder

/-- A file just created. -/
structure Blank (r : Recorder) : Prop where
  file : r.file = some []
  fpsOld : r.nVidencFpsOld = 30
  modeOld : r.nVidencModeOld = 0
  count : r.pvid.vidinfo.un32vidscount = 0

/-- A file that holds the samples `f`. -/
structure Filling (r : Recorder) (f : List SbufData) : Prop where
  file : r.file = some f
  fpsOld : r.nVidencFpsOld = 30
  count : r.pvid.vidinfo.un32vidscount = f.length % 2 ^ 32
  key : ∃ d rest, f = d :: rest ∧ isKey d = true

/-- The two recorders have the same file. -/
structure SameFile (r t : Recorder) : Prop where
  file : t.file = r.file
  fpsOld : t.nVidencFpsOld = r.nVidencFpsOld
  modeOld : t.nVidencModeOld = r.nVidencModeOld
  count : t.pvid.vidinfo.un32vidscount = r.pvid.vidinfo.un32vidscount

theorem Blank.same (b : Blank r) (h : SameFile r t) : t.Blank :=
  ⟨h.file.trans b.file, h.fpsOld.trans b.fpsOld, h.modeOld.trans b.modeOld, h.count.trans b.count⟩

theorem Filling.same (b : Filling r f) (h : SameFile r t) : t.Filling f :=
  ⟨h.file.trans b.file, h.fpsOld.trans b.fpsOld, h.count.trans b.count, b.key⟩

def Ended (s : VidencState) : Prop := s = .idle ∨ s = .close ∨ s = .exit

def Writing (r : Recorder) : Prop := (r.pvid.state = .write ∨ Ended r.pvid.state) ∧ ∃ f, r.Filling f

/-- What holds at each place, whatever `SdcardTask` makes of the state meanwhile. -/
def Stands (r : Recorder) : Pc → Prop
  | .wait =>
    (r.pvid.state = .first → r.Blank) ∧ (r.pvid.state = .write → ∃ f, r.Filling f) ∧
      r.pvid.state ≠ .firstNext
  | .frist => (r.pvid.state = .first ∨ Ended r.pvid.state) ∧ r.Blank
  | .next =>
    r.Blank ∧ r.pvid.datablock.state = 1 ∧ r.pvid.datablock.flags = 1 ∧
      recordFlags r.pvid.datablock.type = some 1
  | .nextI => False
  | .write => r.Writing
  | .peek => r.Writing
  | .get => r.Writing

structure Sound (r : Recorder) : Prop where
  queue : Queued r.pvid.sbuf
  cells : 1 < r.pvid.sbuf.totNum
  type : r.pvid.type = 0
  modeNow : r.nVidencModeNow = 0
  vidsmax : r.pvid.vidinfo.un32vidsmax = saveNorTimeMax * r.nVidencFpsOld % 2 ^ 32
  place : r.Stands r.pc

/-- The test between two rounds goes on, or leaves with an ended state. -/
theorem goOn_cases (r : Recorder) :
    r.goOn = r.goto .peek ∨ ∃ s, Ended s ∧ (r.bSdVidSave = false ∨ s = r.pvid.state) ∧
      r.goOn = (r.setState s).goto .wait := by
  unfold goOn
  split
  · rename_i h
    exact .inr ⟨r.pvid.state, h, .inr rfl, rfl⟩
  · split
    · rename_i h
      exact .inr ⟨.exit, .inr (.inr rfl), .inl h, rfl⟩
    · exact .inl rfl

theorem goOn_writing {r : Recorder} (hs : r.pvid.state = .write) (hb : r.bSdVidSave = true) :
    r.goOn = r.goto .peek := by
  simp [goOn, hs, hb]

theorem Stands.ended {r : Recorder} (h : Ended r.pvid.state) : r.Stands .wait := by
  rcases h with h | h | h <;> simp [Stands, h]

theorem muxerVidencIdle_blank {r : Recorder} (h : r.nVidencModeNow = 0) : r.muxerVidencIdle.Blank := by
  by_cases hf : (30 : Nat) = r.nVidencFpsOld
  · refine ⟨?_, ?_, ?_, ?_⟩ <;>
      simp [muxerVidencIdle, muxerVidencOpen, muxerVidencChangeSavetime, setState, ← hf, h]
  · refine ⟨?_, ?_, ?_, ?_⟩ <;>
      simp [muxerVidencIdle, muxerVidencOpen, muxerVidencChangeSavetime, setState, hf, h,
        videncInfoInitSavetime]

theorem muxerVidencIdle_sound {r : Recorder} (s : r.Sound) : (r.muxerVidencIdle.goto .frist).Sound := by
  have blank := muxerVidencIdle_blank s.modeNow
  have fields : r.muxerVidencIdle.pvid.sbuf = r.pvid.sbuf ∧ r.muxerVidencIdle.pvid.type = 0 ∧
      r.muxerVidencIdle.nVidencModeNow = 0 ∧
      r.muxerVidencIdle.pvid.vidinfo.un32vidsmax =
        saveNorTimeMax * r.muxerVidencIdle.nVidencFpsOld % 2 ^ 32 := by
    by_cases hf : (30 : Nat) = r.nVidencFpsOld <;>
      simp [muxerVidencIdle, muxerVidencOpen, muxerVidencChangeSavetime, setState, hf,
        videncInfoInitSavetime, s.type, s.vidsmax]
  exact
    { queue := fields.1 ▸ s.queue
      cells := fields.1 ▸ s.cells
      type := fields.2.1
      modeNow := fields.2.2.1
      vidsmax := fields.2.2.2
      place := ⟨.inl rfl, blank.same ⟨rfl, rfl, rfl, rfl⟩⟩ }

theorem muxerVidencIdle_fields (r : Recorder) : r.muxerVidencIdle.arrived = r.arrived ∧
    r.muxerVidencIdle.pvid.sbuf = r.pvid.sbuf ∧ r.muxerVidencIdle.nFps = r.nFps ∧
    r.muxerVidencIdle.bSdVidSave = r.bSdVidSave ∧ r.muxerVidencIdle.files = r.files ∧
    r.muxerVidencIdle.pvid.state = .first := by
  by_cases hf : (30 : Nat) = r.nVidencFpsOld <;>
    simp [muxerVidencIdle, muxerVidencOpen, muxerVidencChangeSavetime, setState, hf,
      videncInfoInitSavetime]

/-- The test that closes a file before `d`. -/
def Full (r : Recorder) (d : SbufData) : Prop :=
  isKey d = true ∧ r.pvid.vidinfo.un32vidsmax ≤ r.pvid.vidinfo.un32vidscount

/-- The recorder once the frame rate is found to have changed. -/
def rateChanged (r : Recorder) : Recorder :=
  (({ r with nVidencFpsOld := r.nFps }.setState .close).muxerVidencClose).videncInfoInitSavetime
    saveNorTimeMax r.nFps

end Recorder

open Recorder

namespace Muxer

def goto (m : Muxer) (pc : Pc) : Muxer := { m with gVidenc := m.gVidenc.goto pc }

/-- What one turn of the recorder can do. -/
inductive Turn (m : Muxer) : Muxer → Prop
  | rest : m.gVidenc.pc = .wait → Turn m m
  | stop : m.gVidenc.pc = .wait → m.gVidenc.pvid.state = .exit →
      Turn m { m with gVidenc := m.gVidenc.muxerVidencClose, recording := false }
  | begin : m.gVidenc.pc = .wait → m.gVidenc.pvid.state = .idle →
      Turn m { m with
        gVidenc := m.gVidenc.muxerVidencIdle.goto .frist
        vstbl := m.vstbl.muxerVidencOpen (m.gVidenc.setState .open_)
        fFps := 30 }
  | resume : m.gVidenc.pc = .wait → m.gVidenc.pvid.state = .first → Turn m (m.goto .frist)
  | reenter : m.gVidenc.pc = .wait → m.gVidenc.pvid.state = .write → Turn m (m.goto .write)
  | drained : m.gVidenc.pc = .frist ∨ m.gVidenc.pc = .peek ∨ m.gVidenc.pc = .get →
      m.gVidenc.pvid.sbuf.toList = [] → Turn m (m.goto .wait)
  | drop : m.gVidenc.pc = .frist → m.gVidenc.pvid.sbuf.toList = d :: m.gVidenc.pvid.sbuf.pop.toList →
      Turn m { m with gVidenc := (m.gVidenc.taken d m.gVidenc.pvid.sbuf.pop).goto .wait }
  | key : m.gVidenc.pc = .frist → m.gVidenc.pvid.sbuf.toList = d :: m.gVidenc.pvid.sbuf.pop.toList →
      d.flags = 1 → recordFlags d.type = some 1 →
      Turn m { m with
        gVidenc := (((m.gVidenc.taken d m.gVidenc.pvid.sbuf.pop).setState .firstNext).hold).goto .next }
  | first : m.gVidenc.pc = .next →
      Turn m { m with
        gVidenc := (m.gVidenc.appended.setState .write).goto .write
        vstbl := m.vstbl.storeSample 1 }
  | change : m.gVidenc.pc = .write → m.gVidenc.nFps ≠ 30 →
      Turn m { m with
        gVidenc := m.gVidenc.rateChanged.goto .wait
        vstbl := m.vstbl.videncInfoInitSavetime saveNorTimeMax m.gVidenc.nFps }
  | leave : m.gVidenc.pc = .write → m.gVidenc.bSdVidSave = false ∨ s = m.gVidenc.pvid.state → Ended s →
      Turn m { m with gVidenc := (m.gVidenc.setState s).goto .wait }
  | loop : m.gVidenc.pc = .write → m.gVidenc.nFps = 30 → Turn m (m.goto .peek)
  | roll : m.gVidenc.pc = .peek → m.gVidenc.pvid.sbuf.toList = d :: m.gVidenc.pvid.sbuf.pop.toList →
      m.gVidenc.pvid.vidinfo.un32vidsmax ≤ m.gVidenc.pvid.vidinfo.un32vidscount →
      Turn m { m with gVidenc := (m.gVidenc.loaded d).muxerVidencClose.goto .wait }
  | look : m.gVidenc.pc = .peek → m.gVidenc.pvid.sbuf.toList = d :: m.gVidenc.pvid.sbuf.pop.toList →
      ¬ m.gVidenc.Full d →
      Turn m { m with gVidenc := (m.gVidenc.loaded d).goto .get }
  | take : m.gVidenc.pc = .get → m.gVidenc.pvid.sbuf.toList = d :: m.gVidenc.pvid.sbuf.pop.toList →
      recordFlags d.type = some d.flags →
      g = ((m.gVidenc.taken d m.gVidenc.pvid.sbuf.pop).hold).appended →
      (t = g.goto .peek ∨ ∃ s, Ended s ∧ (g.bSdVidSave = false ∨ s = g.pvid.state) ∧
        t = (g.setState s).goto .wait) →
      Turn m { m with gVidenc := t, vstbl := m.vstbl.storeSample d.flags }

end Muxer

/-- A write of a held video frame stores one entry of a sample. -/
theorem Stbl.muxerVidencWrite_eq {t : Stbl} {r : Recorder} (h : r.pvid.datablock.state = 1)
    (hr : recordFlags r.pvid.datablock.type = some fl) :
    t.muxerVidencWrite r = t.storeSample r.pvid.datablock.flags := by
  rw [muxerVidencWrite, if_pos h]
  rcases count_of_recorded r.pvid.vidinfo hr with hk | hk <;> simp [hk, muxerVidencWriteProcess]

namespace Recorder

theorem writePeek_look {r : Recorder} (hq : sbufPeek r.pvid.sbuf = some d) (hk : ¬ r.Full d) :
    r.writePeek = (r.loaded d).goto .get := by
  simp only [writePeek, hq]
  exact if_neg hk

theorem writePeek_roll {r : Recorder} (hq : sbufPeek r.pvid.sbuf = some d) (hk : r.Full d) :
    r.writePeek = (r.loaded d).muxerVidencClose.goto .wait := by
  have out : ((r.loaded d).setState .close).muxerVidencClose.goOn =
      (r.loaded d).muxerVidencClose.goto .wait := if_pos (.inl rfl)
  simp only [writePeek, hq]
  exact (if_pos hk).trans out

theorem changeSavetime_eq {r : Recorder} (hf : r.nVidencFpsOld = 30) :
    r.muxerVidencChangeSavetime false = if r.nFps ≠ 30 then r.rateChanged else r := by
  simp [muxerVidencChangeSavetime, hf, rateChanged]

end Recorder

namespace Muxer

variable {m : Muxer}

theorem turn_wait (s : m.gVidenc.Sound) (hp : m.gVidenc.pc = .wait) : Turn m m.muxerVidenc := by
  have place : m.gVidenc.Stands .wait := hp ▸ s.place
  cases hr : m.recording with
  | false =>
    rw [muxerVidenc, if_pos ⟨hp, hr⟩]
    exact .rest hp
  | true =>
    cases hs : m.gVidenc.pvid.state with
    | idle =>
      have e := Turn.begin hp hs
      simpa [muxerVidenc, hr, hp, hs, muxerVidencProcess, enter, Stbl.muxerVidencProcess, fpsval] using e
    | open_ =>
      have same : m.muxerVidenc = { m with recording := true } := by
        simp [muxerVidenc, hr, hp, hs, muxerVidencProcess, enter, Stbl.muxerVidencProcess]
      rw [same, ← hr]
      exact .rest hp
    | first =>
      have e := Turn.resume hp hs
      simpa [muxerVidenc, hr, hp, hs, muxerVidencProcess, enter, Stbl.muxerVidencProcess, goto] using e
    | firstNext => exact absurd hs place.2.2
    | write =>
      have e := Turn.reenter hp hs
      simpa [muxerVidenc, hr, hp, hs, muxerVidencProcess, enter, Stbl.muxerVidencProcess, goto] using e
    | close =>
      have same : m.muxerVidenc = { m with recording := true } := by
        simp [muxerVidenc, hr, hp, hs, muxerVidencProcess, enter, Stbl.muxerVidencProcess]
      rw [same, ← hr]
      exact .rest hp
    | exit =>
      have e := Turn.stop hp hs
      simpa [muxerVidenc, hr, hp, hs, muxerVidencProcess, enter, Stbl.muxerVidencProcess] using e

/-- Past the entry of `muxer_videnc_process` only the recorder and the tables change. -/
theorem muxerVidenc_inside (hp : m.gVidenc.pc ≠ .wait) : m.muxerVidenc =
    { m with
      gVidenc := m.gVidenc.muxerVidencProcess
      vstbl := m.vstbl.muxerVidencProcess m.gVidenc } := by
  simp [muxerVidenc, hp]

theorem turn_frist (s : m.gVidenc.Sound) (hp : m.gVidenc.pc = .frist) : Turn m m.muxerVidenc := by
  rw [muxerVidenc_inside (by simp [hp])]
  simp only [muxerVidencProcess, hp, Stbl.muxerVidencProcess, muxerVidencFristVideo]
  rcases sbuf_cases s.queue.wf with ⟨hq, hg, _⟩ | ⟨d, hq, hg, _⟩
  · simp only [hg]
    exact .drained (.inl hp) hq
  · have hd := s.queue.frames d (by simp [hq])
    simp only [hg]
    split
    · rename_i hf
      exact .key hp hq hf (hf ▸ hd)
    · exact .drop hp hq

theorem turn_next (s : m.gVidenc.Sound) (hp : m.gVidenc.pc = .next) : Turn m m.muxerVidenc := by
  obtain ⟨blank, hb, hf, hr⟩ : m.gVidenc.Stands .next := hp ▸ s.place
  have mode : ¬ m.gVidenc.nVidencModeNow ≠ m.gVidenc.nVidencModeOld := by
    rw [s.modeNow, blank.modeOld]
    exact fun h => h rfl
  rw [muxerVidenc_inside (by simp [hp])]
  simp only [muxerVidencProcess, hp, Stbl.muxerVidencProcess, muxerVidencFirstNext, if_neg mode,
    muxerVidencWrite_eq hb hr, Stbl.muxerVidencWrite_eq hb hr, hf]
  exact .first hp

theorem write_change (hp : m.gVidenc.pc = .write) (hs : m.gVidenc.bSdVidSave = true)
    (old : m.gVidenc.nVidencFpsOld = 30) (hn : m.gVidenc.nFps ≠ 30) :
    m.muxerVidenc =
      { m with
        gVidenc := m.gVidenc.rateChanged.goto .wait
        vstbl := m.vstbl.videncInfoInitSavetime saveNorTimeMax m.gVidenc.nFps } := by
  have out : m.gVidenc.rateChanged.goOn = m.gVidenc.rateChanged.goto .wait := if_pos (.inl rfl)
  rw [muxerVidenc_inside (by simp [hp])]
  simp [muxerVidencProcess, hp, Stbl.muxerVidencProcess, writeEntry, hs, changeSavetime_eq old,
    hn, out, Stbl.muxerVidencChangeSavetime, fpsval, old]

theorem turn_write (s : m.gVidenc.Sound) (hp : m.gVidenc.pc = .write) : Turn m m.muxerVidenc := by
  obtain ⟨_, f, filling⟩ : m.gVidenc.Stands .write := hp ▸ s.place
  have old := filling.fpsOld
  cases hs : m.gVidenc.bSdVidSave with
  | false =>
    have e := Turn.leave (s := .exit) hp (.inl hs) (.inr (.inr rfl))
    rw [muxerVidenc_inside (by simp [hp])]
    simpa [muxerVidencProcess, hp, Stbl.muxerVidencProcess, writeEntry, hs] using e
  | true =>
    by_cases hn : m.gVidenc.nFps = 30
    · rw [muxerVidenc_inside (by simp [hp])]
      rcases goOn_cases m.gVidenc with h | ⟨st, hst, hw, h⟩
      · have e := Turn.loop hp hn
        simpa [muxerVidencProcess, hp, Stbl.muxerVidencProcess, writeEntry, hs, changeSavetime_eq old,
          hn, h, Stbl.muxerVidencChangeSavetime, fpsval, old, goto] using e
      · have e := Turn.leave hp hw hst
        simpa [muxerVidencProcess, hp, Stbl.muxerVidencProcess, writeEntry, hs, changeSavetime_eq old,
          hn, h, Stbl.muxerVidencChangeSavetime, fpsval, old] using e
    · exact write_change hp hs old hn ▸ .change hp hn

theorem peek_look (hp : m.gVidenc.pc = .peek) (hq : sbufPeek m.gVidenc.pvid.sbuf = some d)
    (hk : ¬ m.gVidenc.Full d) :
    m.muxerVidenc = { m with gVidenc := (m.gVidenc.loaded d).goto .get } := by
  rw [muxerVidenc_inside (by simp [hp])]
  simp only [muxerVidencProcess, hp, Stbl.muxerVidencProcess, writePeek_look hq hk]

theorem get_take (hp : m.gVidenc.pc = .get) (hq : sbufGet m.gVidenc.pvid.sbuf = some (d, q))
    (hr : recordFlags d.type = some d.flags) :
    m.muxerVidenc =
      { m with gVidenc := ((m.gVidenc.taken d q).hold).appended.goOn, vstbl := m.vstbl.storeSample d.flags } := by
  rw [muxerVidenc_inside (by simp [hp])]
  simp only [muxerVidencProcess, hp, Stbl.muxerVidencProcess, writeGet, hq]
  rw [muxerVidencWrite_eq (r := (m.gVidenc.taken d q).hold) rfl hr,
    Stbl.muxerVidencWrite_eq (r := (m.gVidenc.taken d q).hold) rfl hr]
  rfl

theorem turn_peek (s : m.gVidenc.Sound) (hp : m.gVidenc.pc = .peek) : Turn m m.muxerVidenc := by
  rcases sbuf_cases s.queue.wf with ⟨hq, _, hg⟩ | ⟨d, hq, _, hg⟩
  · rw [muxerVidenc_inside (by simp [hp])]
    simp only [muxerVidencProcess, hp, Stbl.muxerVidencProcess, writePeek, hg]
    exact .drained (.inr (.inl hp)) hq
  · by_cases hk : m.gVidenc.Full d
    · rw [muxerVidenc_inside (by simp [hp])]
      simp only [muxerVidencProcess, hp, Stbl.muxerVidencProcess, writePeek_roll hg hk]
      exact .roll hp hq hk.2
    · exact peek_look hp hg hk ▸ .look hp hq hk

theorem turn_get (s : m.gVidenc.Sound) (hp : m.gVidenc.pc = .get) : Turn m m.muxerVidenc := by
  rcases sbuf_cases s.queue.wf with ⟨hq, hg, _⟩ | ⟨d, hq, hg, _⟩
  · rw [muxerVidenc_inside (by simp [hp])]
    simp only [muxerVidencProcess, hp, Stbl.muxerVidencProcess, writeGet, hg]
    exact .drained (.inr (.inr hp)) hq
  · have hd := s.queue.frames d (by simp [hq])
    rw [get_take hp hg hd]
    exact .take hp hq hd rfl (goOn_cases _)

theorem turn (s : m.gVidenc.Sound) : Turn m m.muxerVidenc := by
  cases hp : m.gVidenc.pc with
  | wait => exact turn_wait s hp
  | frist => exact turn_frist s hp
  | next => exact turn_next s hp
  | nextI => exact absurd s.place (by simp [Stands, hp])
  | write => exact turn_write s hp
  | peek => exact turn_peek s hp
  | get => exact turn_get s hp

end Muxer

theorem Queued.pop_room (h : Queued q) (he : q.isEmpty = false) :
    Queued q.pop ∧ q.pop.isFull = false ∧ q.pop.toList <:+ q.toList := by
  have hq := RingQueue.toList_pop h.wf he
  refine ⟨h.pop hq, Bool.eq_false_iff.mpr (fun hf => ?_), ⟨[q.front], hq.symm⟩⟩
  have shorter := RingQueue.length_pop h.wf he
  have lt := RingQueue.length_lt h.wf
  rw [RingQueue.isFull_iff h.wf.pop, RingQueue.totNum_pop] at hf
  omega

/-- The skip drops frames from the head only. -/
theorem sbufSkip_queued (h : Queued q) (hf : q.isFull = false) :
    ∀ n, Queued (sbufSkip n q) ∧ (sbufSkip n q).isFull = false ∧
      (sbufSkip n q).totNum = q.totNum ∧ (sbufSkip n q).toList <:+ q.toList := by
  intro n
  induction n generalizing q with
  | zero => exact ⟨h, hf, rfl, List.suffix_rfl⟩
  | succ n ih =>
    rw [sbufSkip]
    split
    · exact ⟨h, hf, rfl, List.suffix_rfl⟩
    · rename_i he
      split
      · obtain ⟨queued, room, suffix⟩ := h.pop_room (Bool.eq_false_iff.mpr he)
        obtain ⟨h₁, h₂, h₃, h₄⟩ := ih queued room
        exact ⟨h₁, h₂, h₃, h₄.trans suffix⟩
      · exact ⟨h, hf, rfl, List.suffix_rfl⟩

theorem sbufPut_queued (h : Queued q) (hn : 1 < q.totNum) (hd : recordFlags d.type = some d.flags) :
    Queued (sbufPut q d) ∧ (sbufPut q d).totNum = q.totNum := by
  cases hf : q.isFull with
  | false =>
    rw [sbufPut_of_room hf]
    exact ⟨h.put hf hd, rfl⟩
  | true =>
    have full := (RingQueue.isFull_iff h.wf).mp hf
    have he : q.isEmpty = false := Bool.eq_false_iff.mpr (fun he => by
      have empty := (RingQueue.isEmpty_iff h.wf).mp he
      rw [← RingQueue.length_toList, empty] at full
      simp at full
      omega)
    obtain ⟨queued, room, _⟩ := h.pop_room he
    obtain ⟨h₁, h₂, h₃, _⟩ := sbufSkip_queued queued room q.totNum
    rw [sbufPut, if_pos hf]
    exact ⟨h₁.put h₂ hd, h₃⟩

namespace Recorder

/-- Frames that arrive change the queue alone. -/
theorem record_cases (r : Recorder) (addr size : Nat) (type : StreamMsg) :
    r.isrRecorddata addr size type = r ∨ ∃ flags, recordFlags type = some flags ∧
      r.isrRecorddata addr size type =
        { r with
          pvid := { r.pvid with sbuf := sbufPut r.pvid.sbuf ⟨addr, size, flags, type⟩ }
          arrived := r.arrived ++ [⟨addr, size, flags, type⟩] } := by
  unfold isrRecorddata
  cases hr : recordFlags type with
  | none => exact .inl rfl
  | some flags =>
    simp only [muxerVidencBuffering]
    split
    · exact .inl rfl
    · exact .inr ⟨flags, rfl, rfl⟩

theorem Writing.same (h : Writing r) (same : SameFile r t)
    (state : t.pvid.state = r.pvid.state ∨ Ended t.pvid.state) : t.Writing :=
  ⟨state.elim (fun e => e ▸ h.1) .inr, h.2.imp fun _ g => g.same same⟩

theorem Stands.same (h : Stands r p) (same : SameFile r t)
    (state : t.pvid.state = r.pvid.state ∨ Ended t.pvid.state)
    (block : t.pvid.datablock = r.pvid.datablock) : t.Stands p := by
  cases p with
  | wait =>
    rcases state with hs | hs
    · obtain ⟨first, write, next⟩ := h
      exact ⟨fun h => (first (hs ▸ h)).same same,
        fun h => (write (hs ▸ h)).imp fun _ g => g.same same, hs ▸ next⟩
    · exact .ended hs
  | frist => exact ⟨state.elim (fun e => e ▸ h.1) .inr, h.2.same same⟩
  | next => exact ⟨h.1.same same, block ▸ h.2⟩
  | nextI => exact h
  | write => exact Writing.same h same state
  | peek => exact Writing.same h same state
  | get => exact Writing.same h same state

theorem Sound.record (s : Sound r) (addr size : Nat) (type : StreamMsg) :
    (r.isrRecorddata addr size type).Sound := by
  rcases r.record_cases addr size type with h | ⟨flags, hr, h⟩ <;> rw [h]
  · exact s
  · obtain ⟨queued, cells⟩ := sbufPut_queued (d := ⟨addr, size, flags, type⟩) s.queue s.cells hr
    exact ⟨queued, cells ▸ s.cells, s.type, s.modeNow, s.vidsmax,
      s.place.same ⟨rfl, rfl, rfl, rfl⟩ (.inl rfl) rfl⟩

theorem Sound.setState (s : Sound r) (h : Ended st) : (r.setState st).Sound :=
  ⟨s.queue, s.cells, s.type, s.modeNow, s.vidsmax,
    s.place.same ⟨rfl, rfl, rfl, rfl⟩ (.inr h) rfl⟩

/-- While a rate other than 30 is set, no file is being written. -/
theorem Sound.pc_wait (s : Sound r) (h : r.nVidencFpsOld ≠ 30) : r.pc = .wait := by
  by_contra hw
  have place := s.place
  have writing (hw : r.Writing) : False := h hw.2.choose_spec.fpsOld
  cases hp : r.pc <;> rw [hp] at place
  · exact hw hp
  · exact h place.2.fpsOld
  · exact h place.1.fpsOld
  · exact place
  all_goals exact writing place

/-- `muxer_videnc_init` sets the rate of 30 frames a second where another was found. -/
theorem Sound.init (s : Sound r) : ((r.setState .idle).muxerVidencChangeSavetime true).Sound := by
  have idle : (r.setState .idle).Sound := s.setState (.inl rfl)
  by_cases hf : (30 : Nat) = r.nVidencFpsOld
  · simpa [muxerVidencChangeSavetime, Recorder.setState, ← hf] using idle
  · have e : (r.setState .idle).muxerVidencChangeSavetime true =
        ({ r.setState .idle with nVidencFpsOld := 30 }).videncInfoInitSavetime saveNorTimeMax 30 := by
      simp [muxerVidencChangeSavetime, Recorder.setState, hf]
    rw [e]
    refine ⟨s.queue, s.cells, s.type, s.modeNow, rfl, ?_⟩
    change Stands _ r.pc
    rw [s.pc_wait (fun h => hf h.symm)]
    exact .ended (.inl rfl)

theorem count_recorded (m : TMp4) (h : recordFlags ty = some fl) :
    (m.count ty).1.un32vidscount = uadd m.un32vidscount 1 ∧
      (m.count ty).1.un32vidsmax = m.un32vidsmax := by
  cases ty <;> cases h <;> exact ⟨rfl, rfl⟩

theorem Filling.appended (h : Filling r f) (hr : recordFlags r.pvid.datablock.type = some fl) :
    r.appended.Filling (f ++ [r.pvid.datablock.data]) := by
  refine ⟨by simp [Recorder.appended, h.file], h.fpsOld, ?_, ?_⟩
  · refine (count_recorded r.pvid.vidinfo hr).1.trans ?_
    rw [h.count, uadd, List.length_append, Nat.mod_add_mod]
    rfl
  · obtain ⟨d, rest, hf, hk⟩ := h.key
    exact ⟨d, rest ++ [r.pvid.datablock.data], by simp [hf], hk⟩

theorem Blank.appended (h : Blank r) (hr : recordFlags r.pvid.datablock.type = some 1) :
    r.appended.Filling [r.pvid.datablock.data] := by
  refine ⟨by simp [Recorder.appended, h.file], h.fpsOld, ?_, ?_⟩
  · refine (count_recorded r.pvid.vidinfo hr).1.trans ?_
    rw [h.count]
    rfl
  · exact ⟨_, [], rfl, (recordFlags_isIframe hr).mp rfl⟩

end Recorder

theorem Recorder.Stands.left (h : Stands r .wait) : (r.goto .wait).Stands .wait :=
  h.same ⟨rfl, rfl, rfl, rfl⟩ (.inl rfl) rfl

theorem Recorder.Blank.waits (h : Blank r) (hs : r.pvid.state = .first ∨ Ended r.pvid.state) :
    r.Stands .wait := by
  rcases hs with hs | hs
  · exact ⟨fun _ => h, by simp [hs], by simp [hs]⟩
  · exact .ended hs

theorem Recorder.Writing.waits (h : Writing r) : r.Stands .wait := by
  rcases h.1 with hs | hs
  · exact ⟨by simp [hs], fun _ => h.2, by simp [hs]⟩
  · exact .ended hs

theorem Muxer.Turn.sound (s : Sound m.gVidenc) (t : Turn m m') : Sound m'.gVidenc := by
  have place := s.place
  cases t with
  | rest hp => exact s
  | stop hp hs =>
    refine ⟨s.queue, s.cells, s.type, s.modeNow, s.vidsmax, ?_⟩
    rw [show m.gVidenc.muxerVidencClose.pc = .wait from hp]
    exact .ended (.inl rfl)
  | begin hp hs => exact muxerVidencIdle_sound s
  | resume hp hs =>
    rw [hp] at place
    exact ⟨s.queue, s.cells, s.type, s.modeNow, s.vidsmax, .inl hs,
      (place.1 hs).same ⟨rfl, rfl, rfl, rfl⟩⟩
  | reenter hp hs =>
    rw [hp] at place
    exact ⟨s.queue, s.cells, s.type, s.modeNow, s.vidsmax, .inl hs,
      (place.2.1 hs).imp fun _ h => h.same ⟨rfl, rfl, rfl, rfl⟩⟩
  | drained hp hq =>
    refine ⟨s.queue, s.cells, s.type, s.modeNow, s.vidsmax, Stands.left ?_⟩
    rcases hp with hp | hp | hp <;> rw [hp] at place
    · exact place.2.waits place.1
    · exact Writing.waits place
    · exact Writing.waits place
  | drop hp hq =>
    rw [hp] at place
    exact ⟨s.queue.pop hq, s.cells, s.type, s.modeNow, s.vidsmax,
      Blank.waits (place.2.same ⟨rfl, rfl, rfl, rfl⟩) place.1⟩
  | key hp hq hf hr =>
    rw [hp] at place
    exact ⟨s.queue.pop hq, s.cells, s.type, s.modeNow, s.vidsmax,
      place.2.same ⟨rfl, rfl, rfl, rfl⟩, rfl, hf, hr⟩
  | first hp =>
    rw [hp] at place
    obtain ⟨blank, _, _, hr⟩ := place
    exact ⟨s.queue, s.cells, s.type, s.modeNow,
      (count_recorded m.gVidenc.pvid.vidinfo hr).2.trans s.vidsmax, .inl rfl,
      _, (blank.appended hr).same ⟨rfl, rfl, rfl, rfl⟩⟩
  | change hp hn =>
    exact ⟨s.queue, s.cells, s.type, s.modeNow, rfl, .ended (.inl rfl)⟩
  | leave hp hc hs =>
    exact ⟨s.queue, s.cells, s.type, s.modeNow, s.vidsmax, .ended hs⟩
  | loop hp hn =>
    rw [hp] at place
    exact ⟨s.queue, s.cells, s.type, s.modeNow, s.vidsmax,
      Writing.same place ⟨rfl, rfl, rfl, rfl⟩ (.inl rfl)⟩
  | roll hp hq hm =>
    exact ⟨s.queue, s.cells, s.type, s.modeNow, s.vidsmax, .ended (.inl rfl)⟩
  | look hp hq hk =>
    rw [hp] at place
    exact ⟨s.queue, s.cells, s.type, s.modeNow, s.vidsmax,
      Writing.same place ⟨rfl, rfl, rfl, rfl⟩ (.inl rfl)⟩
  | @take d g t hp hq hr hg ht =>
    rw [hp] at place
    obtain ⟨hs, f, filling⟩ := place
    subst hg
    have held : ((m.gVidenc.taken d m.gVidenc.pvid.sbuf.pop).hold).Filling f :=
      filling.same ⟨rfl, rfl, rfl, rfl⟩
    have next := held.appended hr
    have vidsmax := (count_recorded m.gVidenc.pvid.vidinfo hr).2.trans s.vidsmax
    rcases ht with rfl | ⟨st, hst, _, rfl⟩
    · exact ⟨s.queue.pop hq, s.cells, s.type, s.modeNow, vidsmax, hs, _,
        next.same ⟨rfl, rfl, rfl, rfl⟩⟩
    · exact ⟨s.queue.pop hq, s.cells, s.type, s.modeNow, vidsmax, .ended hst⟩

theorem Muxer.sdcard_sound {m : Muxer} (s : Sound m.gVidenc) : Sound m.sdcardTask.gVidenc := by
  unfold sdcardTask
  split <;> split
  · exact s
  · exact s.setState (.inr (.inr rfl))
  · exact s.init
  · exact s

theorem muxer_sound : (muxer F).Inductive Lts.any (fun m => Sound m.gVidenc) where
  init h := by
    obtain ⟨n, _, rfl⟩ := h
    exact ⟨(control.init rfl).queue, show 1 < numStreamTotal by decide, rfl, rfl, rfl,
      .ended (.inl rfl)⟩
  step {m e t} s _ st := by
    obtain ⟨_, rfl⟩ := st
    cases e with
    | sdcard => exact Muxer.sdcard_sound s
    | task e =>
      cases e with
      | process => exact (Muxer.turn s).sound s
      | record addr size type => exact s.record addr size type
      | save on => exact ⟨s.queue, s.cells, s.type, s.modeNow, s.vidsmax, s.place.same ⟨rfl, rfl, rfl, rfl⟩ (.inl rfl) rfl⟩
      | fps n => exact ⟨s.queue, s.cells, s.type, s.modeNow, s.vidsmax, s.place.same ⟨rfl, rfl, rfl, rfl⟩ (.inl rfl) rfl⟩

end En675.Videnc
