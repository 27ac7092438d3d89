import En675.Lib.Transition
import En675.Videnc.Define

/-! `muxer_videnc_process` as the sequence of its accesses to the queue, between which
`IsrRecorddata` may queue frames.  File operations succeed; a file is the list of the
samples written to it, whose octets are the business of `Write`. -/

namespace En675.Videnc

open Lib

/-- Where the recorder task stands: outside `muxer_videnc_process`, or before the named
call inside it. -/
inductive Pc
  | wait | frist | next | nextI | write | peek | get
  deriving DecidableEq, Repr

structure Recorder where
  pvid : TVidenc
  pc : Pc
  nVidencModeNow : Nat
  nVidencModeOld : Nat
  nVidencFpsOld : Nat
  bSdVidSave : Bool
  nFps : Nat
  arrived : List SbufData
  files : List (List SbufData)
  file : Option (List SbufData)

namespace Recorder

def setState (r : Recorder) (s : VidencState) : Recorder := { r with pvid := { r.pvid with state := s } }

def goto (r : Recorder) (pc : Pc) : Recorder := { r with pc := pc }

def videncInfoInitSavetime (r : Recorder) (savetime videoFps : Nat) : Recorder :=
  { r with pvid := { r.pvid with vidinfo := { r.pvid.vidinfo with
      un32vidsmax := savetime * videoFps % 2 ^ 32 } } }

def muxerVidencClose (r : Recorder) : Recorder :=
  { r with pvid := { r.pvid with state := .idle }, files := r.files ++ r.file.toList, file := none }

/-- `pvid` is `NULL` in exactly the calls with `start = 1`. -/
def muxerVidencChangeSavetime (r : Recorder) (start : Bool) : Recorder :=
  let fpsval := if start then 30 else r.nFps
  if fpsval ≠ r.nVidencFpsOld then
    let r := { r with nVidencFpsOld := fpsval }
    let r := if start then r else (r.setState .close).muxerVidencClose
    r.videncInfoInitSavetime saveNorTimeMax fpsval
  else r

/-- The file is created, the counters and the tables are reset. -/
def muxerVidencOpen (r : Recorder) : Recorder :=
  let r := r.muxerVidencChangeSavetime true
  { r with
    file := some []
    pvid := { r.pvid with
      state := .first
      vidinfo := { r.pvid.vidinfo with
        un32vidicount := 0, un32vidscount := 0, un32audscount := 0, un32txtscount := 0 } }
    nVidencModeOld := r.nVidencModeNow
    nVidencModeNow := r.pvid.type }

def muxerVidencIdle (r : Recorder) : Recorder := (r.setState .open_).muxerVidencOpen

def muxerVidencWriteProcess (r : Recorder) (kind : StreamKind) : Recorder :=
  { r with
    file := if kind = .txts then r.file else r.file.map (· ++ [r.pvid.datablock.data])
    pvid := { r.pvid with datablock := .cleared } }

def muxerVidencWrite (r : Recorder) : Recorder :=
  if r.pvid.datablock.state = 1 then
    let (info, kind) := r.pvid.vidinfo.count r.pvid.datablock.type
    let r := { r with pvid := { r.pvid with vidinfo := info } }
    let r := match kind with
      | some k => r.muxerVidencWriteProcess k
      | none => r
    { r with pvid := { r.pvid with datablock := { r.pvid.datablock with state := 0 } } }
  else r

/-- A frame taken off the queue into `datablock`. -/
def taken (r : Recorder) (d : SbufData) (q : Sbuf) : Recorder :=
  { r with pvid := { r.pvid with sbuf := q, datablock := r.pvid.datablock.load d } }

def hold (r : Recorder) : Recorder :=
  { r with pvid := { r.pvid with datablock := { r.pvid.datablock with state := 1 } } }

def muxerVidencFristVideo (r : Recorder) : Recorder :=
  match sbufGet r.pvid.sbuf with
  | none => r.goto .wait
  | some (d, q) =>
    if d.flags = 1 then (((r.taken d q).setState .firstNext).hold).goto .next
    else (r.taken d q).goto .wait

/-- One round of the loop of `muxer_videnc_nextI_video`. -/
def muxerVidencNextIVideo (r : Recorder) : Recorder :=
  match sbufGet r.pvid.sbuf with
  | none => r.goto .wait
  | some (d, q) =>
    if d.flags = 1 then (((r.taken d q).setState .write).hold).muxerVidencWrite.goto .wait
    else (r.taken d q).goto .nextI

def muxerVidencFirstNext (r : Recorder) : Recorder :=
  if r.nVidencModeNow ≠ r.nVidencModeOld then r.goto .nextI
  else (r.muxerVidencWrite.setState .write).goto .write

/-- The test made before the write loop and after each of its rounds. -/
def goOn (r : Recorder) : Recorder :=
  if r.pvid.state = .idle ∨ r.pvid.state = .close ∨ r.pvid.state = .exit then r.goto .wait
  else if r.bSdVidSave = false then (r.setState .exit).goto .wait
  else r.goto .peek

def writeEntry (r : Recorder) : Recorder :=
  if r.bSdVidSave then (r.muxerVidencChangeSavetime false).goOn
  else (r.setState .exit).goto .wait

def writePeek (r : Recorder) : Recorder :=
  match sbufPeek r.pvid.sbuf with
  | none => r.goto .wait
  | some d =>
    let r := { r with pvid := { r.pvid with datablock := r.pvid.datablock.load d } }
    if d.type.isIframe ∧ r.pvid.vidinfo.un32vidscount ≥ r.pvid.vidinfo.un32vidsmax then
      (r.setState .close).muxerVidencClose.goOn
    else r.goto .get

def writeGet (r : Recorder) : Recorder :=
  match sbufGet r.pvid.sbuf with
  | none => r.goto .wait
  | some (d, q) => ((r.taken d q).hold).muxerVidencWrite.goOn

/-- The switch on the state with which a call begins. -/
def enter (r : Recorder) : Recorder :=
  match r.pvid.state with
  | .idle => r.muxerVidencIdle.goto .frist
  | .first => r.goto .frist
  | .firstNext => r.goto .next
  | .write => r.goto .write
  | .close => r
  | .exit => r.muxerVidencClose
  | .open_ => r

def muxerVidencProcess (r : Recorder) : Recorder :=
  match r.pc with
  | .wait => r.enter
  | .frist => r.muxerVidencFristVideo
  | .next => r.muxerVidencFirstNext
  | .nextI => r.muxerVidencNextIVideo
  | .write => r.writeEntry
  | .peek => r.writePeek
  | .get => r.writeGet

def muxerVidencBuffering (r : Recorder) (d : SbufData) : Recorder :=
  if d.size = 0 then r
  else { r with pvid := { r.pvid with sbuf := sbufPut r.pvid.sbuf d }, arrived := r.arrived ++ [d] }

def isrRecorddata (r : Recorder) (addr size : Nat) (type : StreamMsg) : Recorder :=
  match recordFlags type with
  | some flags => r.muxerVidencBuffering ⟨addr, size, flags, type⟩
  | none => r

end Recorder

inductive Event
  | record (addr size : Nat) (type : StreamMsg)
  | process
  | save (on : Bool)
  | fps (n : Nat)
  deriving DecidableEq, Repr

def Recorder.step (r : Recorder) : Event → Recorder
  | .record addr size type => r.isrRecorddata addr size type
  | .process => r.muxerVidencProcess
  | .save on => { r with bSdVidSave := on }
  | .fps n => { r with nFps := n }

/-- After `muxer_videnc_init` and the start of the task, with recording on. -/
def recorderInit : Recorder :=
  { pvid :=
      { type := eRecNormal, state := .idle, sbuf := sbufInit numStreamTotal
        vidinfo := ⟨0, 0, 0, 0, saveNorTimeMax * 30⟩
        datablock := .cleared }
    pc := .wait
    nVidencModeNow := 0
    nVidencModeOld := 2 ^ 32 - 1
    nVidencFpsOld := 30
    bSdVidSave := true
    nFps := 30
    arrived := []
    files := []
    file := none }

def recorder : Lts Recorder Event where
  init r := r = recorderInit
  step r e r' := r' = r.step e

/-- Recording stays on at 30 fps and the queue has room for every frame. -/
def Steady (r : Recorder) : Event → Prop
  | .record _ _ _ => r.pvid.sbuf.isFull = false
  | .process => True
  | .save on => on = true
  | .fps n => n = 30

end En675.Videnc
