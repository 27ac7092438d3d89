import En675.Lib.Interact
import En675.Videnc.NameHeap
import En675.Videnc.Write

/-! The recorder on the card: `muxer_videnc.c`, `videnc_info.c` and `SdcardTask` with every call
of FatFs that can fail.  What a sample's octets and table entries are is the business of
`Write`; here the write buffer is its length.  A turn of the recorder task ends where the source
goes to the queue, round a loop or on to the next add. -/

namespace En675.Videnc

open Lib

inductive FResult
  | ok
  | err (code : Nat)
  deriving DecidableEq, Repr

/-- The calls that leave the recorder; all but the first five are on `fpvid`. -/
inductive FatCall
  | sdioCdDet
  | fatGetFreesize
  | fileGetname
  | fOpendir
  | fUnlink (name : List UInt8)
  | fOpen (name : List UInt8)
  | fExpand
  | fWrite (length : Nat)
  | fLseek
  | fClose
  deriving DecidableEq, Repr

structure FilInfo where
  fname : List UInt8
  terminated : 0 ∉ fname
  fsize : Nat
  dir : Bool
  deriving DecidableEq

/-- `SdioCdDet` tells whether a card is in; the name is the one made of the time; a directory is
what `f_readdir` reads until its end or an error, as the source only unlinks what it has read;
`f_write` also gives `bw`. -/
abbrev FatCall.Answer : FatCall → Type
  | .sdioCdDet => Bool
  | .fatGetFreesize => UInt8
  | .fileGetname => FileName
  | .fOpendir => List FilInfo
  | .fWrite _ => FResult × Nat
  | _ => FResult

abbrev FatProg := Prog FatCall FatCall.Answer

abbrev FatTrace := List (Sigma FatCall.Answer)

namespace FatProg

abbrev sdioCdDet : FatProg Bool := Prog.ask FatCall.sdioCdDet
abbrev fatGetFreesize : FatProg UInt8 := Prog.ask FatCall.fatGetFreesize
abbrev fileGetname : FatProg FileName := Prog.ask FatCall.fileGetname
abbrev fOpendir : FatProg (List FilInfo) := Prog.ask FatCall.fOpendir
abbrev fUnlink (name : List UInt8) : FatProg FResult := Prog.ask (FatCall.fUnlink name)
abbrev fOpen (name : List UInt8) : FatProg FResult := Prog.ask (FatCall.fOpen name)
abbrev fExpand : FatProg FResult := Prog.ask FatCall.fExpand
abbrev fWrite (length : Nat) : FatProg (FResult × Nat) := Prog.ask (FatCall.fWrite length)
abbrev fLseek : FatProg FResult := Prog.ask FatCall.fLseek
abbrev fClose : FatProg FResult := Prog.ask FatCall.fClose

end FatProg

def maxFileNum : Nat := 9999
def mixFreeSd4cent : Nat := 5
def saveFilenameLens : Nat := 21

def FilInfo.name (f : FilInfo) (h : f.fname.length = saveFilenameLens) : FileName where
  filename := f.fname
  terminated := f.terminated
  fits := h ▸ by decide
  long := h ▸ by decide

inductive VidError
  | full | openFail | writeFail | writeFailDiskfull | idxbufOvf
  deriving DecidableEq, Repr

/-- A call of `muxer_videnc_bufferadd`: whether its source is there, and the size still to add. -/
structure Add where
  source : Bool
  size : Int
  deriving DecidableEq, Repr

/-- Where a close returns to: the exit, the change of the frame rate and the full file. -/
inductive After
  | exit | savetime (fpsval : Nat) | full
  deriving DecidableEq, Repr

/-- What follows a series of adds. -/
inductive Back
  | open_ | next | nextI | get | closeFlush (a : After) | closeHeader (a : After) | closeLast (a : After)
  deriving DecidableEq, Repr

def Back.isSample : Back → Bool
  | .next => true
  | .nextI => true
  | .get => true
  | _ => false

/-- Where the recorder task stands. -/
inductive Place
  | wait | reclaim (cnt nFreeSize : Nat) | room (nFreeSize : Nat) | adding (adds : List Add) (back : Back)
  | frist | next | nextI | write | peek | get
  deriving DecidableEq, Repr

/-- `muxer_videnc_open` is not yet at its `f_open`. -/
def Place.isOpening : Place → Bool
  | .reclaim _ _ => true
  | .room _ => true
  | _ => false

structure Totalbuf where
  length : Nat
  total : Nat
  hdrSize : Nat
  deriving DecidableEq, Repr

structure Saver where
  pvid : TVidenc
  place : Place
  buffer : Totalbuf
  filenamelist : EncHeap
  nowName : List UInt8
  recording : Bool
  mounted : Bool
  sdSave : Bool
  nVidencModeNow : Nat
  nVidencModeOld : Nat
  nVidencFpsOld : Nat
  bSdVidSave : Bool
  nFps : Nat
  mem : Mem

section sample

/-- The adds of NAL units: a size field each, and the unit. -/
def nalAdds : List (Option Nat) → List Nat → List Add
  | start :: starts, size :: sizes => ⟨true, 4⟩ :: ⟨start.isSome, int32 size⟩ :: nalAdds starts sizes
  | _, _ => []

def frameAdds (m : Mem) (windows : List Nat) (b : TBlock) : Option (List Add) := do
  let starts := nalStarts m (some b.addr) windows
  let params ← paramSizes m starts
  return nalAdds starts (params ++ [frameSize b.addr b.size (starts.getLast?).join])

/-- The adds of `muxer_videnc_write_process`. -/
def sampleAdds (m : Mem) (b : TBlock) : StreamKind → Option (List Add)
  | .h264 => frameAdds m (if b.flags ≠ 0 then h264Windows else [32]) b
  | .h265 => frameAdds m (if b.flags ≠ 0 then h265Windows else [32]) b
  | .g711 => some [⟨true, int32 b.size⟩]
  | .txts => some []

end sample

namespace Saver

def setState (r : Saver) (s : VidencState) : Saver := { r with pvid := { r.pvid with state := s } }

def goto (r : Saver) (p : Place) : Saver := { r with place := p }

def setLength (r : Saver) (n : Nat) : Saver := { r with buffer := { r.buffer with length := n } }

def setList (r : Saver) (h : EncHeap) : Saver := { r with filenamelist := h }

def muxerVidencAllStop (r : Saver) : Saver := { r with recording := false }

def muxerVidencError (r : Saver) (e : VidError) : FatProg Saver :=
  if e = .idxbufOvf then pure (r.setState .close)
  else do
    let _ ← FatProg.fClose
    if e = .full then pure (r.setState .idle)
    else pure { (r.setState .exit).muxerVidencAllStop with bSdVidSave := false }

/-- What an error other than a full card leaves. -/
def stopped (r : Saver) : Saver :=
  { (r.setState .exit).muxerVidencAllStop with bSdVidSave := false }

theorem error_eq {e : VidError} (he : e ≠ .idxbufOvf ∧ e ≠ .full) (r : Saver) :
    r.muxerVidencError e = (do
      let _ ← FatProg.fClose
      pure r.stopped) := by
  simp only [muxerVidencError, if_neg he.1, if_neg he.2]
  rfl

/-- Whether a failed test finds the card full. -/
def noFreesize (test : Bool) : FatProg Bool :=
  if test then do
    let nFreeSize ← FatProg.fatGetFreesize
    pure (nFreeSize == 0)
  else pure false

def muxerVidencBufferflush (r : Saver) : FatProg (FResult × Saver) := do
  let (fres, writesize) ← FatProg.fWrite r.buffer.length
  if fres ≠ .ok then do
    let r ← r.muxerVidencError .writeFail
    pure (fres, r)
  else do
    let short ← noFreesize (r.buffer.length != writesize)
    if short then do
      let r ← r.muxerVidencError .writeFailDiskfull
      pure (fres, r)
    else do
      let zero ← noFreesize (writesize == 0)
      if zero then do
        let r ← r.muxerVidencError .writeFailDiskfull
        pure (fres, r)
      else pure (fres, r.setLength 0)

/-- A round of `muxer_videnc_bufferadd`, before `rest`. -/
def addRound (r : Saver) (a : Add) (rest : List Add) (back : Back) : FatProg Saver :=
  if a.source = false then do
    let (_, r) ← r.muxerVidencBufferflush
    pure (r.goto (.adding rest back))
  else if a.size ≤ 0 then pure (r.goto (.adding rest back))
  else
    let left := r.buffer.total - r.buffer.length
    let wb := if a.size.toNat ≥ left then left else a.size.toNat
    let r := r.setLength (r.buffer.length + wb)
    let more := .adding (⟨true, a.size - wb⟩ :: rest) back
    if r.buffer.length = r.buffer.total then do
      let (fres, r) ← r.muxerVidencBufferflush
      if fres ≠ .ok then pure (r.goto (.adding rest back)) else pure (r.goto more)
    else pure (r.goto more)

def videncInfoInitSavetime (r : Saver) (savetime videoFps : Nat) : Saver :=
  { r with pvid := { r.pvid with vidinfo := { r.pvid.vidinfo with
      un32vidsmax := savetime * videoFps % 2 ^ 32 } } }

/-- `muxer_videnc_change_savetime` with `start = 1`, where `pvid` is `NULL`. -/
def changeSavetimeStart (r : Saver) : Saver :=
  if 30 ≠ r.nVidencFpsOld then
    { r with nVidencFpsOld := 30 }.videncInfoInitSavetime saveNorTimeMax 30
  else r

/-- Whether there is a header, by the state it is made in. -/
def muxerVidencMakevidheader (r : Saver) : Bool × Saver :=
  match r.pvid.state with
  | .open_ =>
    let r := r.changeSavetimeStart
    (true, { r with pvid := { r.pvid with vidinfo := { r.pvid.vidinfo with
        un32vidicount := 0, un32vidscount := 0, un32audscount := 0, un32txtscount := 0 } } })
  | .close => (true, r)
  | .exit => (true, r)
  | _ => (false, r)

/-- The add of the header that the state calls for. -/
def addHeader (r : Saver) (back : Back) : Saver :=
  let (there, r) := r.muxerVidencMakevidheader
  r.goto (.adding [⟨there, r.buffer.hdrSize⟩] back)

section close

def muxerVidencClose (r : Saver) (a : After) : Saver :=
  r.goto (.adding [⟨false, -1⟩] (.closeFlush a))

/-- The test made before the write loop and after each of its rounds. -/
def goOn (r : Saver) : Saver :=
  if r.pvid.state = .idle ∨ r.pvid.state = .close ∨ r.pvid.state = .exit then r.goto .wait
  else if r.bSdVidSave = false then (r.setState .exit).goto .wait
  else r.goto .peek

def closed (r : Saver) : After → Saver
  | .exit => r.muxerVidencAllStop.goto .wait
  | .savetime fpsval => (r.videncInfoInitSavetime saveNorTimeMax fpsval).goOn
  | .full => r.goOn

end close

section open_

/-- A round of `videnc_info_file_delete`. -/
def videncInfoFileDelete (r : Saver) (cnt nFreeSize : Nat) : FatProg Saver :=
  if nFreeSize < mixFreeSd4cent then
    if r.filenamelist.usedsize = 0 then pure (r.goto (.room nFreeSize))
    else do
      let (name, list) := encHeapDeleteQueue r.filenamelist
      let r := r.setList list
      let _ ← FatProg.fUnlink name
      if cnt + 1 > maxFileNum then pure (r.goto (.room nFreeSize))
      else do
        let nFreeSize ← FatProg.fatGetFreesize
        pure (r.goto (.reclaim (cnt + 1) nFreeSize.toNat))
  else pure (r.goto (.room nFreeSize))

/-- The files are created, so what is left is the list and the header. -/
def openListed (r : Saver) (name : FileName) : FatProg Saver := do
  let (ret, list) := encHeapAddQueue r.filenamelist name
  let r := r.setList list
  if ret = 1 ∧ strcmp r.nowName r.filenamelist.delHData.filename = 0 then do
    let r ← r.muxerVidencError .openFail
    pure (r.goto .wait)
  else do
    let r ← if ret = 1 then do
        let _ ← FatProg.fUnlink r.filenamelist.delHData.filename
        pure (r.setList { r.filenamelist with delHData := .zero })
      else pure r
    pure ((r.setLength 0).addHeader .open_)

/-- `muxer_videnc_open` from the answer of `pf_sd_free` on. -/
def muxerVidencOpen (r : Saver) (nFreeSize : Nat) : FatProg Saver :=
  if nFreeSize = 0 then do
    let r ← r.muxerVidencError .full
    pure (r.goto .wait)
  else do
    let name ← FatProg.fileGetname
    let r := { r with nowName := name.filename }
    let fres ← FatProg.fOpen r.nowName
    if fres ≠ .ok then do
      let r ← r.muxerVidencError .openFail
      pure (r.goto .wait)
    else do
      let fexp ← FatProg.fExpand
      if fexp ≠ .ok then do
        let r ← r.muxerVidencError .openFail
        pure (r.goto .wait)
      else r.openListed name

/-- The end of it, behind the header. -/
def opened (r : Saver) : Saver :=
  { r.setState .first with nVidencModeOld := r.nVidencModeNow, nVidencModeNow := r.pvid.type }

def muxerVidencIdle (r : Saver) : FatProg Saver := do
  let nFreeSize ← FatProg.fatGetFreesize
  pure ((r.setState .open_).goto (.reclaim 0 nFreeSize.toNat))

end open_

section write

/-- Where the adds of a sample and `datablock` are done. -/
def resume (r : Saver) : Back → FatProg Saver
  | .open_ => pure (r.opened.goto .frist)
  | .next => pure ((r.setState .write).goto .write)
  | .nextI => pure (r.goto .wait)
  | .get => pure r.goOn
  | .closeFlush a => pure (r.addHeader (.closeHeader a))
  | .closeHeader a => do
    let _ ← FatProg.fLseek
    pure (r.goto (.adding [⟨false, -1⟩] (.closeLast a)))
  | .closeLast a => do
    let _ ← FatProg.fClose
    pure ((r.setState .idle).closed a)

/-- Behind the last add of a sample `datablock` is cleared. -/
def addsDone (r : Saver) (back : Back) : FatProg Saver :=
  (if back.isSample then { r with pvid := { r.pvid with datablock := .cleared } } else r).resume back

def muxerVidencWrite (r : Saver) (back : Back) : FatProg Saver :=
  if r.pvid.datablock.state = 1 then
    let (info, kind) := r.pvid.vidinfo.count r.pvid.datablock.type
    let r := { r with pvid := { r.pvid with vidinfo := info } }
    match kind with
    | some k =>
      match sampleAdds r.mem r.pvid.datablock k with
      | some adds => pure (r.goto (.adding adds back))
      | none => .stuck
    | none => { r with pvid := { r.pvid with datablock := { r.pvid.datablock with state := 0 } } }.resume back
  else r.resume back

/-- A frame taken off the queue into `datablock`. -/
def taken (r : Saver) (d : SbufData) (q : Sbuf) : Saver :=
  { r with pvid := { r.pvid with sbuf := q, datablock := r.pvid.datablock.load d } }

def hold (r : Saver) : Saver :=
  { r with pvid := { r.pvid with datablock := { r.pvid.datablock with state := 1 } } }

def muxerVidencFristVideo (r : Saver) : Saver :=
  match sbufGet r.pvid.sbuf with
  | none => r.goto .wait
  | some (d, q) =>
    if d.flags = 1 then (((r.taken d q).setState .firstNext).hold).goto .next
    else (r.taken d q).goto .wait

/-- One round of the loop of `muxer_videnc_nextI_video`. -/
def muxerVidencNextIVideo (r : Saver) : FatProg Saver :=
  match sbufGet r.pvid.sbuf with
  | none => pure (r.goto .wait)
  | some (d, q) =>
    if d.flags = 1 then (((r.taken d q).setState .write).hold).muxerVidencWrite .nextI
    else pure ((r.taken d q).goto .nextI)

def muxerVidencFirstNext (r : Saver) : FatProg Saver :=
  if r.nVidencModeNow ≠ r.nVidencModeOld then pure (r.goto .nextI) else r.muxerVidencWrite .next

def writeEntry (r : Saver) : Saver :=
  if r.bSdVidSave then
    if r.nFps ≠ r.nVidencFpsOld then
      ({ r with nVidencFpsOld := r.nFps }.setState .close).muxerVidencClose (.savetime r.nFps)
    else r.goOn
  else (r.setState .exit).goto .wait

def writePeek (r : Saver) : Saver :=
  match sbufPeek r.pvid.sbuf with
  | none => r.goto .wait
  | some d =>
    let r := { r with pvid := { r.pvid with datablock := r.pvid.datablock.load d } }
    if d.type.isIframe ∧ r.pvid.vidinfo.un32vidscount ≥ r.pvid.vidinfo.un32vidsmax then
      (r.setState .close).muxerVidencClose .full
    else r.goto .get

def writeGet (r : Saver) : FatProg Saver :=
  match sbufGet r.pvid.sbuf with
  | none => pure (r.goto .wait)
  | some (d, q) => ((r.taken d q).hold).muxerVidencWrite .get

end write

section process

/-- The switch on the state with which a call begins. -/
def enter (r : Saver) : FatProg Saver :=
  match r.pvid.state with
  | .idle => r.muxerVidencIdle
  | .first => pure (r.goto .frist)
  | .firstNext => pure (r.goto .next)
  | .write => pure (r.goto .write)
  | .exit => pure (r.muxerVidencClose .exit)
  | _ => pure r

/-- A turn of `muxer_videnc_process`. -/
def muxerVidencProcess (r : Saver) : FatProg Saver :=
  match r.place with
  | .wait => r.enter
  | .reclaim cnt nFreeSize => r.videncInfoFileDelete cnt nFreeSize
  | .room nFreeSize => r.muxerVidencOpen nFreeSize
  | .adding [] back => r.addsDone back
  | .adding (a :: rest) back => r.addRound a rest back
  | .frist => pure r.muxerVidencFristVideo
  | .next => r.muxerVidencFirstNext
  | .nextI => r.muxerVidencNextIVideo
  | .write => pure r.writeEntry
  | .peek => pure r.writePeek
  | .get => r.writeGet

/-- `muxer_videnc` leaves a recorder at rest alone while it is not recording. -/
def muxerVidenc (r : Saver) : FatProg Saver :=
  if r.place = .wait ∧ ¬ (r.mounted = true ∧ r.recording = true) then pure r else r.muxerVidencProcess

end process

section init

/-- A round of the loop of `videnc_info_init_filenamelist`. -/
def scanEntry (r : Saver) (f : FilInfo) : FatProg Saver :=
  if f.dir then pure r
  else if h : f.fname.length = saveFilenameLens then
    if f.fsize = 0 then do
      let _ ← FatProg.fUnlink f.fname
      pure r
    else do
      let (ret, list) := encHeapAddQueue r.filenamelist (f.name h)
      let r := r.setList list
      if ret = 1 then do
        let _ ← FatProg.fUnlink r.filenamelist.delHData.filename
        pure (r.setList { r.filenamelist with delHData := .zero })
      else pure r
  else do
    let _ ← FatProg.fUnlink f.fname
    pure r

def scan : List FilInfo → Saver → FatProg Saver
  | [], r => pure r
  | f :: fs, r => do
    let r ← r.scanEntry f
    scan fs r

def videncInfoInitFilenamelist (r : Saver) : FatProg Saver := do
  let r := r.setList (encHeapResetQueue r.filenamelist)
  let entries ← FatProg.fOpendir
  scan entries r

def muxerVidencInit (r : Saver) : FatProg Saver := do
  let there ← FatProg.sdioCdDet
  if there then do
    let r ← ((r.setState .idle).setLength 0).videncInfoInitFilenamelist
    pure { r.changeSavetimeStart with mounted := true }
  else pure r

/-- The states `sd_IDLE` and `sd_SAVE` of `SdcardTask`. -/
def sdcardTask (r : Saver) : FatProg Saver :=
  if r.sdSave then
    if r.bSdVidSave then pure r else pure { r.setState .exit with sdSave := false }
  else if r.bSdVidSave then do
    let r ← { r with sdSave := true }.muxerVidencInit
    pure { r with recording := true }
  else pure r

/-- The state `sd_READY`, for a card just put in. -/
def sdcardReady (r : Saver) : FatProg Saver := do
  let r ← r.muxerVidencInit
  pure { r with sdSave := false }

end init

def muxerVidencBuffering (r : Saver) (d : SbufData) : Saver :=
  if d.size = 0 then r else { r with pvid := { r.pvid with sbuf := sbufPut r.pvid.sbuf d } }

def isrRecorddata (r : Saver) (addr size : Nat) (type : StreamMsg) : Saver :=
  match recordFlags type with
  | some flags => r.muxerVidencBuffering ⟨addr, size, flags, type⟩
  | none => r

end Saver

/-- `encode` is the encoder's writing to memory. -/
inductive SaverEvent
  | record (addr size : Nat) (type : StreamMsg)
  | encode (mem : Mem)
  | process
  | save (on : Bool)
  | fps (n : Nat)
  | sdcard
  | insert

def Saver.turn (r : Saver) : SaverEvent → FatProg Saver
  | .record addr size type => pure (r.isrRecorddata addr size type)
  | .encode mem => pure { r with mem }
  | .process => r.muxerVidenc
  | .save on => pure { r with bSdVidSave := on }
  | .fps n => pure { r with nFps := n }
  | .sdcard => r.sdcardTask
  | .insert => r.sdcardReady

/-- After `muxer_init_buffering` and the start of the tasks. -/
structure Saver.Boot (r : Saver) : Prop where
  state : r.pvid.state = .idle
  type : r.pvid.type = eRecNormal
  sbuf : r.pvid.sbuf = sbufInit numStreamTotal
  vidinfo : r.pvid.vidinfo = ⟨0, 0, 0, 0, 0⟩
  datablock : r.pvid.datablock = .cleared
  place : r.place = .wait
  buffer : r.buffer = ⟨0, vidBufSize, 64 * 1024⟩
  list : ∃ h, r.filenamelist = encHeapCreate h (maxFileNum + 1) ∧ h.delHData = .zero
  nowName : r.nowName = []
  recording : r.recording = false
  mounted : r.mounted = false
  sdSave : r.sdSave = false
  modeNow : r.nVidencModeNow = 0
  modeOld : r.nVidencModeOld = 2 ^ 32 - 1
  fpsOld : r.nVidencFpsOld = 0

def saver : Lts (Session FatCall.Answer Saver) (SaverEvent × FatTrace) :=
  Session.system Saver.Boot Saver.turn

section runs

def bootSaver : Saver where
  pvid := ⟨eRecNormal, .idle, sbufInit numStreamTotal, ⟨0, 0, 0, 0, 0⟩, .cleared⟩
  place := .wait
  buffer := ⟨0, vidBufSize, 64 * 1024⟩
  filenamelist := encHeapCreate ⟨0, 0, fun _ => .zero, .zero⟩ (maxFileNum + 1)
  nowName := []
  recording := false
  mounted := false
  sdSave := false
  nVidencModeNow := 0
  nVidencModeOld := 2 ^ 32 - 1
  nVidencFpsOld := 0
  bSdVidSave := false
  nFps := 30
  mem := fun i => [0, 0, 1, 0x67, 0, 0, 1, 0x68, 0, 0, 1, 0x65].getD i 0xFF

theorem bootSaver_boot : bootSaver.Boot :=
  ⟨rfl, rfl, rfl, rfl, rfl, rfl, rfl, ⟨_, rfl, rfl⟩, rfl, rfl, rfl, rfl, rfl, rfl, rfl⟩

/-- `NOR_260101_000000.mp4` -/
def nameOne : FileName where
  filename := [78, 79, 82, 95, 50, 54, 48, 49, 48, 49, 95, 48, 48, 48, 48, 48, 48, 46, 109, 112, 52]
  terminated := by decide
  fits := by decide
  long := by decide

def turns (n : Nat) : List (SaverEvent × FatTrace) := List.replicate n (.process, [])

/-- The start of a recording, up to the wait for its first frame. -/
def startRun : List (SaverEvent × FatTrace) :=
  [(.save true, []), (.sdcard, [⟨.sdioCdDet, true⟩, ⟨.fOpendir, []⟩]),
    (.process, [⟨.fatGetFreesize, (50 : UInt8)⟩]), (.process, []),
    (.process, [⟨.fileGetname, nameOne⟩, ⟨.fOpen nameOne.filename, FResult.ok⟩, ⟨.fExpand, FResult.ok⟩])] ++
    turns 4

theorem reach_boot {ok : Session FatCall.Answer Saver → SaverEvent × FatTrace → Prop} :
    Reach saver ok ⟨bootSaver, []⟩ :=
  .init ⟨bootSaver_boot, rfl⟩

end runs

end En675.Videnc
