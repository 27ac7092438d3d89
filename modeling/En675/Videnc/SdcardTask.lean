import En675.Videnc.Saver

/-! `SdcardTask` (`sdcard.c`) beside the recorder task: a switch step at a time, with the recorder's
turns between.  Of the card's driver only the answers are modelled. -/

namespace En675.Videnc

open Lib

inductive SdState
  | off | init | ready | idle | save | err | errIdle
  deriving DecidableEq, Repr

/-- `bSD_Format`. -/
inductive SdFormat
  | off | on | fail
  deriving DecidableEq, Repr

/-- The answers a switch step gets: in the two rounds of `SdcardInit`, when it formats, and the
calls of `muxer_videnc_init` in `sd_READY` and at the start of saving. -/
structure SdAnswers where
  cdInit : Bool
  driveIn : Bool
  driveInit : Bool
  cdInit' : Bool
  driveIn' : Bool
  driveInit' : Bool
  malloc : Bool
  mkfs : Bool
  mkfs' : Bool
  formatInit : Bool
  ready : FatTrace
  start : FatTrace

def SdAnswers.formatted (a : SdAnswers) : Bool := a.malloc && (a.mkfs || a.mkfs') && a.formatInit

structure SdCard where
  saver : Saver
  /-- A recording file is open. -/
  file : Bool
  bSDState : SdState
  bSDFormat : SdFormat
  oldSdSviSave : Bool
  sdDet : Nat
  cnt : Nat
  /-- `bSdVidSave` at the request of the format under way. -/
  asked : Option Bool
  /-- The formats completed: what was asked with, and what is left. -/
  completed : List (Bool × Bool)
  /-- Whether a file was open, for each call of `f_mkfs`, `drive_init` and `muxer_videnc_init`. -/
  ran : List Bool

inductive SdEvent
  | recorder (e : SaverEvent) (calls : FatTrace)
  | save (on : Bool)
  | setFormat
  | card (det : Nat)
  | task (a : SdAnswers)

/-- The events of the recorder's side. -/
def SaverEvent.ofRecorder : SaverEvent → Bool
  | .save _ => false
  | .sdcard => false
  | .insert => false
  | _ => true

/-- What the calls on the file make of it. -/
def fileNext (file : Bool) (e : Sigma FatCall.Answer) : Option Bool :=
  match e with
  | ⟨.fOpen _, r⟩ => some (file || ((r : FResult) == .ok))
  | ⟨.fClose, _⟩ => some false
  | _ => some file

namespace SdCard

variable (s : SdCard) (a : SdAnswers)

def bSdVidSave : Bool := s.saver.bSdVidSave

def setSave (on : Bool) : SdCard := { s with saver := { s.saver with bSdVidSave := on } }

def goto (st : SdState) : SdCard := { s with bSDState := st }

/-- An operation of the card task is run. -/
def op : SdCard := { s with ran := s.ran ++ [s.file] }

def sdcardInit : SdCard :=
  if a.cdInit = false ∨ a.driveIn = false then s.goto .err
  else
    let s := s.op
    if a.driveInit then s.goto .ready
    else if a.cdInit' = false ∨ a.driveIn' = false then s.goto .err
    else
      let s := s.op
      s.goto (if a.driveInit' then .ready else .init)

def muxerVidencInit (calls : FatTrace) : Option SdCard :=
  (s.saver.muxerVidencInit.replay calls).map fun r => { s.op with saver := r }

/-- `SDcardFormatDone` and `SDcardFormatFail`. -/
def complete (f : SdFormat) : SdCard :=
  { s with
    bSDFormat := f
    asked := none
    completed := s.completed ++ (s.asked.map fun v => (v, s.bSdVidSave)).toList }

def format : SdCard :=
  if s.bSDFormat = .on ∧ a.malloc = true then
    let s := if a.mkfs then s.op else s.op.op
    if a.mkfs || a.mkfs' then
      let s := s.op
      if a.formatInit then (s.setSave s.oldSdSviSave).complete .off else s.complete .fail
    else s.complete .fail
  else s

def idle : Option SdCard :=
  let s := s.format a
  if s.bSdVidSave then
    ((s.goto .save).op.muxerVidencInit a.start).map fun s =>
      { s with saver := { s.saver with recording := true } }
  else some s

def save : SdCard :=
  let s := if s.bSDFormat = .on then { s.setSave false with oldSdSviSave := s.bSdVidSave } else s
  if s.bSdVidSave = false then { s.goto .idle with saver := s.saver.setState .exit } else s

def sdcardTask : Option SdCard :=
  if s.sdDet = 0 then
    match s.bSDState with
    | .off => some (s.sdcardInit a)
    | .init => some s
    | .ready => (s.op.muxerVidencInit a.ready).bind fun s => (s.goto .idle).idle a
    | .idle => s.idle a
    | .save => some s.save
    | .err => some (s.goto .errIdle)
    | .errIdle => some s
  else if s.sdDet = 1 ∧ s.bSDState ≠ .off then some (s.goto .off)
  else if s.bSDState = .err then
    if s.cnt + 1 = 10 then some { s.goto .off with cnt := 0 } else some { s with cnt := s.cnt + 1 }
  else some s

def recorder (e : SaverEvent) (calls : FatTrace) : Option SdCard :=
  if e.ofRecorder then
    ((s.saver.turn e).replay calls).bind fun r =>
      (Prog.watch fileNext s.file calls).map fun file => { s with saver := r, file := file }
  else none

def step : SdEvent → Option SdCard
  | .recorder e calls => s.recorder e calls
  | .save on => some (s.setSave on)
  | .setFormat => some { s with bSDFormat := .on, asked := some s.bSdVidSave }
  | .card det => some { s with sdDet := det }
  | .task a => s.sdcardTask a

/-- After the start of the tasks, with any setting saved. -/
def Start : Prop :=
  s.saver.place = .wait ∧ s.saver.recording = false ∧ s.file = false ∧ s.bSDState = .off ∧
    s.bSDFormat = .off ∧ s.oldSdSviSave = s.bSdVidSave ∧ s.cnt = 0 ∧ s.asked = none ∧
    s.completed = [] ∧ s.ran = []

def runs : Lts SdCard SdEvent where
  init := Start
  step s e t := s.step e = some t

/-- No operation ran with a recording open, and every format left the setting that it was asked with. -/
def Orderly : Prop := (∀ open_ ∈ s.ran, open_ = false) ∧ ∀ p ∈ s.completed, p.2 = p.1

/-- The switch step would run an operation. -/
def Operates : Prop :=
  s.sdDet = 0 ∧ (s.bSDState = .off ∨ s.bSDState = .ready ∨
    s.bSDState = .idle ∧ (s.bSDFormat = .on ∨ s.bSdVidSave = true))

/-- The switch step would come to the format asked for. -/
def Formats : Prop :=
  s.sdDet = 0 ∧ s.bSDFormat = .on ∧ (s.bSDState = .ready ∨ s.bSDState = .idle)

/-- The condition: the card task operates when the recorder has acknowledged its stop; a format is
asked for while saving, or where the remembered setting is the present one; until saving is stopped
for it nothing writes the setting; and a format that fails, one without memory before saving starts
and a card taken out while saving find the remembered setting to be the present one. -/
def Kept : SdCard → SdEvent → Prop
  | s, .task a =>
    (s.Operates → s.saver.recording = false) ∧
      (s.Formats → a.formatted = false →
        s.oldSdSviSave = s.bSdVidSave ∨ a.malloc = false ∧ s.bSdVidSave = false) ∧
      (s.bSDFormat = .on → s.bSDState = .save → s.sdDet = 1 → s.oldSdSviSave = s.bSdVidSave)
  | s, .setFormat => s.bSDState = .save ∨ s.oldSdSviSave = s.bSdVidSave
  | s, .save on => s.bSDFormat = .on → s.bSDState = .save → on = s.bSdVidSave
  | s, .recorder e calls =>
    s.bSDFormat = .on → s.bSDState = .save →
      ∀ r, (s.saver.turn e).replay calls = some r → r.bSdVidSave = s.bSdVidSave
  | _, .card _ => True

instance : Decidable s.Operates := inferInstanceAs (Decidable (_ ∧ _))

instance : Decidable s.Formats := inferInstanceAs (Decidable (_ ∧ _))

instance Kept.decidable : (s : SdCard) → (e : SdEvent) → Decidable (Kept s e)
  | _, .task _ => inferInstanceAs (Decidable (_ ∧ _))
  | _, .setFormat => inferInstanceAs (Decidable (_ ∨ _))
  | _, .save _ => inferInstanceAs (Decidable (_ → _))
  | _, .card _ => isTrue trivial
  | s, .recorder e calls =>
    match h : (s.saver.turn e).replay calls with
    | none => isTrue fun _ _ _ hr => nomatch h.symm.trans hr
    | some r =>
      decidable_of_iff (s.bSDFormat = .on → s.bSDState = .save → r.bSdVidSave = s.bSdVidSave)
        ⟨fun keeps on save _ hr => Option.some.inj (h.symm.trans hr) ▸ keeps on save,
          fun keeps on save => keeps on save r h⟩

end SdCard

section follows

open Prog

/-- A recording file is open only while recording, and a file is about to be opened only then. -/
structure Follows (r : Saver) (file : Bool) : Prop where
  file : file = true → r.recording = true
  opening : r.place.isOpening = true → r.recording = true

/-- Every answer counts. -/
abbrev FileMeets {α : Type} (p : FatProg α) (file : Bool) (post : α → Bool → Prop) : Prop :=
  Meets fileNext (fun _ _ => True) p file post

/-- The first half of it, which the calls keep wherever the recorder stands. -/
def Backed (r : Saver) (file : Bool) : Prop := file = true → r.recording = true

variable {r : Saver} {file : Bool}

theorem Backed.goto (h : Backed r file) (hp : p.isOpening = false) : Follows (r.goto p) file :=
  ⟨h, fun opening => absurd (hp.symm.trans opening) (by decide)⟩

theorem backed_false (r : Saver) : Backed r false := nofun

/-- After `f_close` nothing is open. -/
theorem error_backed (e : VidError) (h : Backed r file) : FileMeets (r.muxerVidencError e) file Backed := by
  unfold Saver.muxerVidencError
  split
  · exact h
  · simp only [FileMeets, meets_bind, meets_ask]
    intro _ _
    refine ⟨false, rfl, ?_⟩
    split <;> exact backed_false _

theorem noFreesize_backed (test : Bool) (post : Bool → Bool → Prop) (h : ∀ b, post b file) :
    FileMeets (Saver.noFreesize test) file post := by
  cases test with
  | false => exact h false
  | true =>
    simp only [FileMeets, Saver.noFreesize, if_true, meets_bind, meets_ask, meets_pure]
    exact fun _ _ => ⟨file, rfl, h _⟩

theorem flush_backed (h : Backed r file) :
    FileMeets r.muxerVidencBufferflush file fun x f => Backed x.2 f := by
  simp only [FileMeets, Saver.muxerVidencBufferflush, meets_bind, meets_ask]
  rintro ⟨fres, writesize⟩ _
  refine ⟨file, rfl, ?_⟩
  have fails (e : VidError) : FileMeets (r.muxerVidencError e) file
      fun r f => Meets fileNext (fun _ _ => True) (pure (fres, r) : FatProg _) f fun x f => Backed x.2 f :=
    error_backed e h
  dsimp only
  split
  · exact (meets_bind _ _ _ _).2 (fails _)
  · refine (meets_bind _ _ _ _).2 (noFreesize_backed _ _ fun short => ?_)
    split
    · exact (meets_bind _ _ _ _).2 (fails _)
    · refine (meets_bind _ _ _ _).2 (noFreesize_backed _ _ fun zero => ?_)
      split
      · exact (meets_bind _ _ _ _).2 (fails _)
      · exact h

theorem addRound_follows (h : Backed r file) (a : Add) (rest : List Add) (back : Back) :
    FileMeets (r.addRound a rest back) file Follows := by
  have backed (n : Nat) : Backed (r.setLength n) file := h
  unfold Saver.addRound
  split
  · simp only [FileMeets, meets_bind, meets_pure]
    exact (flush_backed h).mono fun x f hx => hx.goto rfl
  · split
    · exact h.goto rfl
    · dsimp only
      generalize (if a.size.toNat ≥ r.buffer.total - r.buffer.length then
        r.buffer.total - r.buffer.length else a.size.toNat) = wb
      split
      · simp only [FileMeets, meets_bind]
        refine (flush_backed (backed _)).mono fun x f hx => ?_
        split
        · exact hx.goto rfl
        · exact hx.goto rfl
      · exact (backed _).goto rfl

theorem makevidheader_recording (r : Saver) :
    r.muxerVidencMakevidheader.2.recording = r.recording := by
  unfold Saver.muxerVidencMakevidheader
  split
  · simp only [Saver.changeSavetimeStart]
    split <;> rfl
  all_goals rfl

theorem addHeader_follows (h : Backed r file) (back : Back) : Follows (r.addHeader back) file := by
  have same := makevidheader_recording r
  exact Backed.goto (r := r.muxerVidencMakevidheader.2) (fun open_ => same ▸ h open_) rfl

theorem goOn_follows (h : Backed r file) : Follows r.goOn file := by
  unfold Saver.goOn
  split
  · exact h.goto rfl
  · split
    · exact Backed.goto (r := r.setState .exit) h rfl
    · exact h.goto rfl

/-- The file is closed before recording is over. -/
theorem closed_follows (r : Saver) (a : After) : Follows (r.closed a) false := by
  cases a with
  | exit => exact Backed.goto (backed_false _) rfl
  | savetime fpsval => exact goOn_follows (backed_false _)
  | full => exact goOn_follows (backed_false _)

theorem resume_follows (h : Backed r file) (back : Back) : FileMeets (r.resume back) file Follows := by
  cases back with
  | open_ => exact Backed.goto (r := r.opened) h rfl
  | next => exact Backed.goto (r := r.setState .write) h rfl
  | nextI => exact h.goto rfl
  | get => exact goOn_follows h
  | closeFlush a => exact addHeader_follows h _
  | closeHeader a =>
    simp only [FileMeets, Saver.resume, meets_bind, meets_ask, meets_pure]
    exact fun _ _ => ⟨file, rfl, h.goto rfl⟩
  | closeLast a =>
    simp only [FileMeets, Saver.resume, meets_bind, meets_ask, meets_pure]
    exact fun _ _ => ⟨false, rfl, closed_follows _ a⟩

theorem write_follows (h : Backed r file) (back : Back) :
    FileMeets (r.muxerVidencWrite back) file Follows := by
  have backed (pvid : TVidenc) : Backed { r with pvid := pvid } file := h
  unfold Saver.muxerVidencWrite
  split
  · dsimp only
    split
    · split
      · exact (backed _).goto rfl
      · trivial
    · exact resume_follows (backed _) back
  · exact resume_follows h back

theorem opened_follows (h : Backed r file) (name : FileName) :
    FileMeets (r.openListed name) file Follows := by
  have backed (list : EncHeap) : Backed (r.setList list) file := h
  have emptied (list : EncHeap) : Backed ((r.setList list).setLength 0) file := h
  unfold Saver.openListed
  dsimp only
  split
  · simp only [FileMeets, meets_bind, meets_pure]
    exact (error_backed _ (backed _)).mono fun x f hx => hx.goto rfl
  · split
    · simp only [FileMeets, meets_bind, meets_ask, meets_pure]
      exact fun _ _ => ⟨file, rfl, addHeader_follows (emptied _) _⟩
    · exact addHeader_follows (emptied _) _

/-- A file is opened while recording. -/
theorem open_follows (h : Backed r file) (recording : r.recording = true) (nFreeSize : Nat) :
    FileMeets (r.muxerVidencOpen nFreeSize) file Follows := by
  unfold Saver.muxerVidencOpen
  split
  · simp only [FileMeets, meets_bind, meets_pure]
    exact (error_backed _ h).mono fun x f hx => hx.goto rfl
  · simp only [FileMeets, meets_bind, meets_ask]
    intro name _
    refine ⟨file, rfl, fun fres _ => ⟨_, rfl, ?_⟩⟩
    have backed (f : Bool) : Backed { r with nowName := name.filename } f := fun _ => recording
    split
    · simp only [meets_bind, meets_pure]
      exact (error_backed _ (backed _)).mono fun x f hx => hx.goto rfl
    · simp only [meets_bind, meets_ask]
      refine fun fexp _ => ⟨_, rfl, ?_⟩
      split
      · simp only [meets_bind, meets_pure]
        exact (error_backed _ (backed _)).mono fun x f hx => hx.goto rfl
      · exact opened_follows (backed _) name

theorem delete_follows (h : Backed r file) (recording : r.recording = true) (cnt nFreeSize : Nat) :
    FileMeets (r.videncInfoFileDelete cnt nFreeSize) file Follows := by
  unfold Saver.videncInfoFileDelete
  split
  · split
    · exact ⟨h, fun _ => recording⟩
    · simp only [FileMeets, meets_bind, meets_ask]
      refine fun _ _ => ⟨file, rfl, ?_⟩
      split
      · exact ⟨h, fun _ => recording⟩
      · simp only [meets_bind, meets_ask, meets_pure]
        exact fun _ _ => ⟨file, rfl, h, fun _ => recording⟩
  · exact ⟨h, fun _ => recording⟩

theorem frist_follows (h : Backed r file) : Follows r.muxerVidencFristVideo file := by
  have backed (pvid : TVidenc) : Backed { r with pvid := pvid } file := h
  unfold Saver.muxerVidencFristVideo
  split
  · exact h.goto rfl
  · split
    · exact (backed _).goto rfl
    · exact (backed _).goto rfl

theorem nextI_follows (h : Backed r file) : FileMeets r.muxerVidencNextIVideo file Follows := by
  have backed (pvid : TVidenc) : Backed { r with pvid := pvid } file := h
  unfold Saver.muxerVidencNextIVideo
  split
  · exact h.goto rfl
  · split
    · exact write_follows (backed _) _
    · exact (backed _).goto rfl

theorem close_follows (h : Backed r file) (a : After) : Follows (r.muxerVidencClose a) file :=
  h.goto rfl

theorem writeEntry_follows (h : Backed r file) : Follows r.writeEntry file := by
  unfold Saver.writeEntry
  split
  · split
    · exact close_follows (r := { r with nVidencFpsOld := r.nFps }.setState .close) h _
    · exact goOn_follows h
  · exact Backed.goto (r := r.setState .exit) h rfl

theorem writePeek_follows (h : Backed r file) : Follows r.writePeek file := by
  have backed (pvid : TVidenc) : Backed { r with pvid := pvid } file := h
  unfold Saver.writePeek
  split
  · exact h.goto rfl
  · dsimp only
    split
    · exact close_follows (backed _) .full
    · exact (backed _).goto rfl

theorem writeGet_follows (h : Backed r file) : FileMeets r.writeGet file Follows := by
  have backed (pvid : TVidenc) : Backed { r with pvid := pvid } file := h
  unfold Saver.writeGet
  split
  · exact h.goto rfl
  · exact write_follows (backed _) _

theorem enter_follows (h : Follows r file) (recording : r.recording = true) :
    FileMeets r.enter file Follows := by
  unfold Saver.enter
  split
  · simp only [FileMeets, Saver.muxerVidencIdle, meets_bind, meets_ask, meets_pure]
    exact fun _ _ => ⟨file, rfl, h.file, fun _ => recording⟩
  · exact Backed.goto h.file rfl
  · exact Backed.goto h.file rfl
  · exact Backed.goto h.file rfl
  · exact close_follows h.file .exit
  · exact h

theorem muxerVidenc_follows (h : Follows r file) : FileMeets r.muxerVidenc file Follows := by
  have backed (pvid : TVidenc) : Backed { r with pvid := pvid } file := h.file
  unfold Saver.muxerVidenc
  split
  · exact h
  · rename_i active
    unfold Saver.muxerVidencProcess
    cases hp : r.place with
    | wait =>
      have recording : r.recording = true := by
        by_contra c
        exact active ⟨hp, fun both => c both.2⟩
      exact enter_follows h recording
    | reclaim cnt nFreeSize =>
      exact delete_follows h.file (h.opening (hp ▸ rfl)) cnt nFreeSize
    | room nFreeSize => exact open_follows h.file (h.opening (hp ▸ rfl)) nFreeSize
    | adding adds back =>
      cases adds with
      | nil =>
        simp only [Saver.addsDone]
        split
        · exact resume_follows (backed _) back
        · exact resume_follows h.file back
      | cons a rest => exact addRound_follows h.file a rest back
    | frist => exact frist_follows h.file
    | next =>
      simp only [Saver.muxerVidencFirstNext]
      split
      · exact Backed.goto h.file rfl
      · exact write_follows h.file _
    | nextI => exact nextI_follows h.file
    | write => exact writeEntry_follows h.file
    | peek => exact writePeek_follows h.file
    | get => exact writeGet_follows h.file

theorem turn_follows (h : Follows r file) (e : SaverEvent) (he : e.ofRecorder = true) :
    FileMeets (r.turn e) file Follows := by
  cases e with
  | record addr size type =>
    simp only [Saver.turn, Saver.isrRecorddata]
    split
    · simp only [Saver.muxerVidencBuffering]
      split
      · exact h
      · exact ⟨h.file, h.opening⟩
    · exact h
  | encode mem => exact ⟨h.file, h.opening⟩
  | process => exact muxerVidenc_follows h
  | fps n => exact ⟨h.file, h.opening⟩
  | save on => exact absurd he (by simp [SaverEvent.ofRecorder])
  | sdcard => exact absurd he (by simp [SaverEvent.ofRecorder])
  | insert => exact absurd he (by simp [SaverEvent.ofRecorder])

end follows

section init

open Prog

variable {r t : Saver}

/-- Nothing of what the two tasks share is written. -/
structure Same (r t : Saver) : Prop where
  recording : t.recording = r.recording
  place : t.place = r.place
  bSdVidSave : t.bSdVidSave = r.bSdVidSave

theorem Same.trans (h : Same r t) (k : Same t u) : Same r u :=
  ⟨k.recording.trans h.recording, k.place.trans h.place, k.bSdVidSave.trans h.bSdVidSave⟩

/-- Of the calls of `muxer_videnc_init` only what is done with their answers matters. -/
abbrev Yields {α : Type} (p : FatProg α) (post : α → Prop) : Prop :=
  Meets (fun u _ => some u) (fun _ _ => True) p () fun a _ => post a

theorem Yields.of_replay {p : FatProg α} (h : Yields p post) (run : p.replay calls = some a) : post a := by
  obtain ⟨_, _, done⟩ := h.runs (runs_of_replay _ run) (answers_true _ _ calls)
  exact done

theorem scanEntry_same (r : Saver) (f : FilInfo) : Yields (r.scanEntry f) (Same r) := by
  unfold Saver.scanEntry
  split
  · exact ⟨rfl, rfl, rfl⟩
  · split
    · split
      · exact fun _ _ => ⟨(), rfl, rfl, rfl, rfl⟩
      · dsimp only
        split
        · exact fun _ _ => ⟨(), rfl, rfl, rfl, rfl⟩
        · exact ⟨rfl, rfl, rfl⟩
    · exact fun _ _ => ⟨(), rfl, rfl, rfl, rfl⟩

theorem scan_same (fs : List FilInfo) (r : Saver) : Yields (Saver.scan fs r) (Same r) := by
  induction fs generalizing r with
  | nil => exact ⟨rfl, rfl, rfl⟩
  | cons f fs ih =>
    simp only [Yields, Saver.scan, meets_bind]
    exact (scanEntry_same r f).mono fun t _ h => (ih t).mono fun _ _ k => h.trans k

theorem changeSavetimeStart_same (r : Saver) : Same r r.changeSavetimeStart := by
  unfold Saver.changeSavetimeStart
  split <;> exact ⟨rfl, rfl, rfl⟩

theorem muxerVidencInit_same (r : Saver) : Yields r.muxerVidencInit (Same r) := by
  simp only [Yields, Saver.muxerVidencInit, meets_bind, meets_ask]
  rintro (_ | _) _
  · exact ⟨(), trivial, rfl, rfl, rfl⟩
  · refine ⟨(), trivial, ?_⟩
    simp only [if_true, Saver.videncInfoInitFilenamelist, meets_bind, meets_ask, meets_pure]
    refine fun entries _ => ⟨(), trivial, (scan_same _ _).mono fun t _ h => ?_⟩
    have start := changeSavetimeStart_same t
    exact ⟨start.recording.trans h.recording, start.place.trans h.place,
      start.bSdVidSave.trans h.bSdVidSave⟩

end init

namespace SdCard

variable {s t : SdCard} {a : SdAnswers}

/-- The first half of the claim, with what it rests on. -/
structure Safe (s : SdCard) : Prop where
  follows : Follows s.saver s.file
  ran : ∀ open_ ∈ s.ran, open_ = false

/-- What a format under way is to put back. -/
structure Restores (s : SdCard) : Prop where
  completed : ∀ p ∈ s.completed, p.2 = p.1
  on : ∀ {v}, s.asked = some v → s.bSDFormat = .on
  saving : ∀ {v}, s.asked = some v → s.bSDState = .save → s.bSdVidSave = v
  stopped : ∀ {v}, s.asked = some v → s.bSDState ≠ .save → s.oldSdSviSave = v

section safe

/-- Nothing is open. -/
structure Shut (s : SdCard) : Prop where
  safe : s.Safe
  file : s.file = false

theorem Safe.shut (h : s.Safe) (stopped : s.saver.recording = false) : s.Shut := by
  refine ⟨h, ?_⟩
  cases hf : s.file with
  | false => rfl
  | true => exact absurd ((h.follows.file hf).symm.trans stopped) (by decide)

theorem Safe.goto (h : s.Safe) (st : SdState) : (s.goto st).Safe := ⟨h.follows, h.ran⟩

theorem Shut.goto (h : s.Shut) (st : SdState) : (s.goto st).Shut := ⟨h.safe.goto st, h.file⟩

theorem Shut.op (h : s.Shut) : s.op.Shut := by
  refine ⟨⟨h.safe.follows, fun open_ mem => ?_⟩, h.file⟩
  rcases List.mem_append.1 mem with old | new
  · exact h.safe.ran open_ old
  · exact (List.mem_singleton.1 new).trans h.file

theorem Safe.setSave (h : s.Safe) (on : Bool) : (s.setSave on).Safe :=
  ⟨⟨h.follows.file, h.follows.opening⟩, h.ran⟩

theorem Shut.setSave (h : s.Shut) (on : Bool) : (s.setSave on).Shut := ⟨h.safe.setSave on, h.file⟩

theorem Shut.complete (h : s.Shut) (f : SdFormat) : (s.complete f).Shut :=
  ⟨⟨h.safe.follows, h.safe.ran⟩, h.file⟩

theorem Shut.sdcardInit (h : s.Shut) : (s.sdcardInit a).Shut := by
  unfold SdCard.sdcardInit
  split
  · exact h.goto _
  · dsimp only
    split
    · exact h.op.goto _
    · split
      · exact h.op.goto _
      · exact h.op.op.goto _

theorem Shut.muxerVidencInit (h : s.Shut) (ht : s.muxerVidencInit calls = some t) : t.Shut := by
  obtain ⟨r, hr, rfl⟩ := Option.map_eq_some_iff.1 ht
  have same : Same s.saver r := (muxerVidencInit_same _).of_replay hr
  have follows : Follows r s.file :=
    ⟨fun open_ => same.recording.trans (h.safe.follows.file open_),
      fun opening => same.recording.trans (h.safe.follows.opening (same.place ▸ opening))⟩
  exact ⟨⟨follows, h.op.safe.ran⟩, h.file⟩

theorem Shut.format (h : s.Shut) : (s.format a).Shut := by
  have formatted : (if a.mkfs then s.op else s.op.op).Shut := by
    split
    · exact h.op
    · exact h.op.op
  unfold SdCard.format
  split
  · dsimp only
    split
    · split
      · exact (formatted.op.setSave _).complete _
      · exact formatted.op.complete _
    · exact formatted.complete _
  · exact h

theorem Shut.idle (h : s.Shut) (ht : s.idle a = some t) : t.Safe := by
  unfold SdCard.idle at ht
  dsimp only at ht
  split at ht
  · obtain ⟨u, hu, rfl⟩ := Option.map_eq_some_iff.1 ht
    have started : u.Shut := (h.format.goto _).op.muxerVidencInit hu
    exact ⟨⟨fun _ => rfl, fun _ => rfl⟩, started.safe.ran⟩
  · obtain rfl := Option.some.inj ht
    exact h.format.safe

theorem Safe.save (h : s.Safe) : s.save.Safe := by
  have stopped (s : SdCard) (h : s.Safe) :
      (if s.bSdVidSave = false then { s.goto .idle with saver := s.saver.setState .exit } else s).Safe := by
    split
    · exact ⟨⟨h.follows.file, h.follows.opening⟩, h.ran⟩
    · exact h
  unfold SdCard.save
  dsimp only
  split
  · exact stopped _ ⟨⟨h.follows.file, h.follows.opening⟩, h.ran⟩
  · exact stopped s h

/-- In `sd_IDLE` with nothing to do nothing is done. -/
theorem idle_rest (format : s.bSDFormat ≠ .on) (off : s.bSdVidSave = false) : s.idle a = some s := by
  have rest : s.format a = s := if_neg fun both => format both.1
  simp only [SdCard.idle, rest, off, Bool.false_eq_true, if_false]

theorem Safe.sdcardTask (h : s.Safe) (kept : s.Operates → s.saver.recording = false)
    (ht : s.sdcardTask a = some t) : t.Safe := by
  unfold SdCard.sdcardTask at ht
  split at ht
  · rename_i det
    cases st : s.bSDState with
    | off =>
      simp only [st] at ht
      obtain rfl := Option.some.inj ht
      exact (h.shut (kept ⟨det, .inl st⟩)).sdcardInit.safe
    | init =>
      simp only [st] at ht
      exact Option.some.inj ht ▸ h
    | ready =>
      simp only [st] at ht
      obtain ⟨u, hu, ht⟩ := Option.bind_eq_some_iff.1 ht
      have shut := h.shut (kept ⟨det, .inr (.inl st)⟩)
      exact ((shut.op.muxerVidencInit hu).goto .idle).idle ht
    | idle =>
      simp only [st] at ht
      by_cases work : s.bSDFormat = .on ∨ s.bSdVidSave = true
      · exact (h.shut (kept ⟨det, .inr (.inr ⟨st, work⟩)⟩)).idle ht
      · have off : s.bSdVidSave = false := Bool.eq_false_iff.2 fun on => work (.inr on)
        rw [idle_rest (fun on => work (.inl on)) off] at ht
        exact Option.some.inj ht ▸ h
    | save =>
      simp only [st] at ht
      exact Option.some.inj ht ▸ h.save
    | err =>
      simp only [st] at ht
      exact Option.some.inj ht ▸ h.goto _
    | errIdle =>
      simp only [st] at ht
      exact Option.some.inj ht ▸ h
  · split at ht
    · exact Option.some.inj ht ▸ h.goto _
    · split at ht
      · split at ht
        · exact Option.some.inj ht ▸ ⟨h.follows, h.ran⟩
        · exact Option.some.inj ht ▸ ⟨h.follows, h.ran⟩
      · exact Option.some.inj ht ▸ h

theorem Safe.recorder (h : s.Safe) (ht : s.recorder e calls = some t) : t.Safe := by
  unfold SdCard.recorder at ht
  split at ht
  · rename_i he
    obtain ⟨r, hr, ht⟩ := Option.bind_eq_some_iff.1 ht
    obtain ⟨file, hf, rfl⟩ := Option.map_eq_some_iff.1 ht
    obtain ⟨file', hf', follows⟩ :=
      (turn_follows h.follows e he).runs (Prog.runs_of_replay _ hr) (Prog.answers_true _ _ calls)
    obtain rfl := Option.some.inj (hf.symm.trans hf')
    exact ⟨follows, h.ran⟩
  · cases ht

theorem Safe.step (h : s.Safe) (kept : s.Kept e) (ht : s.step e = some t) : t.Safe := by
  cases e with
  | recorder e calls => exact h.recorder ht
  | save on => exact Option.some.inj ht ▸ h.setSave on
  | setFormat => exact Option.some.inj ht ▸ ⟨h.follows, h.ran⟩
  | card det => exact Option.some.inj ht ▸ ⟨h.follows, h.ran⟩
  | task a => exact h.sdcardTask kept.1 ht

end safe

section restores

/-- Outside `sd_SAVE` the remembered setting is all there is to keep. -/
theorem Restores.elsewhere (h : s.Restores) (here : s.bSDState ≠ .save) (there : t.bSDState ≠ .save)
    (completed : t.completed = s.completed) (asked : t.asked = s.asked) (format : t.bSDFormat = s.bSDFormat)
    (old : t.oldSdSviSave = s.oldSdSviSave) : t.Restores where
  completed := completed ▸ h.completed
  on hv := format.trans (h.on (asked.symm.trans hv))
  saving _ save := absurd save there
  stopped hv _ := old.trans (h.stopped (asked.symm.trans hv) here)

/-- While nothing is written the state does not matter. -/
theorem Restores.saves (h : s.Restores) (same : ∀ {v}, s.asked = some v → s.bSdVidSave = v)
    (there : t.bSDState = .save) (completed : t.completed = s.completed) (asked : t.asked = s.asked)
    (format : t.bSDFormat = s.bSDFormat) (setting : t.bSdVidSave = s.bSdVidSave) : t.Restores where
  completed := completed ▸ h.completed
  on hv := format.trans (h.on (asked.symm.trans hv))
  saving hv _ := setting.trans (same (asked.symm.trans hv))
  stopped _ out := absurd there out

theorem Restores.complete (h : s.Restores) (back : ∀ {v}, s.asked = some v → s.bSdVidSave = v)
    (f : SdFormat) : (s.complete f).Restores where
  completed p mem := by
    rcases List.mem_append.1 mem with old | new
    · exact h.completed p old
    · obtain ⟨v, hv, rfl⟩ := Option.map_eq_some_iff.1 (Option.mem_toList.1 new)
      exact back hv
  on hv := nomatch hv
  saving hv := nomatch hv
  stopped hv := nomatch hv

variable (s a) in
/-- The last condition on a format, where it is come to. -/
def Fits : Prop :=
  s.bSDFormat = .on → a.formatted = false →
    s.oldSdSviSave = s.bSdVidSave ∨ a.malloc = false ∧ s.bSdVidSave = false

theorem sdcardInit_restores (h : s.Restores) (st : s.bSDState ≠ .save) : (s.sdcardInit a).Restores := by
  unfold SdCard.sdcardInit
  split
  · exact h.elsewhere st nofun rfl rfl rfl rfl
  · dsimp only
    split
    · exact h.elsewhere st nofun rfl rfl rfl rfl
    · split
      · exact h.elsewhere st nofun rfl rfl rfl rfl
      · refine h.elsewhere st (fun save => ?_) rfl rfl rfl rfl
        cases hr : a.driveInit' <;> simp [SdCard.goto, hr] at save

theorem muxerVidencInit_settings (ht : s.muxerVidencInit calls = some t) :
    t.completed = s.completed ∧ t.asked = s.asked ∧ t.bSDFormat = s.bSDFormat ∧
      t.oldSdSviSave = s.oldSdSviSave ∧ t.bSdVidSave = s.bSdVidSave := by
  obtain ⟨r, hr, rfl⟩ := Option.map_eq_some_iff.1 ht
  have same : Same s.saver r := (muxerVidencInit_same _).of_replay hr
  exact ⟨rfl, rfl, rfl, rfl, same.bSdVidSave⟩

/-- What a format leaves, and the setting with which saving starts after it. -/
theorem format_restores (h : s.Restores) (st : s.bSDState ≠ .save) (fits : s.Fits a) :
    (s.format a).Restores ∧ (s.format a).bSDState ≠ .save ∧
      ∀ {v}, (s.format a).asked = some v → (s.format a).bSdVidSave = true → v = true := by
  have idle {v} (hv : s.asked = some v) (failed : a.formatted = false) (on : s.bSdVidSave = true) :
      v = true := by
    rcases fits (h.on hv) failed with old | off
    · exact (h.stopped hv st).symm.trans (old.trans on)
    · exact absurd (on.symm.trans off.2) (by decide)
  have tries : ∃ ran, (if a.mkfs then s.op else s.op.op) = { s with ran := ran } := by
    split
    · exact ⟨_, rfl⟩
    · exact ⟨_, rfl⟩
  obtain ⟨ran, hran⟩ := tries
  unfold SdCard.format
  split
  · rename_i work
    have fails (f : SdFormat) (ran : List Bool) (failed : a.formatted = false) :
        ({ s with ran := ran }.complete f).Restores := by
      refine Restores.complete (s := { s with ran := ran }) (h.elsewhere st st rfl rfl rfl rfl)
        (fun {v} hv => ?_) f
      rcases fits work.1 failed with old | none_
      · exact old.symm.trans (h.stopped hv st)
      · exact absurd (none_.1.symm.trans work.2) (by decide)
    rw [hran]
    dsimp only
    split
    · rename_i made
      split
      · have back : ({ s with ran := ran }.op.setSave s.oldSdSviSave).Restores :=
          h.elsewhere st st rfl rfl rfl rfl
        exact ⟨back.complete (fun hv => back.stopped hv st) _, st, nofun⟩
      · rename_i failed
        have failed : a.formatted = false := by simp [SdAnswers.formatted, failed]
        exact ⟨fails _ _ failed, st, nofun⟩
    · rename_i failed
      have failed : a.formatted = false := by
        simp only [SdAnswers.formatted, Bool.eq_false_iff.2 failed, Bool.and_false, Bool.false_and]
      exact ⟨fails _ _ failed, st, nofun⟩
  · rename_i rest
    refine ⟨h, st, fun {v} hv on => idle hv ?_ on⟩
    have malloc : a.malloc = false := Bool.eq_false_iff.2 fun there => rest ⟨h.on hv, there⟩
    simp only [SdAnswers.formatted, malloc, Bool.false_and]

theorem idle_restores (h : s.Restores) (st : s.bSDState ≠ .save) (fits : s.Fits a)
    (ht : s.idle a = some t) : t.Restores := by
  obtain ⟨after, out, starts⟩ := format_restores h st fits
  unfold SdCard.idle at ht
  dsimp only at ht
  split at ht
  · rename_i on
    obtain ⟨u, hu, rfl⟩ := Option.map_eq_some_iff.1 ht
    obtain ⟨r, hr, rfl⟩ := Option.map_eq_some_iff.1 hu
    have same : Same (s.format a).saver r := (muxerVidencInit_same _).of_replay hr
    exact after.saves (fun hv => on.trans (starts hv on).symm) rfl rfl rfl rfl same.bSdVidSave
  · exact Option.some.inj ht ▸ after

/-- Saving is stopped for the format, with the setting remembered. -/
theorem save_restores (h : s.Restores) (st : s.bSDState = .save) : s.save.Restores := by
  unfold SdCard.save
  by_cases format : s.bSDFormat = .on
  · rw [if_pos format]
    exact
      { completed := h.completed
        on := fun _ => format
        saving := fun _ save => nomatch save
        stopped := fun hv _ => h.saving hv st }
  · have none_ {v} (hv : s.asked = some v) : False := format (h.on hv)
    rw [if_neg format]
    dsimp only
    split
    · exact ⟨h.completed, h.on, fun hv => (none_ hv).elim, fun hv => (none_ hv).elim⟩
    · exact h

/-- The card is taken out, or the state is started over. -/
theorem goto_restores (h : s.Restores) (out : st ≠ .save)
    (saving : s.bSDFormat = .on → s.bSDState = .save → s.oldSdSviSave = s.bSdVidSave) :
    (s.goto st).Restores where
  completed := h.completed
  on := h.on
  saving _ save := absurd save out
  stopped hv _ := by
    by_cases save : s.bSDState = .save
    · exact (saving (h.on hv) save).trans (h.saving hv save)
    · exact h.stopped hv save

theorem sdcardTask_restores (h : s.Restores) (kept : s.Kept (.task a)) (ht : s.sdcardTask a = some t) :
    t.Restores := by
  obtain ⟨_, formats, taken⟩ := kept
  unfold SdCard.sdcardTask at ht
  split at ht
  · rename_i det
    cases st : s.bSDState with
    | off =>
      simp only [st] at ht
      exact Option.some.inj ht ▸ sdcardInit_restores h (st ▸ nofun)
    | init =>
      simp only [st] at ht
      exact Option.some.inj ht ▸ h
    | ready =>
      simp only [st] at ht
      obtain ⟨u, hu, ht⟩ := Option.bind_eq_some_iff.1 ht
      obtain ⟨completed, asked, format, old, setting⟩ := muxerVidencInit_settings hu
      have here : s.bSDState ≠ .save := fun save => nomatch st.symm.trans save
      have there : (u.goto .idle).bSDState ≠ .save := nofun
      have fits : (u.goto .idle).Fits a := fun on failed => by
        have setting : (u.goto .idle).bSdVidSave = s.bSdVidSave := setting
        have old : (u.goto .idle).oldSdSviSave = s.oldSdSviSave := old
        rw [setting, old]
        exact formats ⟨det, format.symm.trans on, .inl st⟩ failed
      exact idle_restores (h.elsewhere here there completed asked format old) there fits ht
    | idle =>
      simp only [st] at ht
      exact idle_restores h (st ▸ nofun) (fun on failed => formats ⟨det, on, .inr st⟩ failed) ht
    | save =>
      simp only [st] at ht
      exact Option.some.inj ht ▸ save_restores h st
    | err =>
      simp only [st] at ht
      exact Option.some.inj ht ▸ goto_restores h nofun fun _ save => nomatch st.symm.trans save
    | errIdle =>
      simp only [st] at ht
      exact Option.some.inj ht ▸ h
  · split at ht
    · rename_i out
      exact Option.some.inj ht ▸ goto_restores h nofun fun on save => taken on save out.1
    · split at ht
      · rename_i err
        have other : s.bSDState ≠ .save := fun save => nomatch err.symm.trans save
        split at ht
        · exact Option.some.inj ht ▸ h.elsewhere other nofun rfl rfl rfl rfl
        · exact Option.some.inj ht ▸ h.elsewhere other other rfl rfl rfl rfl
      · exact Option.some.inj ht ▸ h

/-- Another task writes the setting. -/
theorem Restores.write (h : s.Restores) (r : Saver)
    (kept : s.bSDFormat = .on → s.bSDState = .save → r.bSdVidSave = s.bSdVidSave) (file : Bool) :
    { s with saver := r, file := file }.Restores where
  completed := h.completed
  on := h.on
  saving hv save := (kept (h.on hv) save).trans (h.saving hv save)
  stopped hv out := h.stopped hv out

theorem Restores.step (h : s.Restores) (kept : s.Kept e) (ht : s.step e = some t) : t.Restores := by
  cases e with
  | recorder e calls =>
    simp only [SdCard.step, SdCard.recorder] at ht
    split at ht
    · obtain ⟨r, hr, ht⟩ := Option.bind_eq_some_iff.1 ht
      obtain ⟨file, _, rfl⟩ := Option.map_eq_some_iff.1 ht
      exact h.write r (fun on save => kept on save r hr) file
    · cases ht
  | save on =>
    obtain rfl := Option.some.inj ht
    exact h.write { s.saver with bSdVidSave := on } kept s.file
  | setFormat =>
    obtain rfl := Option.some.inj ht
    exact
      { completed := h.completed
        on := fun _ => rfl
        saving := fun hv _ => Option.some.inj hv
        stopped := fun hv out => (kept.resolve_left out).trans (Option.some.inj hv) }
  | card det =>
    obtain rfl := Option.some.inj ht
    exact ⟨h.completed, h.on, h.saving, h.stopped⟩
  | task a => exact sdcardTask_restores h kept ht

end restores

theorem runs_inductive : runs.Inductive Kept fun s => s.Safe ∧ s.Restores where
  init start := by
    obtain ⟨wait, still, shut, _, _, _, _, asked, completed, ran⟩ := start
    refine ⟨⟨⟨fun open_ => ?_, fun opening => ?_⟩, fun open_ mem => ?_⟩, fun p mem => ?_, ?_, ?_, ?_⟩
    · exact absurd (shut.symm.trans open_) (by decide)
    · rw [wait] at opening
      exact absurd opening (by decide)
    · rw [ran] at mem
      exact absurd mem List.not_mem_nil
    · rw [completed] at mem
      exact absurd mem List.not_mem_nil
    · exact fun hv => nomatch asked.symm.trans hv
    · exact fun hv => nomatch asked.symm.trans hv
    · exact fun hv => nomatch asked.symm.trans hv
  step h kept ht := ⟨h.1.step kept ht, h.2.step kept ht⟩

end SdCard

theorem sdcardTask_orderly (h : Reach SdCard.runs SdCard.Kept s) : s.Orderly := by
  obtain ⟨safe, restores⟩ := SdCard.runs_inductive.reach h
  exact ⟨safe.ran, restores.completed⟩

section runs

open SdCard

def initCalls : FatTrace := [⟨.sdioCdDet, true⟩, ⟨.fOpendir, []⟩]

/-- Everything goes well. -/
def readily : SdAnswers where
  cdInit := true
  driveIn := true
  driveInit := true
  cdInit' := true
  driveIn' := true
  driveInit' := true
  malloc := true
  mkfs := true
  mkfs' := true
  formatInit := true
  ready := initCalls
  start := initCalls

def bootCard : SdCard where
  saver := { bootSaver with bSdVidSave := true }
  file := false
  bSDState := .off
  bSDFormat := .off
  oldSdSviSave := true
  sdDet := 0
  cnt := 0
  asked := none
  completed := []
  ran := []

theorem bootCard_start : bootCard.Start := ⟨rfl, rfl, rfl, rfl, rfl, rfl, rfl, rfl, rfl, rfl⟩

/-- The recorder's turns with the calls that they make. -/
def turnsOf (calls : List FatTrace) : List SdEvent := calls.map (.recorder .process)

/-- A card is there and saving on, up to the open file. -/
def openRun : List SdEvent :=
  [.task readily, .task readily] ++
    turnsOf [[⟨.fatGetFreesize, (50 : UInt8)⟩], [],
      [⟨.fileGetname, nameOne⟩, ⟨.fOpen nameOne.filename, FResult.ok⟩, ⟨.fExpand, FResult.ok⟩]]

/-- The close of it. -/
def closeCalls : List FatTrace :=
  [[], [], [⟨.fWrite 65536, (FResult.ok, 65536)⟩], [], [], [], [⟨.fLseek, FResult.ok⟩],
    [⟨.fWrite 65536, (FResult.ok, 65536)⟩], [⟨.fClose, FResult.ok⟩]]

/-- A format asked for while recording, which waits for the close. -/
def formatRun : List SdEvent :=
  openRun ++ turnsOf [[], [], []] ++ [.setFormat, .task readily] ++ turnsOf closeCalls ++ [.task readily]

theorem sdcardTask_orderly_format :
    ∃ t, formatRun.foldlM SdCard.step bootCard = some t ∧ t.completed = [(true, true)] ∧
      t.ran.length = 9 ∧ t.Orderly := by
  have admitted : Admitted Kept SdCard.step bootCard formatRun := by decide
  exact ⟨_, rfl, rfl, rfl, sdcardTask_orderly (Reach.foldlM (fun h => h) (.init bootCard_start) admitted rfl)⟩

def earlyRun : List SdEvent := openRun ++ [.setFormat, .task readily, .task readily]

/-- The card task formats in its next step, with the recorder not yet at its close. -/
theorem format_open : ¬∀ s, Reach runs Lts.any s → s.Orderly := by
  intro all
  have run : (earlyRun.foldlM SdCard.step bootCard).any (fun t => t.ran.any id) = true := by decide
  obtain ⟨t, ht, open_⟩ := (Option.any_eq_true _ _).1 run
  obtain ⟨b, mem, hb⟩ := List.any_eq_true.1 open_
  have r : Reach runs Lts.any t :=
    Reach.foldlM (fun h => h) (.init bootCard_start) (admitted_any _ _ _) ht
  exact absurd (((all t r).1 b mem).symm.trans hb) (by decide)

end runs

end En675.Videnc
