import En675.Lib.Segment
import En675.Videnc.Muxer

/-! The recorder cuts the arriving frames into files at I frames: `muxer_videnc_process`
refines the segmenting of a stream. -/

namespace En675.Videnc

open Lib

structure Queued (q : Sbuf) : Prop where
  wf : q.Wf
  frames : ∀ d ∈ q.toList, recordFlags d.type = some d.flags

theorem Queued.pop (h : Queued q) (hq : q.toList = d :: q.pop.toList) : Queued q.pop :=
  ⟨h.wf.pop, fun e he => h.frames e (hq ▸ List.mem_cons_of_mem d he)⟩

theorem Queued.put (h : Queued q) (hf : q.isFull = false) (hd : recordFlags d.type = some d.flags) :
    Queued (q.push d) := by
  refine ⟨h.wf.push d, fun e he => ?_⟩
  rw [RingQueue.toList_push h.wf hf] at he
  rcases List.mem_append.mp he with he | he
  · exact h.frames e he
  · rw [List.mem_singleton.mp he, hd]

namespace Recorder

/-- The frame held in `datablock` between its get and its write. -/
def inflight (r : Recorder) : List SbufData := if r.pc = .next then [r.pvid.datablock.data] else []

def segments (r : Recorder) : Segments SbufData :=
  ⟨r.arrived, r.inflight ++ r.pvid.sbuf.toList, r.files, r.file⟩

def Recording (r : Recorder) : Prop := r.pvid.state = .write ∧ ∃ f, f ≠ [] ∧ r.file = some f

def Fresh (r : Recorder) : Prop := r.pvid.state = .first ∧ r.file = some []

/-- What holds at each place of `muxer_videnc_process`. -/
def At (r : Recorder) : Pc → Prop
  | .wait => (r.pvid.state = .idle ∧ r.file = none) ∨ r.Fresh ∨ r.Recording
  | .frist => r.Fresh
  | .next =>
    r.pvid.state = .firstNext ∧ r.file = some [] ∧ r.pvid.datablock.state = 1 ∧
      recordFlags r.pvid.datablock.type = some 1
  | .nextI => False
  | .write => r.Recording
  | .peek => r.Recording
  | .get => r.Recording ∧ r.pvid.sbuf.isEmpty = false

/-- The settings a steady run never changes. -/
structure Settings (r : Recorder) : Prop where
  save : r.bSdVidSave = true
  fps : r.nFps = 30
  fpsOld : r.nVidencFpsOld = 30
  type : r.pvid.type = 0
  modeNow : r.nVidencModeNow = 0

structure Control (r : Recorder) : Prop where
  queue : Queued r.pvid.sbuf
  settings : r.Settings
  modeOld : r.pvid.state ≠ .idle → r.nVidencModeOld = 0
  place : r.At r.pc

def opened (r : Recorder) : Recorder :=
  { r with
    file := some []
    pvid := { r.pvid with
      state := .first
      vidinfo := { r.pvid.vidinfo with
        un32vidicount := 0, un32vidscount := 0, un32audscount := 0, un32txtscount := 0 } }
    nVidencModeOld := r.nVidencModeNow
    nVidencModeNow := r.pvid.type }

def appended (r : Recorder) : Recorder :=
  { r with
    file := r.file.map (· ++ [r.pvid.datablock.data])
    pvid := { r.pvid with
      vidinfo := (r.pvid.vidinfo.count r.pvid.datablock.type).1
      datablock := .cleared } }

def loaded (r : Recorder) (d : SbufData) : Recorder :=
  { r with pvid := { r.pvid with datablock := r.pvid.datablock.load d } }

/-- The moves of a steady recorder. -/
inductive Move (r : Recorder) : Recorder → Prop
  | start : r.pc = .wait → r.pvid.state = .idle → r.file = none → Move r (r.opened.goto .frist)
  | resume : r.pc = .wait → r.Fresh → Move r (r.goto .frist)
  | reenter : r.pc = .wait → r.Recording → Move r (r.goto .write)
  | rest : r.pc = .frist ∧ r.Fresh ∨ r.pc = .peek ∧ r.Recording → r.pvid.sbuf.toList = [] →
      Move r (r.goto .wait)
  | drop : r.pc = .frist → r.Fresh → r.pvid.sbuf.toList = d :: r.pvid.sbuf.pop.toList →
      d.type.isIframe = false → Move r ((r.taken d r.pvid.sbuf.pop).goto .wait)
  | key : r.pc = .frist → r.Fresh → r.pvid.sbuf.toList = d :: r.pvid.sbuf.pop.toList →
      recordFlags d.type = some 1 →
      Move r ((((r.taken d r.pvid.sbuf.pop).setState .firstNext).hold).goto .next)
  | first : r.pc = .next → r.file = some [] → r.pvid.datablock.type.isIframe = true →
      Move r ((r.appended.setState .write).goto .write)
  | loop : r.pc = .write → r.Recording → Move r (r.goto .peek)
  | roll : r.pc = .peek → r.Recording → r.pvid.sbuf.toList = d :: r.pvid.sbuf.pop.toList →
      d.type.isIframe = true → r.pvid.vidinfo.un32vidsmax ≤ r.pvid.vidinfo.un32vidscount →
      Move r ((r.loaded d).muxerVidencClose.goto .wait)
  | look : r.pc = .peek → r.Recording → r.pvid.sbuf.toList = d :: r.pvid.sbuf.pop.toList →
      Move r ((r.loaded d).goto .get)
  | take : r.pc = .get → r.Recording → r.pvid.sbuf.toList = d :: r.pvid.sbuf.pop.toList →
      Move r ((((r.taken d r.pvid.sbuf.pop).hold).appended).goto .peek)

/-- At the configured frame rate neither call of `muxer_videnc_change_savetime` acts. -/
theorem changeSavetime_steady {r : Recorder} (h : r.Settings) (start : Bool) :
    r.muxerVidencChangeSavetime start = r := by
  cases start <;> simp [muxerVidencChangeSavetime, h.fpsOld, h.fps]

theorem muxerVidencIdle_eq {r : Recorder} (h : r.Settings) : r.muxerVidencIdle = r.opened := by
  simp [muxerVidencIdle, muxerVidencOpen, muxerVidencChangeSavetime, setState, h.fpsOld, opened]

/-- A write of a held video frame appends it to the file and counts it. -/
theorem muxerVidencWrite_eq {r : Recorder} (h : r.pvid.datablock.state = 1)
    (hr : recordFlags r.pvid.datablock.type = some fl) : r.muxerVidencWrite = r.appended := by
  rw [muxerVidencWrite, if_pos h]
  rcases count_of_recorded r.pvid.vidinfo hr with hk | hk <;>
    simp [hk, muxerVidencWriteProcess, TBlock.cleared, appended]

theorem goOn_recording {r : Recorder} (h : r.Settings) (hs : r.pvid.state = .write) :
    r.goOn = r.goto .peek := by
  simp [goOn, hs, h.save]

theorem Control.fristVideo {r : Recorder} (c : r.Control) (hp : r.pc = .frist) :
    Move r r.muxerVidencFristVideo := by
  have fresh : r.Fresh := by simpa [At, hp] using c.place
  rcases sbuf_cases c.queue.wf with ⟨hq, hg, _⟩ | ⟨d, hq, hg, _⟩
  · simp only [muxerVidencFristVideo, hg]
    exact .rest (.inl ⟨hp, fresh⟩) hq
  · simp only [muxerVidencFristVideo, hg]
    have hd := c.queue.frames d (by simp [hq])
    split
    · rename_i hf
      exact .key hp fresh hq (hf ▸ hd)
    · rename_i hf
      exact .drop hp fresh hq (Bool.eq_false_iff.mpr (fun hk => hf ((recordFlags_isIframe hd).mpr hk)))

theorem Control.writePeek {r : Recorder} (c : r.Control) (hp : r.pc = .peek) :
    Move r r.writePeek := by
  have writing : r.Recording := by simpa [At, hp] using c.place
  rcases sbuf_cases c.queue.wf with ⟨hq, _, hg⟩ | ⟨d, hq, _, hg⟩
  · simp only [Recorder.writePeek, hg]
    exact .rest (.inr ⟨hp, writing⟩) hq
  · simp only [Recorder.writePeek, hg]
    split
    · rename_i hk
      exact .roll hp writing hq hk.1 hk.2
    · exact .look hp writing hq

theorem Control.writeGet {r : Recorder} (c : r.Control) (hp : r.pc = .get) :
    Move r r.writeGet := by
  obtain ⟨writing, he⟩ : r.Recording ∧ r.pvid.sbuf.isEmpty = false := by simpa [At, hp] using c.place
  rcases sbuf_cases c.queue.wf with ⟨hq, _, _⟩ | ⟨d, hq, hg, _⟩
  · rw [(RingQueue.isEmpty_iff c.queue.wf).mpr hq] at he
    cases he
  · have hd := c.queue.frames d (by simp [hq])
    simp only [Recorder.writeGet, hg]
    rw [muxerVidencWrite_eq (r := (r.taken d r.pvid.sbuf.pop).hold) rfl hd]
    have settings : ((r.taken d r.pvid.sbuf.pop).hold).appended.Settings := { c.settings with }
    rw [goOn_recording settings writing.1]
    exact .take hp writing hq

theorem Control.firstNext {r : Recorder} (c : r.Control) (hp : r.pc = .next) :
    Move r r.muxerVidencFirstNext := by
  obtain ⟨hs, hf, hb, hr⟩ : r.At .next := hp ▸ c.place
  have mode : r.nVidencModeNow = r.nVidencModeOld := by
    rw [c.settings.modeNow, c.modeOld (by simp [hs])]
  rw [muxerVidencFirstNext, if_neg (fun h => h mode), muxerVidencWrite_eq hb hr]
  exact .first hp hf ((recordFlags_isIframe hr).mp rfl)

theorem Control.move {r : Recorder} (c : r.Control) : Move r r.muxerVidencProcess := by
  unfold muxerVidencProcess
  cases hp : r.pc with
  | wait =>
    have place : r.At .wait := hp ▸ c.place
    rcases place with ⟨hs, hf⟩ | h | h
    · simp only [enter, hs, muxerVidencIdle_eq c.settings]
      exact .start hp hs hf
    · simp only [enter, h.1]
      exact .resume hp h
    · simp only [enter, h.1]
      exact .reenter hp h
  | frist => exact c.fristVideo hp
  | next => exact c.firstNext hp
  | nextI => exact absurd c.place (by simp [At, hp])
  | write =>
    have writing : r.Recording := by simpa [At, hp] using c.place
    simp only [writeEntry, c.settings.save, if_true, changeSavetime_steady c.settings,
      goOn_recording c.settings writing.1]
    exact .loop hp writing
  | peek => exact c.writePeek hp
  | get => exact c.writeGet hp

theorem Move.control (c : Control r) (m : Move r t) : Control t := by
  have settings := c.settings
  have old (hs : r.pvid.state ≠ .idle) := c.modeOld hs
  cases m with
  | start hp hs hf =>
    exact
      { queue := c.queue
        settings := { settings with modeNow := settings.type }
        modeOld := fun _ => settings.modeNow
        place := ⟨rfl, rfl⟩ }
  | resume hp hf => exact ⟨c.queue, { settings with }, c.modeOld, hf⟩
  | reenter hp hf => exact ⟨c.queue, { settings with }, c.modeOld, hf⟩
  | rest hp hq =>
    exact ⟨c.queue, { settings with }, c.modeOld, .inr (hp.imp And.right And.right)⟩
  | drop hp hf hq hk =>
    exact ⟨c.queue.pop hq, { settings with }, c.modeOld, .inr (.inl hf)⟩
  | key hp hf hq hk =>
    exact ⟨c.queue.pop hq, { settings with }, fun _ => old (by simp [hf.1]), rfl, hf.2, rfl, hk⟩
  | first hp hf hk =>
    have place : r.At .next := hp ▸ c.place
    refine ⟨c.queue, { settings with }, fun _ => old (by simp [place.1]), rfl,
      [r.pvid.datablock.data], by simp, ?_⟩
    simp [goto, setState, appended, hf]
  | loop hp hw => exact ⟨c.queue, { settings with }, c.modeOld, hw⟩
  | roll hp hw hq hk hm =>
    exact ⟨c.queue, { settings with }, fun h => absurd rfl h, .inl ⟨rfl, rfl⟩⟩
  | look hp hw hq =>
    refine ⟨c.queue, { settings with }, c.modeOld, hw, ?_⟩
    refine Bool.eq_false_iff.mpr (fun he => ?_)
    rw [(RingQueue.isEmpty_iff c.queue.wf).mp he] at hq
    cases hq
  | @take d hp hw hq =>
    obtain ⟨f, _, hf⟩ := hw.2
    refine ⟨c.queue.pop hq, { settings with }, c.modeOld, hw.1, f ++ [d], by simp, ?_⟩
    simp only [goto, hold, taken, appended, hf]
    rfl

/-- A place is not affected by frames that arrive. -/
theorem At.put {r : Recorder} {q : Sbuf} (h : r.At p) (hq : r.pvid.sbuf.isEmpty = false → q.isEmpty = false) :
    ({ r with pvid := { r.pvid with sbuf := q }, arrived := a } : Recorder).At p := by
  cases p with
  | get => exact ⟨h.1, hq h.2⟩
  | _ => exact h

theorem Control.record {r : Recorder} (c : r.Control) (hf : r.pvid.sbuf.isFull = false)
    (addr size : Nat) (type : StreamMsg) : (r.isrRecorddata addr size type).Control := by
  unfold isrRecorddata
  cases hr : recordFlags type with
  | none => exact c
  | some flags =>
    simp only [muxerVidencBuffering]
    split
    · exact c
    · have put := c.queue.put hf (d := ⟨addr, size, flags, type⟩) hr
      rw [sbufPut_of_room hf]
      refine ⟨put, { c.settings with }, c.modeOld, c.place.put (fun _ => ?_)⟩
      refine Bool.eq_false_iff.mpr (fun he => ?_)
      rw [RingQueue.isEmpty_iff put.wf, RingQueue.toList_push c.queue.wf hf] at he
      simp at he

theorem control : recorder.Inductive Steady Control where
  init h := by
    subst h
    refine ⟨⟨⟨by decide, by decide⟩, ?_⟩, ⟨rfl, rfl, rfl, rfl, rfl⟩, fun h => absurd rfl h, .inl ⟨rfl, rfl⟩⟩
    intro d hd
    cases hd
  step {r e t} c hok st := by
    subst st
    cases e with
    | record addr size type => exact c.record hok addr size type
    | process => exact c.move.control c
    | save on => exact ⟨c.queue, { c.settings with save := hok }, c.modeOld, c.place⟩
    | fps n => exact ⟨c.queue, { c.settings with fps := hok }, c.modeOld, c.place⟩

def isKey (d : SbufData) : Bool := d.type.isIframe

abbrev Cuts := Segments.lts isKey

theorem segments_goto {r : Recorder} (hp : r.pc ≠ .next) (hq : p ≠ .next) : (r.goto p).segments = r.segments := by
  simp [Recorder.segments, inflight, goto, hp, hq]

/-- A move is at most one step of the segmenting. -/
theorem Move.segments (m : Move r t) (o : r.segments.Ordered isKey) :
    Steps Cuts Lts.any r.segments t.segments := by
  cases m with
  | start hp hs hf =>
    refine .single (l := ()) trivial ?_
    simp only [Recorder.segments, inflight, hp, hf]
    exact .begin
  | resume hp hf => exact segments_goto (r := r) (p := .frist) (by simp [hp]) (by simp) ▸ .refl
  | reenter hp hf => exact segments_goto (r := r) (p := .write) (by simp [hp]) (by simp) ▸ .refl
  | rest hp hq =>
    refine segments_goto (r := r) (p := .wait) ?_ (by simp) ▸ .refl
    rcases hp with hp | hp <;> simp [hp.1]
  | @drop d hp hf hq hk =>
    have noFile : r.files = [] := by
      by_contra hne
      obtain ⟨a, p, ha, ka⟩ := o.waiting hne (by simp [Recorder.segments, hf.2])
      simp only [Recorder.segments, inflight, hp, hq] at ha
      cases ha
      rw [isKey, hk] at ka
      cases ka
    refine .single (l := ()) trivial ?_
    have before : r.segments = ⟨r.arrived, d :: r.pvid.sbuf.pop.toList, [], some []⟩ := by
      simp only [Recorder.segments, inflight, hp, hq, noFile, hf.2]
      rfl
    have after : ((r.taken d r.pvid.sbuf.pop).goto .wait).segments =
        ⟨r.arrived, r.pvid.sbuf.pop.toList, [], some []⟩ := by
      simp only [← noFile, ← hf.2]
      rfl
    rw [before, after]
    exact .skip (show isKey d = false from hk)
  | @key d hp hf hq hk =>
    have same : ((((r.taken d r.pvid.sbuf.pop).setState .firstNext).hold).goto .next).segments =
        r.segments := by
      simp only [Recorder.segments, inflight, hp, hq]
      rfl
    exact same ▸ .refl
  | first hp hf hk =>
    refine .single (l := ()) trivial ?_
    have before : r.segments =
        ⟨r.arrived, r.pvid.datablock.data :: r.pvid.sbuf.toList, r.files, some []⟩ := by
      simp only [Recorder.segments, inflight, hp, hf]
      rfl
    have after : ((r.appended.setState .write).goto .write).segments =
        ⟨r.arrived, r.pvid.sbuf.toList, r.files, some ([] ++ [r.pvid.datablock.data])⟩ := by
      simp only [Recorder.segments, inflight, goto, setState, appended, hf]
      rfl
    rw [before, after]
    exact .take (.inr hk)
  | loop hp hw => exact segments_goto (r := r) (p := .peek) (by simp [hp]) (by simp) ▸ .refl
  | @roll d hp hw hq hk hm =>
    obtain ⟨f, hne, hf⟩ := hw.2
    refine .single (l := ()) trivial ?_
    have before : r.segments = ⟨r.arrived, d :: r.pvid.sbuf.pop.toList, r.files, some f⟩ := by
      simp only [Recorder.segments, inflight, hp, hq, hf]
      rfl
    have after : ((r.loaded d).muxerVidencClose.goto .wait).segments =
        ⟨r.arrived, d :: r.pvid.sbuf.pop.toList, r.files ++ [f], none⟩ := by
      simp only [← hq, ← Option.toList_some (a := f), ← hf]
      rfl
    rw [before, after]
    exact .roll hk hne
  | @look d hp hw hq =>
    have same : ((r.loaded d).goto .get).segments = r.segments := by
      simp only [Recorder.segments, inflight, hp]
      rfl
    exact same ▸ .refl
  | @take d hp hw hq =>
    obtain ⟨f, hne, hf⟩ := hw.2
    refine .single (l := ()) trivial ?_
    have before : r.segments = ⟨r.arrived, d :: r.pvid.sbuf.pop.toList, r.files, some f⟩ := by
      simp only [Recorder.segments, inflight, hp, hq, hf]
      rfl
    have after : ((((r.taken d r.pvid.sbuf.pop).hold).appended).goto .peek).segments =
        ⟨r.arrived, r.pvid.sbuf.pop.toList, r.files, some (f ++ [d])⟩ := by
      simp only [Recorder.segments, inflight, goto, hold, taken, appended, hf]
      rfl
    rw [before, after]
    exact .take (.inl hne)

theorem record_segments {r : Recorder} (c : r.Control) (hf : r.pvid.sbuf.isFull = false)
    (addr size : Nat) (type : StreamMsg) :
    Steps Cuts Lts.any r.segments (r.isrRecorddata addr size type).segments := by
  unfold isrRecorddata
  cases hr : recordFlags type with
  | none => exact .refl
  | some flags =>
    simp only [muxerVidencBuffering]
    split
    · exact .refl
    · refine .single (l := ()) trivial ?_
      simp only [Recorder.segments, inflight, sbufPut_of_room hf]
      rw [RingQueue.toList_push c.queue.wf hf, ← List.append_assoc]
      exact .arrive _

theorem step_segments {e : Event} (c : Control r) (o : Reach Cuts Lts.any r.segments)
    (hok : Steady r e) (st : recorder.step r e t) : Steps Cuts Lts.any r.segments t.segments := by
  subst st
  cases e with
  | record addr size type => exact record_segments c hok addr size type
  | process => exact c.move.segments (Segments.ordered.reach o)
  | save on => exact .refl
  | fps n => exact .refl

theorem reach_segments (h : Reach recorder Steady r) : Reach Cuts Lts.any r.segments :=
  h.refine control (fun hi => by subst hi; exact rfl) step_segments

/-- The moves left before the queue is drained, at most eight for a queued frame. -/
def rank (r : Recorder) : Nat :=
  match r.pc with
  | .wait => if r.pvid.state = .write then 6 else 3
  | .frist => 2
  | .next => 6
  | .nextI => 0
  | .write => 5
  | .peek => 4
  | .get => 2

def Drained (r : Recorder) : Prop := r.pc = .wait ∧ r.pvid.sbuf.toList = []

instance (r : Recorder) : Decidable r.Drained := inferInstanceAs (Decidable (_ ∧ _))

def work (r : Recorder) : Nat := if r.Drained then 0 else 8 * r.pvid.sbuf.toList.length + r.rank

theorem work_le (r : Recorder) : r.work ≤ 8 * r.pvid.sbuf.toList.length + r.rank := by
  unfold work
  split <;> omega

theorem Move.work (m : Move r t) (h : ¬ r.Drained) : t.work < r.work := by
  have full : r.work = 8 * r.pvid.sbuf.toList.length + r.rank := if_neg h
  rw [full]
  cases m with
  | start hp hs hf =>
    refine (work_le _).trans_lt ?_
    simp [rank, hp, hs, goto, opened]
  | resume hp hf =>
    refine (work_le _).trans_lt ?_
    simp [rank, hp, hf.1, goto]
  | reenter hp hw =>
    refine (work_le _).trans_lt ?_
    simp [rank, hp, hw.1, goto]
  | rest hp hq =>
    have drained : (r.goto .wait).Drained := ⟨rfl, hq⟩
    rw [Recorder.work, if_pos drained]
    rcases hp with hp | hp <;> simp [rank, hp.1]
  | drop hp hf hq hk =>
    refine (work_le _).trans_lt ?_
    simp [rank, hp, hf.1, hq, goto, taken]
    omega
  | key hp hf hq hk =>
    refine (work_le _).trans_lt ?_
    simp [rank, hp, hq, goto, taken, setState, hold]
    omega
  | first hp hf hk =>
    refine (work_le _).trans_lt ?_
    simp [rank, hp, goto, setState, appended]
  | loop hp hw =>
    refine (work_le _).trans_lt ?_
    simp [rank, hp, goto]
  | roll hp hw hq hk hm =>
    refine (work_le _).trans_lt ?_
    simp [rank, hp, goto, loaded, muxerVidencClose]
  | look hp hw hq =>
    refine (work_le _).trans_lt ?_
    simp [rank, hp, goto, loaded]
  | take hp hw hq =>
    refine (work_le _).trans_lt ?_
    simp [rank, hp, hq, goto, taken, hold, appended]
    omega

/-- Only a roll closes a file. -/
theorem Move.files (m : Move r t) (h : t.files ≠ r.files) :
    r.Recording ∧ t.pvid.sbuf = r.pvid.sbuf ∧ t.file = none ∧ t.pc = .wait ∧
      (∃ f, t.files = r.files ++ [f]) ∧ ∃ d, r.pvid.sbuf.toList = d :: r.pvid.sbuf.pop.toList ∧
        d.type.isIframe = true ∧ r.pvid.vidinfo.un32vidsmax ≤ r.pvid.vidinfo.un32vidscount := by
  cases m with
  | @roll d hp hw hq hk hm =>
    obtain ⟨f, _, hf⟩ := hw.2
    refine ⟨hw, rfl, rfl, rfl, ⟨f, ?_⟩, d, hq, hk, hm⟩
    simp [goto, muxerVidencClose, loaded, hf]
  | _ => exact absurd rfl h

/-- The samples written so far. -/
def samples (r : Recorder) : List SbufData := r.files.flatten ++ r.file.getD []

/-- What a steady run keeps true. -/
structure RollsOver (r : Recorder) : Prop where
  /-- The files hold, in order, the frames taken so far from the first I frame on. -/
  order : ∃ used, r.arrived = used ++ (r.inflight ++ r.pvid.sbuf.toList) ∧
    r.samples = used.dropWhile (fun d => !isKey d)
  closed : ∀ f ∈ r.files, ∃ d rest, f = d :: rest ∧ d.type.isIframe = true
  current : ∀ f d, r.file = some f → f.head? = some d → d.type.isIframe = true
  /-- Calls of `muxer_videnc_process` alone write whatever has arrived. -/
  drains : ∃ t, Steps recorder (fun _ e => e = .process) r t ∧
    t.samples = r.arrived.dropWhile (fun d => !isKey d)
  /-- A file is closed for the I frame that then starts the next one. -/
  closes : ∀ e t, Steady r e → recorder.step r e t → t.files ≠ r.files →
    ∃ d rest, r.pvid.sbuf.toList = d :: rest ∧ d.type.isIframe = true ∧
      r.pvid.vidinfo.un32vidsmax ≤ r.pvid.vidinfo.un32vidscount ∧
      t.pvid.sbuf = r.pvid.sbuf ∧
      ∀ u f, Steps recorder Steady t u → (u.files ++ u.file.toList)[t.files.length]? = some f →
        f = [] ∨ f.head? = some d

theorem drains (c : Control r) :
    ∃ t, Steps recorder (fun _ e => e = .process) r t ∧ Control t ∧ t.Drained :=
  Steps.exists_goal (J := Control) work
    (fun _ c h => ⟨.process, _, rfl, rfl, c.move.control c, c.move.work h⟩) r c

theorem Move.arrived (m : Move r t) : t.arrived = r.arrived := by
  cases m <;> rfl

theorem arrived_steps (h : Steps recorder (fun _ e => e = .process) r t) (c : Control r) :
    t.arrived = r.arrived := by
  have both := h.inductive (I := fun t => Control t ∧ t.arrived = r.arrived)
    (fun {s e t} i hok st => by
      subst hok st
      exact ⟨i.1.move.control i.1, i.1.move.arrived.trans i.2⟩)
    ⟨c, rfl⟩
  exact both.2

theorem process_steady (h : Steps recorder (fun _ e => e = .process) r t) :
    Steps recorder Steady r t :=
  h.mono (fun _ _ e => by subst e; trivial)

theorem closes_for_next {e : Event} (h : Reach recorder Steady r) (hok : Steady r e)
    (st : recorder.step r e t) (hf : t.files ≠ r.files) :
    ∃ d rest, r.pvid.sbuf.toList = d :: rest ∧ d.type.isIframe = true ∧
      r.pvid.vidinfo.un32vidsmax ≤ r.pvid.vidinfo.un32vidscount ∧
      t.pvid.sbuf = r.pvid.sbuf ∧
      ∀ u f, Steps recorder Steady t u → (u.files ++ u.file.toList)[t.files.length]? = some f →
        f = [] ∨ f.head? = some d := by
  have c := control.reach h
  have ct := control.reach (h.step hok st)
  have ot := reach_segments (h.step hok st)
  have m : Move r t := by
    cases e with
    | process => exact st ▸ c.move
    | record addr size type =>
      refine absurd ?_ hf
      rw [show t = r.isrRecorddata addr size type from st]
      simp only [isrRecorddata, muxerVidencBuffering]
      repeat' split
      all_goals rfl
    | save on => exact absurd (congrArg Recorder.files st) hf
    | fps n => exact absurd (congrArg Recorder.files st) hf
  obtain ⟨_, hs, hfile, hpc, ⟨f, hft⟩, d, hq, hk, hm⟩ := m.files hf
  refine ⟨d, _, hq, hk, hm, hs, fun u g hu hg => ?_⟩
  have first : Segments.Next t.files.length d t.segments := by
    refine .inl ⟨rfl, by simp [Recorder.segments, hfile], r.pvid.sbuf.pop.toList, ?_⟩
    simp [Recorder.segments, inflight, hpc, hs, hq]
  have next := Segments.next_steps (by simp [hft])
    (hu.refine control step_segments ct ot) first
  rcases next with ⟨hl, ho, _⟩ | ⟨g', hg', hd⟩
  · left
    simp only [Recorder.segments] at hl ho
    rw [← hl, List.getElem?_append_right le_rfl] at hg
    cases hfu : u.file with
    | none => simp [hfu] at hg
    | some x =>
      simp only [hfu, Option.getD_some] at ho
      simpa [hfu, ho, eq_comm] using hg
  · right
    rw [← hd, ← Option.some.inj (hg.symm.trans hg')]

end Recorder

open Recorder

/-- A run of the recorder on given events. -/
def Recorder.run : Recorder → List Event → Recorder
  | r, [] => r
  | r, e :: es => (r.step e).run es

def SteadyRun : Recorder → List Event → Prop
  | _, [] => True
  | r, e :: es => Steady r e ∧ SteadyRun (r.step e) es

instance (r : Recorder) : (e : Event) → Decidable (Steady r e)
  | .record _ _ _ => inferInstanceAs (Decidable (_ = false))
  | .process => inferInstanceAs (Decidable True)
  | .save on => inferInstanceAs (Decidable (on = true))
  | .fps n => inferInstanceAs (Decidable (n = 30))

instance decidableSteadyRun : (r : Recorder) → (es : List Event) → Decidable (SteadyRun r es)
  | _, [] => inferInstanceAs (Decidable True)
  | r, e :: es =>
    have := decidableSteadyRun (r.step e) es
    inferInstanceAs (Decidable (_ ∧ _))

theorem reach_run {es : List Event} (h : Reach recorder Steady r) (hs : SteadyRun r es) :
    Reach recorder Steady (r.run es) := by
  induction es generalizing r with
  | nil => exact h
  | cons e es ih => exact ih (h.step hs.1 rfl) hs.2

/-- At a constant 30 fps and without overflow, the recorder's files hold every frame from
the first I frame on, each once and in order, and roll over at I frames only. -/
theorem roll_over (h : Reach recorder Steady r) : r.RollsOver := by
  have c := control.reach h
  have o := Segments.ordered.reach (reach_segments h)
  refine ⟨o.order, ?_, fun f d hf hd => o.current f hf d hd, ?_,
    fun e t hok st hf => closes_for_next h hok st hf⟩
  · intro f hf
    obtain ⟨hne, key⟩ := o.closed f hf
    obtain ⟨d, rest, rfl⟩ := List.exists_cons_of_ne_nil hne
    exact ⟨d, rest, rfl, key d rfl⟩
  · obtain ⟨t, ht, _, hpc, hq⟩ := drains c
    have last := (Segments.ordered.reach (reach_segments (h.steps (process_steady ht)))).order
    obtain ⟨used, split, stored⟩ := last
    simp only [Recorder.segments, inflight, hpc, hq] at split
    rw [arrived_steps ht c] at split
    refine ⟨t, ht, ?_⟩
    rw [show r.arrived = used by simpa using split]
    exact stored

def oneGop : List Event :=
  [.record 0 900 .h264P, .record 0x1000 4000 .h264I, .process, .process, .process,
    .record 0x2000 900 .h264P, .process, .process, .process, .process, .process, .process]

theorem roll_over_gop :
    (recorderInit.run oneGop).RollsOver ∧ (recorderInit.run oneGop).file =
      some [⟨0x1000, 4000, 1, .h264I⟩, ⟨0x2000, 900, 0, .h264P⟩] :=
  ⟨roll_over (reach_run (.init rfl) (by decide)), by decide⟩

end En675.Videnc
