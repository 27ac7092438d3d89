import En675.Videnc.Saver

/-! The discipline of the recorder's file handle, whatever FatFs answers and whenever recording
is switched. -/

namespace En675.Videnc

open Lib Prog

/-- `failed` is a file on which a write failed. -/
inductive Handle
  | closed | opened | failed
  deriving DecidableEq, Repr

/-- A file is opened while none is open, used and closed while one is; after a failed write it
is to be closed. -/
def Handle.next (h : Handle) (e : Sigma FatCall.Answer) : Option Handle :=
  match e, h with
  | ⟨.fOpen _, r⟩, .closed => if (r : FResult) = .ok then some .opened else some .closed
  | ⟨.fOpen _, _⟩, _ => none
  | ⟨.fExpand, _⟩, .opened => some .opened
  | ⟨.fExpand, _⟩, _ => none
  | ⟨.fWrite _, r⟩, .opened => if (r : FResult × Nat).1 = .ok then some .opened else some .failed
  | ⟨.fWrite _, _⟩, _ => none
  | ⟨.fLseek, _⟩, .opened => some .opened
  | ⟨.fLseek, _⟩, _ => none
  | ⟨.fClose, _⟩, .opened => some .closed
  | ⟨.fClose, _⟩, .failed => some .closed
  | ⟨.fClose, _⟩, .closed => none
  | _, h => some h

/-- Every call so far was in order.  At rest a file is open just while recording in a state other
than `VIDENC_IDLE`: none is left behind, and the next activation opens one where none is. -/
def HandleKept (x : Session FatCall.Answer Saver) : Prop :=
  ∃ h, watch Handle.next .closed x.calls = some h ∧ (x.state.place = .wait →
    h = if x.state.recording = true ∧ x.state.pvid.state ≠ .idle then .opened else .closed)

namespace Saver

/-- The adds of `rest` reach no flush. -/
def Spent (rest : List Add) : Prop := ∀ a ∈ rest, a.source = true ∧ a.size ≤ 0

/-- A failing write is the last of its sample. -/
def MayFail (r : Saver) : Prop :=
  match r.place with
  | .adding (_ :: rest) back => back.isSample = true ∧ Spent rest
  | _ => False

/-- So is one that leaves the card full, which does not end the loop of its add. -/
def MayFill (r : Saver) : Prop :=
  match r.place with
  | .adding (a :: _) _ =>
    r.MayFail ∧ (a.source = true → a.size ≤ ((r.buffer.total - r.buffer.length : Nat) : Int))
  | _ => True

/-- The answers with which the discipline is kept, to the calls of the turn `l` from `r`. -/
def AnswerKept (r : Saver) (l : SaverEvent) (_ : Handle) (e : Sigma FatCall.Answer) : Prop :=
  match e, l with
  | ⟨.fOpen _, fres⟩, _ => (fres : FResult) = .ok
  | ⟨.fWrite _, res⟩, _ => (res : FResult × Nat).1 ≠ .ok → r.MayFail
  | ⟨.fatGetFreesize, nFreeSize⟩, _ => (nFreeSize : UInt8) = 0 → r.MayFill
  | ⟨.sdioCdDet, there⟩, .sdcard =>
    (there : Bool) = false → r.pvid.state = .idle ∨ r.place.isOpening = true
  | _, _ => True

def Live (r : Saver) : Prop := r.recording = true ∧ r.pvid.state ≠ .idle

/-- Whether a file is open. -/
def HasFile (r : Saver) : Prop :=
  match r.place with
  | .reclaim _ _ => False
  | .room _ => False
  | .adding _ .open_ => r.recording = true
  | _ => r.Live

/-- The end of an activation in which a write failed. -/
def Failing (r : Saver) : Prop :=
  match r.place with
  | .write => r.recording = false
  | .adding _ .next => r.recording = false
  | _ => False

/-- Files are opened with space on the card; saving is not switched on again before the
activation is over in which a write failed; and `SdcardTask` stops recording while a file is open,
about to be opened, or recording is over, and starts it while none is. -/
def TurnKept (r : Saver) : SaverEvent → Prop
  | .process => r.place ≠ .room 0
  | .save on => on = true → ¬ r.Failing
  | .sdcard =>
    if r.sdSave = true then
      r.bSdVidSave = false → r.HasFile ∨ r.recording = false ∨ r.place.isOpening = true
    else r.bSdVidSave = true → ¬ r.HasFile
  | .insert => ¬ r.HasFile
  | _ => True

section decidable

instance (rest : List Add) : Decidable (Spent rest) :=
  inferInstanceAs (Decidable (∀ a ∈ rest, a.source = true ∧ a.size ≤ 0))

instance : DecidablePred MayFail := fun r => by
  unfold MayFail
  split <;> infer_instance

instance : DecidablePred MayFill := fun r => by
  unfold MayFill
  split <;> infer_instance

instance : DecidablePred Live := fun r =>
  inferInstanceAs (Decidable (r.recording = true ∧ r.pvid.state ≠ .idle))

instance : DecidablePred HasFile := fun r => by
  unfold HasFile
  split <;> infer_instance

instance : DecidablePred Failing := fun r => by
  unfold Failing
  split <;> infer_instance

instance (r : Saver) (l : SaverEvent) : Decidable (r.TurnKept l) := by
  unfold TurnKept
  split <;> infer_instance

instance (r : Saver) (l : SaverEvent) (m : Handle) (e : Sigma FatCall.Answer) :
    Decidable (r.AnswerKept l m e) :=
  match e, l with
  | ⟨.fOpen _, fres⟩, _ => inferInstanceAs (Decidable ((fres : FResult) = .ok))
  | ⟨.fWrite _, res⟩, _ => inferInstanceAs (Decidable ((res : FResult × Nat).1 ≠ .ok → r.MayFail))
  | ⟨.fatGetFreesize, nFreeSize⟩, _ => inferInstanceAs (Decidable ((nFreeSize : UInt8) = 0 → r.MayFill))
  | ⟨.sdioCdDet, there⟩, .sdcard =>
    inferInstanceAs (Decidable ((there : Bool) = false → r.pvid.state = .idle ∨ r.place.isOpening = true))
  | ⟨.sdioCdDet, _⟩, .record .. | ⟨.sdioCdDet, _⟩, .encode _ | ⟨.sdioCdDet, _⟩, .process | ⟨.sdioCdDet, _⟩, .save _
  | ⟨.sdioCdDet, _⟩, .fps _ | ⟨.sdioCdDet, _⟩, .insert | ⟨.fileGetname, _⟩, _ | ⟨.fOpendir, _⟩, _ | ⟨.fUnlink _, _⟩, _
  | ⟨.fExpand, _⟩, _ | ⟨.fLseek, _⟩, _ | ⟨.fClose, _⟩, _ => .isTrue trivial

end decidable

def HandleOk : Session FatCall.Answer Saver → SaverEvent × FatTrace → Prop :=
  Session.Ok TurnKept Handle.next AnswerKept .closed

/-- Where the recorder can be without a file. -/
def Rests (r : Saver) : Prop :=
  match r.place with
  | .wait => True
  | .reclaim _ _ => r.recording = true
  | .room _ => r.recording = true
  | .adding adds .next => Spent adds ∧ r.recording = false ∧ r.bSdVidSave = false
  | .adding adds .nextI => Spent adds
  | .adding adds .get => Spent adds ∧ (r.pvid.state = .exit ∨ r.pvid.state = .idle)
  | .write => r.recording = false ∧ r.bSdVidSave = false
  | _ => False

inductive Held (r : Saver) : Handle → Prop
  | opened : r.HasFile → Held r .opened
  | closed : ¬ r.HasFile → r.Rests → Held r .closed

section calls

variable {r : Saver} {A : Handle → Sigma FatCall.Answer → Prop}

theorem error_meets {h : Handle} {e : VidError} {post : Saver → Handle → Prop}
    (used : h = .opened ∨ h = .failed) (he : e ≠ .idxbufOvf ∧ e ≠ .full)
    (done : post r.stopped .closed) : Meets Handle.next A (r.muxerVidencError e) h post := by
  simp only [error_eq he, meets_bind, meets_ask, meets_pure]
  intro fres _
  rcases used with rfl | rfl <;> exact ⟨.closed, rfl, done⟩

theorem noFreesize_meets {test : Bool} {h : Handle} {post : Bool → Handle → Prop}
    (no : post false h) (yes : test = true → A h ⟨.fatGetFreesize, (0 : UInt8)⟩ → post true h) :
    Meets Handle.next A (noFreesize test) h post := by
  cases test with
  | false => exact no
  | true =>
    simp only [noFreesize, if_true, meets_bind, meets_ask, meets_pure]
    intro nFreeSize allowed
    refine ⟨h, rfl, ?_⟩
    by_cases zero : nFreeSize = 0
    · subst zero
      exact yes rfl allowed
    · rw [beq_eq_false_iff_ne.mpr zero]
      exact no

/-- A flush goes well, or closes the file. -/
theorem flush_meets {post : FResult × Saver → Handle → Prop} (done : post (.ok, r.setLength 0) .opened)
    (fails : ∀ fres n bw, fres ≠ .ok → A .opened ⟨.fWrite n, ((fres, bw) : FResult × Nat)⟩ →
      post (fres, r.stopped) .closed)
    (fills : A .opened ⟨.fatGetFreesize, (0 : UInt8)⟩ → post (.ok, r.stopped) .closed) :
    Meets Handle.next A r.muxerVidencBufferflush .opened post := by
  simp only [muxerVidencBufferflush, meets_bind, meets_ask]
  rintro ⟨fres, bw⟩ allowed
  by_cases ok : fres = .ok
  · subst ok
    refine ⟨.opened, rfl, ?_⟩
    simp only [ne_eq, not_true_eq_false, if_false, meets_bind]
    apply noFreesize_meets
    · simp only [Bool.false_eq_true, if_false, meets_bind]
      apply noFreesize_meets
      · exact done
      · intro _ full
        simp only [if_true, meets_bind]
        exact error_meets (.inl rfl) (by decide) (fills full)
    · intro _ full
      simp only [if_true, meets_bind]
      exact error_meets (.inl rfl) (by decide) (fills full)
  · refine ⟨.failed, if_neg ok, ?_⟩
    simp only [ne_eq, ok, not_false_eq_true, if_true, meets_bind]
    exact error_meets (.inr rfl) (by decide) (fails fres _ bw ok allowed)

end calls

section places

variable {r t : Saver} {l : SaverEvent}

theorem HasFile.at_place (file : r.HasFile) (hp : r.place = p) : (r.goto p).HasFile := by
  subst hp
  exact file

theorem Rests.at_place (rests : r.Rests) (hp : r.place = p) : (r.goto p).Rests := by
  subst hp
  exact rests

/-- `t` is as far as its file goes what `r` is, and at the same place. -/
structure SameFile (r t : Saver) : Prop where
  place : t.place = r.place
  recording : t.recording = r.recording
  state : t.pvid.state = r.pvid.state
  save : t.bSdVidSave = r.bSdVidSave

theorem SameFile.live (h : SameFile r t) : t.Live ↔ r.Live := by
  rw [Live, Live, h.recording, h.state]

theorem SameFile.hasFile (h : SameFile r t) : t.HasFile ↔ r.HasFile := by
  unfold HasFile
  rw [h.place, h.recording]
  split <;> first | exact Iff.rfl | exact h.live

theorem SameFile.rests (h : SameFile r t) (s : r.Rests) : t.Rests := by
  unfold Rests at *
  rw [h.place, h.recording, h.state, h.save]
  exact s

theorem Held.same (h : SameFile r t) (held : r.Held m) : t.Held m := by
  cases held with
  | opened file => exact .opened (h.hasFile.mpr file)
  | closed none rests => exact .closed (fun file => none (h.hasFile.mp file)) (h.rests rests)

theorem hasFile_adding (hp : r.place = .adding adds back) (file : r.HasFile) (adds' : List Add) :
    (r.goto (.adding adds' back)).HasFile := by
  have file := file.at_place hp
  cases back <;> exact file

theorem hasFile_setLength (n : Nat) (adds : List Add) (back : Back) :
    ((r.setLength n).goto (.adding adds back)).HasFile ↔ (r.goto (.adding adds back)).HasFile := by
  cases back <;> exact Iff.rfl

/-- After a failed write in a sample the rest of the sample does not touch the file. -/
theorem held_stopped {back : Back} (hb : back.isSample = true) {adds : List Add} (spent : Spent adds) :
    (r.stopped.goto (.adding adds back)).Held .closed := by
  cases back with
  | next => exact .closed (fun live => nomatch live.1) ⟨spent, rfl, rfl⟩
  | nextI => exact .closed (fun live => nomatch live.1) spent
  | get => exact .closed (fun live => nomatch live.1) ⟨spent, .inl rfl⟩
  | open_ => cases hb
  | closeFlush => cases hb
  | closeHeader => cases hb
  | closeLast => cases hb

theorem mayFail_adding (hp : r.place = .adding (a :: rest) back) (h : r.MayFail) :
    back.isSample = true ∧ Spent rest := by
  unfold MayFail at h
  rwa [hp] at h

theorem mayFill_adding (hp : r.place = .adding (a :: rest) back) (h : r.MayFill) :
    (back.isSample = true ∧ Spent rest) ∧
      (a.source = true → a.size ≤ ((r.buffer.total - r.buffer.length : Nat) : Int)) := by
  unfold MayFill at h
  rw [hp] at h
  exact ⟨mayFail_adding hp h.1, h.2⟩

theorem addRound_meets (hp : r.place = .adding (a :: rest) back) (file : r.HasFile) :
    Meets Handle.next (r.AnswerKept l) (r.addRound a rest back) .opened Held := by
  unfold addRound
  split
  · simp only [meets_bind, meets_pure]
    apply flush_meets
    · exact .opened ((hasFile_setLength 0 rest back).mpr (hasFile_adding hp file rest))
    · intro fres n bw bad allowed
      have last := mayFail_adding hp (allowed bad)
      exact held_stopped last.1 last.2
    · intro full
      have last := (mayFill_adding hp (full rfl)).1
      exact held_stopped last.1 last.2
  · rename_i source
    have source : a.source = true := by simpa using source
    split
    · exact .opened (hasFile_adding hp file rest)
    · rename_i positive
      dsimp only
      generalize hwb : (if a.size.toNat ≥ r.buffer.total - r.buffer.length then
        r.buffer.total - r.buffer.length else a.size.toNat) = wb
      split
      · simp only [meets_bind]
        apply flush_meets
        · exact .opened ((hasFile_setLength 0 _ back).mpr (hasFile_adding hp file _))
        · intro fres n bw bad allowed
          have last := mayFail_adding hp (allowed bad)
          simp only [ne_eq, bad, not_false_eq_true, if_true, meets_pure]
          exact held_stopped last.1 last.2
        · intro full
          have last := mayFill_adding hp (full rfl)
          have fits := last.2 source
          simp only [ne_eq, not_true_eq_false, if_false, meets_pure]
          refine held_stopped last.1.1 (List.forall_mem_cons.mpr ⟨⟨rfl, ?_⟩, last.1.2⟩)
          simp only [← hwb]
          split <;> omega
      · exact .opened ((hasFile_setLength _ _ back).mpr (hasFile_adding hp file _))

/-- An add that is spent leaves a recorder without a file as it is. -/
theorem addRound_spent (spent : a.source = true ∧ a.size ≤ 0) :
    r.addRound a rest back = pure (r.goto (.adding rest back)) := by
  simp [addRound, spent.1, spent.2]

theorem changeSavetimeStart_same (r : Saver) : SameFile r r.changeSavetimeStart := by
  unfold changeSavetimeStart
  split <;> exact ⟨rfl, rfl, rfl, rfl⟩

theorem makevidheader_same (r : Saver) : SameFile r r.muxerVidencMakevidheader.2 := by
  unfold muxerVidencMakevidheader
  split
  · have same := changeSavetimeStart_same r
    exact ⟨same.place, same.recording, same.state, same.save⟩
  · exact ⟨rfl, rfl, rfl, rfl⟩
  · exact ⟨rfl, rfl, rfl, rfl⟩
  · exact ⟨rfl, rfl, rfl, rfl⟩

theorem addHeader_eq (r : Saver) (back : Back) : ∃ (t : Saver) (adds : List Add),
    r.addHeader back = t.goto (.adding adds back) ∧ SameFile r t :=
  ⟨_, _, rfl, makevidheader_same r⟩

end places

section process

variable {r : Saver} {l : SaverEvent} {A : Handle → Sigma FatCall.Answer → Prop}

theorem goOn_held (live : r.Live) : r.goOn.Held .opened := by
  unfold goOn
  split
  · exact .opened live
  · split
    · exact .opened ⟨live.1, nofun⟩
    · exact .opened live

theorem goOn_idle (h : r.pvid.state = .idle) : r.goOn = r.goto .wait := if_pos (.inl h)

theorem resume_meets {back : Back} (file : (r.goto (.adding [] back)).HasFile) :
    Meets Handle.next A (r.resume back) .opened Held := by
  cases back with
  | open_ => exact .opened ⟨file, by rintro ⟨⟩⟩
  | next => exact .opened ⟨file.1, by rintro ⟨⟩⟩
  | nextI => exact .opened file
  | get => exact goOn_held file
  | closeFlush a =>
    obtain ⟨t, adds, eq, same⟩ := addHeader_eq r (.closeHeader a)
    simp only [resume, eq, meets_pure]
    exact .opened (same.live.mpr file)
  | closeHeader a =>
    simp only [resume, meets_bind, meets_ask, meets_pure]
    intro fres _
    exact ⟨.opened, rfl, .opened file⟩
  | closeLast a =>
    simp only [resume, meets_bind, meets_ask, meets_pure]
    intro fres _
    refine ⟨.closed, rfl, ?_⟩
    cases a with
    | exit => exact .closed (fun live => by cases live.1) trivial
    | savetime fpsval =>
      simp only [closed]
      rw [goOn_idle rfl]
      exact .closed (fun live => live.2 rfl) trivial
    | full =>
      simp only [closed]
      rw [goOn_idle rfl]
      exact .closed (fun live => live.2 rfl) trivial

/-- Back from a write without a file to the rest of the activation. -/
theorem resume_rests {back : Back} {adds : List Add} (none : ¬ (r.goto (.adding adds back)).HasFile)
    (rests : (r.goto (.adding adds back)).Rests) : Meets Handle.next A (r.resume back) .closed Held := by
  cases back with
  | next => exact .closed (fun live => nomatch rests.2.1.symm.trans live.1) rests.2
  | nextI => exact .closed none trivial
  | get =>
    have ended : r.goOn = r.goto .wait := by
      unfold goOn
      rw [if_pos]
      rcases rests.2 with exit | idle
      · exact .inr (.inr exit)
      · exact .inl idle
    simp only [resume, ended, meets_pure]
    exact .closed none trivial
  | open_ => exact rests.elim
  | closeFlush => exact rests.elim
  | closeHeader => exact rests.elim
  | closeLast => exact rests.elim

theorem write_meets {back : Back} (live : r.Live) (hb : back.isSample = true) :
    Meets Handle.next A (r.muxerVidencWrite back) .opened Held := by
  have file (t : Saver) (same : t.Live) (adds : List Add) : (t.goto (.adding adds back)).HasFile := by
    cases back <;> first | exact same | cases hb
  unfold muxerVidencWrite
  split
  · dsimp only
    split
    · split
      · exact .opened (file _ live _)
      · trivial
    · exact resume_meets (file _ live [])
  · exact resume_meets (file r live [])

theorem enter_meets (held : r.Held m) (hp : r.place = .wait) (rec : r.recording = true) :
    Meets Handle.next A r.enter m Held := by
  cases held with
  | opened file =>
    have live : r.Live := file.at_place hp
    unfold enter
    split
    · rename_i idle
      exact absurd idle live.2
    · exact .opened live
    · exact .opened live
    · exact .opened live
    · exact .opened live
    · exact .opened file
  | closed none rests =>
    have idle : r.pvid.state = .idle := by
      by_contra busy
      apply none
      unfold HasFile
      rw [hp]
      exact ⟨rec, busy⟩
    simp only [enter, idle, muxerVidencIdle, meets_bind, meets_ask, meets_pure]
    intro nFreeSize _
    exact ⟨.closed, rfl, .closed id rec⟩

theorem fristVideo_held (live : r.Live) : r.muxerVidencFristVideo.Held .opened := by
  unfold muxerVidencFristVideo
  split
  · exact .opened live
  · split
    · exact .opened ⟨live.1, nofun⟩
    · exact .opened live

theorem nextIVideo_meets (live : r.Live) : Meets Handle.next A r.muxerVidencNextIVideo .opened Held := by
  unfold muxerVidencNextIVideo
  split
  · exact .opened live
  · split
    · exact write_meets ⟨live.1, nofun⟩ rfl
    · exact .opened live

theorem firstNext_meets (live : r.Live) : Meets Handle.next A r.muxerVidencFirstNext .opened Held := by
  unfold muxerVidencFirstNext
  split
  · exact .opened live
  · exact write_meets live rfl

theorem writeEntry_held (live : r.Live) : r.writeEntry.Held .opened := by
  unfold writeEntry
  split
  · split
    · exact .opened ⟨live.1, nofun⟩
    · exact goOn_held live
  · exact .opened ⟨live.1, nofun⟩

theorem writePeek_held (live : r.Live) : r.writePeek.Held .opened := by
  unfold writePeek
  split
  · exact .opened live
  · dsimp only
    split
    · exact .opened ⟨live.1, nofun⟩
    · exact .opened live

theorem writeGet_meets (live : r.Live) : Meets Handle.next A r.writeGet .opened Held := by
  unfold writeGet
  split
  · exact .opened live
  · exact write_meets live rfl

theorem fileDelete_meets (rec : r.recording = true) (cnt nFreeSize : Nat) :
    Meets Handle.next A (r.videncInfoFileDelete cnt nFreeSize) .closed Held := by
  unfold videncInfoFileDelete
  split
  · split
    · exact .closed id rec
    · simp only [meets_bind, meets_ask]
      intro fres _
      refine ⟨.closed, rfl, ?_⟩
      split
      · exact .closed id rec
      · simp only [meets_bind, meets_ask, meets_pure]
        intro nFreeSize _
        exact ⟨.closed, rfl, .closed id rec⟩
  · exact .closed id rec

theorem stopped_rests (r : Saver) : (r.stopped.goto .wait).Held .closed :=
  .closed (fun live => nomatch live.1) trivial

theorem openListed_meets (rec : r.recording = true) (name : FileName) :
    Meets Handle.next A (r.openListed name) .opened Held := by
  have header (t : Saver) (h : t.recording = true) : (t.addHeader .open_).Held .opened := by
    obtain ⟨u, adds, eq, same⟩ := addHeader_eq t .open_
    rw [eq]
    exact .opened (same.recording.trans h)
  unfold openListed
  dsimp only
  split
  · simp only [meets_bind, meets_pure]
    exact error_meets (.inl rfl) (by decide) (stopped_rests _)
  · split
    · simp only [meets_bind, meets_ask, meets_pure]
      intro fres _
      exact ⟨.opened, rfl, header _ rec⟩
    · exact header _ rec

theorem open_meets (rec : r.recording = true) (hn : n ≠ 0) :
    Meets Handle.next (r.AnswerKept l) (r.muxerVidencOpen n) .closed Held := by
  simp only [muxerVidencOpen, if_neg hn, meets_bind, meets_ask]
  intro name _
  refine ⟨.closed, rfl, ?_⟩
  intro fres ok
  obtain rfl : fres = .ok := ok
  refine ⟨.opened, rfl, ?_⟩
  simp only [ne_eq, not_true_eq_false, if_false, meets_bind, meets_ask]
  intro fexp _
  refine ⟨.opened, rfl, ?_⟩
  split
  · simp only [meets_bind, meets_pure]
    exact error_meets (.inl rfl) (by decide) (stopped_rests _)
  · apply openListed_meets
    exact rec

theorem process_opened (file : r.HasFile) (hw : r.place = .wait → r.recording = true) :
    Meets Handle.next (r.AnswerKept l) r.muxerVidencProcess .opened Held := by
  unfold muxerVidencProcess
  cases hp : r.place with
  | wait => exact enter_meets (.opened file) hp (hw hp)
  | reclaim cnt n => exact False.elim (file.at_place hp)
  | room n => exact False.elim (file.at_place hp)
  | adding adds back =>
    cases adds with
    | nil =>
      dsimp only [addsDone]
      split
      · exact resume_meets (hasFile_adding hp file [])
      · exact resume_meets (hasFile_adding hp file [])
    | cons a rest => exact addRound_meets hp file
  | frist => exact fristVideo_held (file.at_place hp)
  | next => exact firstNext_meets (file.at_place hp)
  | nextI => exact nextIVideo_meets (file.at_place hp)
  | write => exact writeEntry_held (file.at_place hp)
  | peek => exact writePeek_held (file.at_place hp)
  | get => exact writeGet_meets (file.at_place hp)

theorem rests_adding (none : ¬ r.HasFile) (rests : r.Rests) (hp : r.place = .adding adds back) :
    Spent adds ∧ ∀ rest, Spent rest →
      ¬ (r.goto (.adding rest back)).HasFile ∧ (r.goto (.adding rest back)).Rests := by
  unfold HasFile at none
  have rests := rests.at_place hp
  rw [hp] at none
  cases back with
  | next => exact ⟨rests.1, fun rest spent => ⟨none, spent, rests.2⟩⟩
  | nextI => exact ⟨rests, fun rest spent => ⟨none, spent⟩⟩
  | get => exact ⟨rests.1, fun rest spent => ⟨none, spent, rests.2⟩⟩
  | open_ => exact False.elim rests
  | closeFlush => exact False.elim rests
  | closeHeader => exact False.elim rests
  | closeLast => exact False.elim rests

theorem process_rests (none : ¬ r.HasFile) (rests : r.Rests) (room : r.place ≠ .room 0)
    (hw : r.place = .wait → r.recording = true) :
    Meets Handle.next (r.AnswerKept l) r.muxerVidencProcess .closed Held := by
  unfold muxerVidencProcess
  cases hp : r.place with
  | wait => exact enter_meets (.closed none rests) hp (hw hp)
  | reclaim cnt n => exact fileDelete_meets (rests.at_place hp) cnt n
  | room n => exact open_meets (rests.at_place hp) fun zero => room (zero ▸ hp)
  | adding adds back =>
    obtain ⟨spent, keeps⟩ := rests_adding none rests hp
    cases adds with
    | nil =>
      obtain ⟨none', rests'⟩ := keeps [] spent
      dsimp only [addsDone]
      split
      · exact resume_rests none' rests'
      · exact resume_rests none' rests'
    | cons a rest =>
      have spent := List.forall_mem_cons.mp spent
      obtain ⟨none', rests'⟩ := keeps rest spent.2
      dsimp only
      rw [addRound_spent spent.1]
      exact .closed none' rests'
  | write =>
    have ends := rests.at_place hp
    simp only [writeEntry, show r.bSdVidSave = false from ends.2, Bool.false_eq_true, if_false]
    exact .closed (fun live => nomatch ends.1.symm.trans live.1) trivial
  | frist => exact False.elim (rests.at_place hp)
  | next => exact False.elim (rests.at_place hp)
  | nextI => exact False.elim (rests.at_place hp)
  | peek => exact False.elim (rests.at_place hp)
  | get => exact False.elim (rests.at_place hp)

theorem process_meets (held : r.Held m) (room : r.place ≠ .room 0) :
    Meets Handle.next (r.AnswerKept l) r.muxerVidenc m Held := by
  unfold muxerVidenc
  split
  · exact held
  · rename_i active
    have hw : r.place = .wait → r.recording = true := by
      intro hp
      by_contra idle
      exact active ⟨hp, fun both => idle both.2⟩
    cases held with
    | opened file => exact process_opened file hw
    | closed none rests => exact process_rests none rests room hw

end process

section init

variable {r : Saver} {l : SaverEvent} {A : Handle → Sigma FatCall.Answer → Prop}

theorem setList_same (r : Saver) (h : EncHeap) : SameFile r (r.setList h) := ⟨rfl, rfl, rfl, rfl⟩

theorem SameFile.trans (h : SameFile r t) (k : SameFile t u) : SameFile r u :=
  ⟨k.place.trans h.place, k.recording.trans h.recording, k.state.trans h.state, k.save.trans h.save⟩

/-- Reading the directory does not touch the file. -/
theorem scanEntry_meets (f : FilInfo) (m : Handle) :
    Meets Handle.next A (r.scanEntry f) m fun t n => n = m ∧ SameFile r t := by
  have same := SameFile.mk (r := r) (t := r) rfl rfl rfl rfl
  unfold scanEntry
  split
  · exact ⟨rfl, same⟩
  · split
    · split
      · simp only [meets_bind, meets_ask, meets_pure]
        intro fres _
        exact ⟨m, by cases m <;> rfl, rfl, same⟩
      · dsimp only
        split
        · simp only [meets_bind, meets_ask, meets_pure]
          intro fres _
          exact ⟨m, by cases m <;> rfl, rfl, (setList_same r _).trans (setList_same _ _)⟩
        · exact ⟨rfl, setList_same r _⟩
    · simp only [meets_bind, meets_ask, meets_pure]
      intro fres _
      exact ⟨m, by cases m <;> rfl, rfl, same⟩

theorem scan_meets (fs : List FilInfo) (m : Handle) :
    Meets Handle.next A (scan fs r) m fun t n => n = m ∧ SameFile r t := by
  induction fs generalizing r with
  | nil => exact ⟨rfl, rfl, rfl, rfl, rfl⟩
  | cons f fs ih =>
    simp only [scan, meets_bind]
    refine (scanEntry_meets f m).mono ?_
    rintro t n ⟨rfl, same⟩
    refine ih.mono ?_
    rintro u n ⟨rfl, same'⟩
    exact ⟨rfl, same.trans same'⟩

/-- What `muxer_videnc_init` does to the state of the recorder, if there is a card. -/
theorem init_meets (m : Handle) : Meets Handle.next A r.muxerVidencInit m fun t n =>
    n = m ∧ t.place = r.place ∧ t.recording = r.recording ∧ t.bSdVidSave = r.bSdVidSave ∧
      (t.pvid.state = .idle ∨ A m ⟨.sdioCdDet, false⟩ ∧ t = r) := by
  simp only [muxerVidencInit, videncInfoInitFilenamelist, meets_bind, meets_ask]
  intro there allowed
  refine ⟨m, by cases m <;> rfl, ?_⟩
  cases there with
  | false => exact ⟨rfl, rfl, rfl, rfl, .inr ⟨allowed, rfl⟩⟩
  | true =>
    simp only [if_true, meets_bind, meets_ask, meets_pure]
    intro entries _
    refine ⟨m, by cases m <;> rfl, (scan_meets entries m).mono ?_⟩
    rintro t n ⟨rfl, same⟩
    have start := changeSavetimeStart_same t
    exact ⟨rfl, start.place.trans same.place, start.recording.trans same.recording,
      start.save.trans same.save, .inl (start.state.trans same.state)⟩

/-- A recorder without a file that starts recording, or is set to `VIDENC_IDLE`. -/
theorem Held.restart {r t : Saver} (held : r.Held .closed) (place : t.place = r.place)
    (save : t.bSdVidSave = r.bSdVidSave)
    (rec : t.recording = r.recording ∨ t.recording = true ∧ r.bSdVidSave = true)
    (state : t.pvid.state = .idle ∨ t.pvid.state = r.pvid.state ∧
      (t.recording = r.recording ∨ r.pvid.state = .idle ∨ r.place.isOpening = true)) :
    t.Held .closed := by
  obtain ⟨none, rests⟩ : ¬ r.HasFile ∧ r.Rests := by
    cases held with
    | closed none rests => exact ⟨none, rests⟩
  have ran (h : r.recording = true) : t.recording = true := rec.elim (fun same => same.trans h) And.left
  have ends (h : r.recording = false ∧ r.bSdVidSave = false) :
      t.recording = false ∧ t.bSdVidSave = false := by
    refine ⟨rec.elim (fun same => same.trans h.1) fun started => ?_, save.trans h.2⟩
    exact nomatch h.2.symm.trans started.2
  have shut (file : r.HasFile = r.Live) (inside : r.place.isOpening = false) : ¬ t.Live := by
    intro live
    rcases state with idle | ⟨same, again | idle | opening⟩
    · exact live.2 idle
    · exact none (file ▸ ⟨again.symm.trans live.1, same ▸ live.2⟩)
    · exact live.2 (same.trans idle)
    · exact nomatch inside.symm.trans opening
  have none' : ¬ t.HasFile := by
    unfold HasFile at shut ⊢
    unfold Rests at rests
    rw [place]
    cases hp : r.place with
    | reclaim => exact id
    | room => exact id
    | adding adds back =>
      rw [hp] at shut rests
      cases back with
      | open_ => exact rests.elim
      | _ => exact shut rfl rfl
    | _ =>
      rw [hp] at shut
      exact shut rfl rfl
  refine .closed none' ?_
  unfold Rests at rests ⊢
  rw [place]
  cases hp : r.place with
  | wait => trivial
  | reclaim cnt n =>
    rw [hp] at rests
    exact ran rests
  | room n =>
    rw [hp] at rests
    exact ran rests
  | write =>
    rw [hp] at rests
    exact ends rests
  | adding adds back =>
    rw [hp] at rests
    cases back with
    | next => exact ⟨rests.1, ends rests.2⟩
    | nextI => exact rests
    | get =>
      refine ⟨rests.1, ?_⟩
      rcases state with idle | ⟨same, _⟩
      · exact .inr idle
      · rw [same]
        exact rests.2
    | _ => exact rests
  | _ =>
    rw [hp] at rests
    exact rests

end init

section runs

variable {r : Saver} {l : SaverEvent}

theorem save_held (held : r.Held m) (on : Bool) (kept : on = true → ¬ r.Failing) :
    { r with bSdVidSave := on }.Held m := by
  cases held with
  | opened file => exact .opened file
  | closed none rests =>
    refine .closed none ?_
    have off (failing : r.recording = false → r.Failing) (h : r.recording = false ∧ r.bSdVidSave = false) :
        r.recording = false ∧ on = false := by
      refine ⟨h.1, ?_⟩
      cases on with
      | false => rfl
      | true => exact absurd (failing h.1) (kept rfl)
    unfold Failing at off
    unfold Rests at rests ⊢
    dsimp only
    split at rests
    · trivial
    · exact rests
    · exact rests
    · rename_i hp
      rw [hp] at off
      exact ⟨rests.1, off id rests.2⟩
    · exact rests
    · exact rests
    · rename_i hp
      rw [hp] at off
      exact off id rests
    · exact rests.elim

/-- `SdcardTask` on finding saving switched off. -/
theorem exit_held (held : r.Held m)
    (kept : r.HasFile ∨ r.recording = false ∨ r.place.isOpening = true) (sdSave : Bool) :
    { r.setState .exit with sdSave }.Held m := by
  have exits (file : r.HasFile) : { r.setState .exit with sdSave }.HasFile := by
    unfold HasFile at file ⊢
    dsimp only [setState]
    split at file
    · exact file
    · exact file
    · exact file
    · exact ⟨file.1, nofun⟩
  cases held with
  | opened file => exact .opened (exits file)
  | closed none rests =>
    refine .closed ?_ ?_
    · unfold HasFile at none ⊢
      dsimp only [setState]
      rcases kept with file | ended | opening
      · exact absurd file none
      · split
        · exact id
        · exact id
        · exact fun rec => nomatch ended.symm.trans rec
        · exact fun live => nomatch ended.symm.trans live.1
      · unfold Place.isOpening at opening
        split at opening
        · rename_i hp
          rw [hp]
          exact id
        · rename_i hp
          rw [hp]
          exact id
        · cases opening
    · unfold Rests at rests ⊢
      dsimp only [setState]
      split at rests
      · trivial
      · exact rests
      · exact rests
      · exact rests
      · exact rests
      · exact ⟨rests.1, .inl rfl⟩
      · exact rests
      · exact rests.elim

theorem sdcard_meets (held : r.Held m) (kept : r.TurnKept .sdcard) :
    Meets Handle.next (r.AnswerKept .sdcard) r.sdcardTask m Held := by
  unfold TurnKept at kept
  unfold sdcardTask
  split
  · rename_i saving
    rw [if_pos saving] at kept
    cases on : r.bSdVidSave with
    | true => exact held
    | false =>
      have kept := kept on
      exact exit_held held kept false
  · rename_i idle
    rw [if_neg idle] at kept
    cases on : r.bSdVidSave with
    | false => exact held
    | true =>
      cases held with
      | opened file => exact absurd file (kept on)
      | closed none rests =>
        simp only [if_true, meets_bind, meets_pure]
        refine (init_meets .closed).mono ?_
        rintro t n ⟨rfl, place, rec, save, state⟩
        refine Held.restart (.closed none rests) place (save.trans on.symm) (.inr ⟨rfl, on⟩) ?_
        rcases state with idle | ⟨allowed, rfl⟩
        · exact .inl idle
        · exact .inr ⟨rfl, .inr (allowed rfl)⟩

theorem insert_meets {A : Handle → Sigma FatCall.Answer → Prop} (held : r.Held m) (kept : ¬ r.HasFile) :
    Meets Handle.next A r.sdcardReady m Held := by
  cases held with
  | opened file => exact absurd file kept
  | closed none rests =>
    simp only [sdcardReady, meets_bind, meets_pure]
    refine (init_meets .closed).mono ?_
    rintro t n ⟨rfl, place, rec, save, state⟩
    refine Held.restart (.closed none rests) place save (.inl rec) ?_
    rcases state with idle | ⟨_, rfl⟩
    · exact .inl idle
    · exact .inr ⟨rfl, .inl rfl⟩

theorem turn_meets (held : r.Held m) (kept : r.TurnKept l) :
    Meets Handle.next (r.AnswerKept l) (r.turn l) m Held := by
  cases l with
  | record addr size type =>
    have same : SameFile r (r.isrRecorddata addr size type) := by
      unfold isrRecorddata muxerVidencBuffering
      split
      · split <;> exact ⟨rfl, rfl, rfl, rfl⟩
      · exact ⟨rfl, rfl, rfl, rfl⟩
    exact held.same same
  | encode mem =>
    have same : SameFile r { r with mem } := ⟨rfl, rfl, rfl, rfl⟩
    exact held.same same
  | process => exact process_meets held kept
  | save on => exact save_held held on kept
  | fps n =>
    have same : SameFile r { r with nFps := n } := ⟨rfl, rfl, rfl, rfl⟩
    exact held.same same
  | sdcard => exact sdcard_meets held kept
  | insert => exact insert_meets held kept

theorem boot_held (h : r.Boot) : r.Held .closed := by
  have none : ¬ r.HasFile := by
    unfold HasFile
    rw [h.place]
    exact fun live => nomatch h.recording.symm.trans live.1
  refine .closed none ?_
  unfold Rests
  rw [h.place]
  trivial

end runs

end Saver

theorem handle_kept (h : Reach saver Saver.HandleOk x) : HandleKept x := by
  obtain ⟨m, hm, held⟩ := Session.reach (fun _ => Saver.boot_held) (fun _ _ _ => Saver.turn_meets) h
  refine ⟨m, hm, fun hp => ?_⟩
  cases held with
  | opened file => exact (if_pos (file.at_place hp)).symm
  | closed none rests =>
    unfold Saver.HasFile at none
    rw [hp] at none
    exact (if_neg none).symm

section runs

/-- Saving switched off, and the first turns of the close. -/
def stopRun : List (SaverEvent × FatTrace) := [(.save false, []), (.sdcard, [])] ++ turns 1

/-- A frame recorded behind the header, and the file closed. -/
def frameRun : List (SaverEvent × FatTrace) :=
  startRun ++ [(.record 0 20 .h264I, [])] ++ turns 18 ++ stopRun ++
    [(.process, [⟨.fWrite 65559, ((FResult.ok, 65559) : FResult × Nat)⟩])] ++ turns 3 ++
    [(.process, [⟨.fLseek, FResult.ok⟩]),
      (.process, [⟨.fWrite 65536, ((FResult.ok, 65536) : FResult × Nat)⟩]), (.process, [⟨.fClose, FResult.ok⟩])]

/-- A card that fails when the file is closed. -/
def failRun : List (SaverEvent × FatTrace) :=
  startRun ++ stopRun ++
    [(.process, [⟨.fWrite 65536, ((FResult.err 1, 0) : FResult × Nat)⟩, ⟨.fClose, FResult.err 1⟩])] ++ turns 3 ++
    [(.process, [⟨.fLseek, FResult.err 9⟩])]

instance (x : Session FatCall.Answer Saver) (l : SaverEvent × FatTrace) : Decidable (Saver.HandleOk x l) :=
  inferInstanceAs (Decidable (Session.Ok _ _ _ _ x l))

theorem handle_kept_frameRun : ∃ x, Reach saver Saver.HandleOk x ∧ x.calls.length = 10 ∧ HandleKept x := by
  obtain ⟨x, hx, calls⟩ := Session.exists_play Saver.HandleOk reach_boot frameRun
    (fun x => x.calls.length == 10) (by decide +kernel)
  exact ⟨x, hx, beq_iff_eq.mp calls, handle_kept hx⟩

/-- The header is written again and `f_lseek` called after the failed write has closed the file. -/
theorem handle_dead : ∃ x, Reach saver Lts.any x ∧ ¬ HandleKept x := by
  obtain ⟨x, hx, dead⟩ := Session.exists_play Lts.any reach_boot failRun
    (fun x => (watch Handle.next .closed x.calls).isNone) (by decide +kernel)
  refine ⟨x, hx, ?_⟩
  rintro ⟨m, hm, _⟩
  rw [hm] at dead
  cases dead

end runs

end En675.Videnc
