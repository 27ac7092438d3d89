import En675.Videnc.Tables

/-! The frame rate in the recorder: a file is opened for 30 frames a second, and closed by
the next turn that finds another rate configured. -/

namespace En675.Videnc

open Lib Recorder

/-- Recording is never switched off. -/
def KeepsOn (_ : Muxer) : MuxerEvent → Prop
  | .task (.save on) => on = true
  | _ => True

namespace Muxer

/-- What a run with recording on keeps true, whatever the frame rate. -/
structure On (n : Nat) (m : Muxer) : Prop where
  save : m.gVidenc.bSdVidSave = true
  sdSave : m.sdSave = true
  state : m.gVidenc.pvid.state ≠ .exit
  rate : m.gVidenc.nFps = n
  header : ∀ f, m.gVidenc.file = some f → m.fFps = 30

theorem Turn.on {m t : Muxer} (s : Sound m.gVidenc) (h : Turn m t) (o : m.On n) : t.On n := by
  obtain ⟨save, sdSave, state, rate, header⟩ := o
  have place := s.place
  cases h with
  | rest hp => exact ⟨save, sdSave, state, rate, header⟩
  | stop hp hs => exact absurd hs state
  | begin hp hs =>
    obtain ⟨_, _, nFps, on, _, first⟩ := muxerVidencIdle_fields m.gVidenc
    refine ⟨on.trans save, sdSave, ?_, nFps.trans rate, fun _ _ => rfl⟩
    change m.gVidenc.muxerVidencIdle.pvid.state ≠ .exit
    rw [first]
    nofun
  | resume hp hs => exact ⟨save, sdSave, state, rate, header⟩
  | reenter hp hs => exact ⟨save, sdSave, state, rate, header⟩
  | drained hp hq => exact ⟨save, sdSave, state, rate, header⟩
  | drop hp hq => exact ⟨save, sdSave, state, rate, header⟩
  | key hp hq hf hr => exact ⟨save, sdSave, nofun, rate, header⟩
  | first hp =>
    rw [hp] at place
    exact ⟨save, sdSave, nofun, rate, fun _ _ => header [] place.1.file⟩
  | change hp hn => exact ⟨save, sdSave, nofun, rate, nofun⟩
  | leave hp hc hs =>
    rcases hc with hc | rfl
    · cases save.symm.trans hc
    · exact ⟨save, sdSave, state, rate, header⟩
  | loop hp hn => exact ⟨save, sdSave, state, rate, header⟩
  | roll hp hq hm => exact ⟨save, sdSave, nofun, rate, nofun⟩
  | look hp hq hk => exact ⟨save, sdSave, state, rate, header⟩
  | take hp hq hr hg ht =>
    rw [hp] at place
    obtain ⟨_, f, filling⟩ := place
    have open_ := header f filling.file
    subst hg
    rcases ht with rfl | ⟨st, _, hc, rfl⟩
    · exact ⟨save, sdSave, state, rate, fun _ _ => open_⟩
    · rcases hc with hc | rfl
      · cases save.symm.trans hc
      · exact ⟨save, sdSave, state, rate, fun _ _ => open_⟩

theorem sdcard_on {m : Muxer} (o : m.On n) : m.sdcardTask = m := by
  rw [sdcardTask, if_pos o.sdSave, if_pos o.save]

/-- A property that the turns keep, and that the queue does not matter to, holds in every run. -/
theorem on_inductive {m : Muxer} (P : Muxer → Prop) (init : P (muxerInit n))
    (turn : ∀ {m t : Muxer}, Sound m.gVidenc → Turn m t → m.On n → P m → P t)
    (same : ∀ {m t : Muxer}, t.gVidenc.file = m.gVidenc.file → t.gVidenc.files = m.gVidenc.files →
      t.fFps = m.fFps → P m → P t)
    (r : Reach (muxer {n}) KeepsOn m) : m.On n ∧ P m := by
  refine Lts.Inductive.reach_of (I := fun m : Muxer => m.On n ∧ P m)
    (J := fun m : Muxer => Sound m.gVidenc) ?_ ?_ ?_ r
  · exact ⟨muxer_sound.init, fun s _ st => muxer_sound.step s trivial st⟩
  · rintro m ⟨_, rfl, rfl⟩
    exact ⟨⟨rfl, rfl, nofun, rfl, nofun⟩, init⟩
  · rintro m e t s ⟨o, p⟩ ok ⟨rate, rfl⟩
    cases e with
    | sdcard =>
      simp only [Muxer.step, sdcard_on o]
      exact ⟨o, p⟩
    | task e =>
      cases e with
      | process => exact ⟨(m.turn s).on s o, turn s (m.turn s) o p⟩
      | record addr size type =>
        simp only [Muxer.step, Recorder.step]
        rcases m.gVidenc.record_cases addr size type with h | ⟨flags, _, h⟩ <;> rw [h]
        · exact ⟨o, p⟩
        · exact ⟨⟨o.save, o.sdSave, o.state, o.rate, o.header⟩, same (m := m) rfl rfl rfl p⟩
      | save on => exact ⟨⟨ok, o.sdSave, o.state, o.rate, o.header⟩, same (m := m) rfl rfl rfl p⟩
      | fps k => exact ⟨⟨o.save, o.sdSave, o.state, rate k rfl, o.header⟩, same (m := m) rfl rfl rfl p⟩

theorem Turn.closes {m t : Muxer} (s : Sound m.gVidenc) (h : Turn m t) (o : m.On 30)
    (full : ∀ f ∈ m.gVidenc.files, saveNorTimeMax * 30 ≤ f.length) :
    ∀ f ∈ t.gVidenc.files, saveNorTimeMax * 30 ≤ f.length := by
  have place := s.place
  cases h with
  | stop hp hs => exact absurd hs o.state
  | begin hp hs =>
    obtain ⟨_, _, _, _, files, _⟩ := muxerVidencIdle_fields m.gVidenc
    exact files.symm ▸ full
  | change hp hn => exact absurd o.rate hn
  | take hp hq hr hg ht =>
    subst hg
    rcases ht with rfl | ⟨st, _, _, rfl⟩ <;> exact full
  | @roll d hp hq hm =>
    rw [hp] at place
    obtain ⟨_, f, filling⟩ := place
    intro f' hf'
    change f' ∈ m.gVidenc.files ++ m.gVidenc.file.toList at hf'
    rw [filling.file] at hf'
    rcases List.mem_append.mp hf' with hf' | hf'
    · exact full f' hf'
    · obtain rfl := List.mem_singleton.mp hf'
      rw [s.vidsmax, filling.fpsOld, filling.count] at hm
      exact hm.trans (Nat.mod_le _ _)
  | _ => exact full

/-- The first file, closed after its first sample. -/
def oneSample (n : Nat) : Muxer :=
  ((((muxerInit n).muxerVidenc.step (.task (.record 0 1 .h264I))).muxerVidenc).muxerVidenc).muxerVidenc

theorem process_on {m : Muxer} (r : Reach (muxer F) KeepsOn m) : Reach (muxer F) KeepsOn m.muxerVidenc := by
  have ok : KeepsOn m (.task .process) := trivial
  exact r.step ok ⟨nofun, rfl⟩

theorem init_on (n : Nat) : Reach (muxer {n}) KeepsOn (muxerInit n) :=
  .init ⟨n, rfl, rfl⟩

theorem oneSample_reach (n : Nat) : Reach (muxer {n}) KeepsOn (oneSample n) := by
  have ok : KeepsOn (muxerInit n).muxerVidenc (.task (.record 0 1 .h264I)) := trivial
  exact process_on (process_on (process_on ((process_on (init_on n)).step ok ⟨nofun, rfl⟩)))

theorem oneSample_files (hn : n ≠ 30) : (oneSample n).gVidenc.files = [[⟨0, 1, 1, .h264I⟩]] := by
  unfold oneSample
  rw [write_change rfl rfl rfl hn]
  rfl

end Muxer

open Muxer

/-- At a constant frame rate of `n` a file is closed no earlier than its 30 seconds, and its
header has that rate, exactly at 30 frames a second. -/
theorem frame_rate (n : Nat) :
    ((∀ m, Reach (muxer {n}) KeepsOn m → ∀ f ∈ m.gVidenc.files, saveNorTimeMax * n ≤ f.length) ↔
      n = 0 ∨ n = 30) ∧
    ((∀ m, Reach (muxer {n}) KeepsOn m → ∀ f, m.gVidenc.file = some f → m.fFps = n) ↔ n = 30) := by
  refine ⟨⟨fun h => ?_, ?_⟩, fun h => ?_, ?_⟩
  · by_contra hn
    obtain ⟨zero, thirty⟩ := not_or.mp hn
    have short := h _ (oneSample_reach n) [⟨0, 1, 1, .h264I⟩] (by rw [oneSample_files thirty]; simp)
    simp only [saveNorTimeMax, List.length_singleton] at short
    omega
  · rintro (rfl | rfl) m r
    · simp
    · exact (on_inductive (fun m => ∀ f ∈ m.gVidenc.files, saveNorTimeMax * 30 ≤ f.length)
        nofun Turn.closes (fun _ files _ h => files.symm ▸ h) r).2
  · have opened := h _ (process_on (init_on n)) [] rfl
    exact opened.symm
  · rintro rfl m r
    exact (on_inductive (fun _ => True) trivial (fun _ _ _ _ => trivial) (fun _ _ _ _ => trivial) r).1.header

theorem frame_rate_fifteen :
    ∃ m f, Reach (muxer {15}) KeepsOn m ∧ f ∈ m.gVidenc.files ∧ f.length < saveNorTimeMax * 15 ∧
      m.fFps = 30 :=
  ⟨oneSample 15, [⟨0, 1, 1, .h264I⟩], oneSample_reach 15, by decide, by decide, by decide⟩

end En675.Videnc
