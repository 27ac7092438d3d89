import En675.Videnc.Tables

/-! The sample tables of a file are allocated for 30 seconds at 30 frames a second, and a
file is closed at the first I frame after these: the samples fit where the two agree. -/

namespace En675.Videnc

open Lib Recorder

/-- The encoder sends an I frame every `g` frames, and no frame finds the queue full. -/
def Gop (g k : Nat) (m : Muxer) : MuxerEvent → Prop
  | .task (.record _ size type) =>
    size ≠ 0 → recordFlags type ≠ none →
      m.gVidenc.pvid.sbuf.isFull = false ∧ (type.isIframe = true ↔ (m.gVidenc.arrived.length + k) % g = 0)
  | _ => True

namespace Stbl

variable {t : Stbl}

theorem initSavetime_spec (savetime videoFps : Nat) :
    t.size ≤ (t.videncInfoInitSavetime savetime videoFps).size ∧
      (t.videncInfoInitSavetime savetime videoFps).overrun = t.overrun := by
  simp only [videncInfoInitSavetime]
  split
  · rename_i h
    exact ⟨h.le, rfl⟩
  · exact ⟨le_rfl, rfl⟩

theorem changeSavetime_spec (r : Recorder) (start : Bool) :
    t.size ≤ (t.muxerVidencChangeSavetime r start).size ∧
      (t.muxerVidencChangeSavetime r start).overrun = t.overrun := by
  simp only [muxerVidencChangeSavetime]
  split
  · exact initSavetime_spec _ _
  · exact ⟨le_rfl, rfl⟩

/-- The three lengths after `n` samples. -/
structure Holds (t : Stbl) (n : Nat) : Prop where
  stss : t.stssLen ≤ n
  stsz : t.stszLen = n
  stco : t.stcoLen = n

theorem storeSample_spec (h : t.Holds n) (hn : n < 2 ^ 32 - 1) (fl : Nat) :
    (t.storeSample fl).Holds (n + 1) ∧ (t.storeSample fl).size = t.size ∧
      (n < t.size → (t.storeSample fl).overrun = t.overrun) := by
  obtain ⟨stss, stsz, stco⟩ := h
  have up : uadd n 1 = n + 1 := uadd_of_lt (by omega)
  have up' : uadd t.stssLen 1 = t.stssLen + 1 := uadd_of_lt (by omega)
  unfold storeSample
  split
  · refine ⟨⟨?_, ?_, ?_⟩, rfl, fun lt => ?_⟩
    · simpa [storeStss, storeStsz, storeStco, up'] using stss
    · simp [storeStss, storeStsz, storeStco, stsz, up]
    · simp [storeStss, storeStsz, storeStco, stco, up]
    · have lt' : ¬ t.size ≤ t.stssLen := by omega
      simp [storeStss, storeStsz, storeStco, stsz, stco, lt, lt']
  · refine ⟨⟨?_, ?_, ?_⟩, rfl, fun lt => ?_⟩
    · exact stss.trans (Nat.le_succ n)
    · simp [storeStsz, storeStco, stsz, up]
    · simp [storeStsz, storeStco, stco, up]
    · simp [storeStsz, storeStco, stsz, stco, lt]

theorem storeSample_overrun (h : t.size ≤ t.stszLen) (fl : Nat) : (t.storeSample fl).overrun = true := by
  unfold storeSample
  split <;> simp [storeStss, storeStsz, storeStco, h]

end Stbl

namespace Muxer

/-- Where the open file goes on. -/
def Live (r : Recorder) : Prop := r.pc ≠ .wait ∨ r.pvid.state = .first ∨ r.pvid.state = .write

/-- The file holds `f`, which the frames still to be taken continue. -/
structure Kept (m : Muxer) (f : List SbufData) : Prop where
  file : m.gVidenc.file = some f
  le : f.length ≤ 900
  lens : m.vstbl.Holds f.length
  tail : f ++ (m.gVidenc.inflight ++ m.gVidenc.pvid.sbuf.toList) <:+ m.gVidenc.arrived

structure Bounded (F : Set Nat) (g k : Nat) (m : Muxer) : Prop where
  grid : ∀ i d, m.gVidenc.arrived[i]? = some d → (isKey d = true ↔ (i + k) % g = 0)
  tail : m.gVidenc.inflight ++ m.gVidenc.pvid.sbuf.toList <:+ m.gVidenc.arrived
  size : 900 ≤ m.vstbl.size
  clean : m.vstbl.overrun = false
  rate : m.gVidenc.nFps ∈ F
  kept : Live m.gVidenc → ∃ f, m.Kept f
  /-- At another rate than 30 no file outlives its first sample. -/
  past : m.gVidenc.pc = .peek ∨ m.gVidenc.pc = .get ∨ m.gVidenc.pc = .wait ∧ m.gVidenc.pvid.state = .write →
    30 ∈ F
  next : m.gVidenc.pc = .get → ∃ d rest, m.gVidenc.pvid.sbuf.toList = d :: rest ∧ ¬ m.gVidenc.Full d

/-- Where `g` divides the length of a file, the frame due when a file is full is an I frame. -/
theorem Bounded.room {m : Muxer} {f rest : List SbufData} (b : m.Bounded F g k) (s : Sound m.gVidenc)
    (hg : g ∣ 900) (hf : m.Kept f) (filling : m.gVidenc.Filling f) (hi : m.gVidenc.inflight = [])
    (hq : m.gVidenc.pvid.sbuf.toList = d :: rest)
    (hn : ¬ m.gVidenc.Full d) :
    f.length < 900 := by
  by_contra full
  have len : f.length = 900 := Nat.le_antisymm hf.le (Nat.le_of_not_lt full)
  obtain ⟨pre, split⟩ := hf.tail
  obtain ⟨e, es, rfl, key⟩ := filling.key
  rw [hi, hq] at split
  have first : m.gVidenc.arrived[pre.length]? = some e := by
    rw [← split]
    simp
  have due : m.gVidenc.arrived[pre.length + 900]? = some d := by
    rw [← split, ← len]
    simp
  refine hn ⟨(b.grid _ _ due).mpr ?_, ?_⟩
  · have start := (b.grid _ _ first).mp key
    obtain ⟨c, hc⟩ := hg
    rw [show pre.length + 900 + k = pre.length + k + g * c by omega, Nat.add_mul_mod_self_left]
    exact start
  · rw [s.vidsmax, filling.fpsOld, filling.count, len]
    decide

/-- What every step but an arrival leaves as it is. -/
structure Frame (F : Set Nat) (m t : Muxer) : Prop where
  arrived : t.gVidenc.arrived = m.gVidenc.arrived
  rate : m.gVidenc.nFps ∈ F → t.gVidenc.nFps ∈ F
  tail : t.gVidenc.inflight ++ t.gVidenc.pvid.sbuf.toList <:+
    m.gVidenc.inflight ++ m.gVidenc.pvid.sbuf.toList
  size : m.vstbl.size ≤ t.vstbl.size
  clean : t.vstbl.overrun = m.vstbl.overrun

theorem Bounded.goes {m t : Muxer} (b : m.Bounded F g k) (h : Frame F m t)
    (kept : Live t.gVidenc → ∃ f, t.Kept f)
    (past : t.gVidenc.pc = .peek ∨ t.gVidenc.pc = .get ∨
      t.gVidenc.pc = .wait ∧ t.gVidenc.pvid.state = .write → 30 ∈ F)
    (next : t.gVidenc.pc = .get → ∃ d rest, t.gVidenc.pvid.sbuf.toList = d :: rest ∧ ¬ t.gVidenc.Full d) :
    t.Bounded F g k where
  grid := h.arrived ▸ b.grid
  tail := h.arrived ▸ h.tail.trans b.tail
  size := b.size.trans h.size
  clean := h.clean.trans b.clean
  rate := h.rate b.rate
  kept := kept
  past := past
  next := next

theorem Bounded.ended {m t : Muxer} (b : m.Bounded F g k) (h : Frame F m t)
    (hp : t.gVidenc.pc = .wait) (hs : Ended t.gVidenc.pvid.state) : t.Bounded F g k := by
  refine b.goes h (fun live => ?_) (fun past => ?_) (fun hn => ?_)
  · rcases hs with hs | hs | hs <;> simp [Live, hp, hs] at live
  · rcases hs with hs | hs | hs <;> simp [hp, hs] at past
  · rw [hp] at hn
    cases hn

theorem Kept.same {m t : Muxer} (h : m.Kept f) (frame : Frame F m t) (hf : t.gVidenc.file = m.gVidenc.file)
    (hv : t.vstbl = m.vstbl)
    (tail : t.gVidenc.inflight ++ t.gVidenc.pvid.sbuf.toList =
      m.gVidenc.inflight ++ m.gVidenc.pvid.sbuf.toList) : t.Kept f :=
  ⟨hf.trans h.file, h.le, hv ▸ h.lens, by rw [tail, frame.arrived]; exact h.tail⟩

theorem inflight_of_ne {r : Recorder} (h : r.pc ≠ .next) : r.inflight = [] := if_neg h

theorem live_of_pc {r : Recorder} (h : r.pc ≠ .wait) : Live r := .inl h

/-- A turn that only moves on to another place. -/
theorem Bounded.moves {m : Muxer} {pc : Pc} (b : m.Bounded F g k) (hp : m.gVidenc.pc ≠ .next)
    (hn : pc ≠ .next) (hl : pc ≠ .wait → Live m.gVidenc)
    (hw : pc = .wait → m.gVidenc.pc ≠ .wait)
    (past : pc = .peek ∨ pc = .wait ∧ m.gVidenc.pvid.state = .write → 30 ∈ F)
    (hg : pc ≠ .get) : (m.goto pc).Bounded F g k := by
  have same : (m.goto pc).gVidenc.inflight = m.gVidenc.inflight := by
    rw [inflight_of_ne hp, inflight_of_ne hn]
  have frame : Frame F m (m.goto pc) := ⟨rfl, id, by rw [same]; exact List.suffix_rfl, le_rfl, rfl⟩
  refine b.goes frame (fun live => ?_) (fun h => past ?_) (fun h => absurd h hg)
  · have before : Live m.gVidenc := by
      by_cases hpc : pc = .wait
      · exact .inl (hw hpc)
      · exact hl hpc
    obtain ⟨f, kept⟩ := b.kept before
    exact ⟨f, kept.same frame rfl rfl (by rw [same]; rfl)⟩
  · exact h.imp id (fun h => h.resolve_left (fun e => hg e))

theorem Turn.bounded {m t : Muxer} (s : Sound m.gVidenc) (h : Turn m t) (b : m.Bounded F g k)
    (hg : 30 ∉ F ∨ g ∣ 900) : t.Bounded F g k := by
  have place := s.place
  cases h with
  | rest hp => exact b
  | stop hp hs =>
    refine b.ended ⟨rfl, id, ?_, le_rfl, rfl⟩ hp (.inl rfl)
    simp [inflight, muxerVidencClose, hp]
  | begin hp hs =>
    have blank := muxerVidencIdle_blank s.modeNow
    obtain ⟨arrived, sbuf, nFps, _⟩ := muxerVidencIdle_fields m.gVidenc
    have none : m.gVidenc.inflight = [] := inflight_of_ne (by simp [hp])
    have spec := m.vstbl.changeSavetime_spec (m.gVidenc.setState .open_) true
    have tail := b.tail
    rw [none, List.nil_append] at tail
    refine b.goes ⟨arrived, fun h => nFps ▸ h, ?_, spec.1, spec.2⟩ (fun _ => ⟨[], blank.file, by simp, ⟨le_rfl, rfl, rfl⟩, ?_⟩)
      (fun h => ?_) (by rintro ⟨⟩)
    · rw [none]
      exact sbuf ▸ List.suffix_rfl
    · exact arrived ▸ sbuf ▸ tail
    · rcases h with h | h | h <;> cases h
      contradiction
  | resume hp hs =>
    exact b.moves (by simp [hp]) (by rintro ⟨⟩) (fun _ => .inr (.inl hs)) (by rintro ⟨⟩) (by simp) (by rintro ⟨⟩)
  | reenter hp hs =>
    exact b.moves (by simp [hp]) (by rintro ⟨⟩) (fun _ => .inr (.inr hs)) (by rintro ⟨⟩) (by simp) (by rintro ⟨⟩)
  | drained hp hq =>
    have past : m.gVidenc.pvid.state = .write → 30 ∈ F := by
      intro hs
      rcases hp with hp | hp | hp
      · rw [hp] at place
        rcases place.1 with h | h | h | h <;> simp [hs] at h
      · exact b.past (.inl hp)
      · exact b.past (.inr (.inl hp))
    refine b.moves ?_ (by rintro ⟨⟩) (fun h => absurd rfl h) (fun _ => ?_) ?_ (by rintro ⟨⟩)
    · rcases hp with hp | hp | hp <;> simp [hp]
    · rcases hp with hp | hp | hp <;> simp [hp]
    · rintro (h | h)
      · cases h
      · exact past h.2
  | @drop d hp hq =>
    rw [hp] at place
    have none : m.gVidenc.inflight = [] := inflight_of_ne (by simp [hp])
    have shorter : m.gVidenc.pvid.sbuf.pop.toList <:+ m.gVidenc.pvid.sbuf.toList := ⟨[d], hq.symm⟩
    obtain ⟨f, kept⟩ := b.kept (live_of_pc (by simp [hp]))
    obtain rfl : [] = f := Option.some.inj (place.2.file.symm.trans kept.file)
    have tail := b.tail
    rw [none] at tail
    refine b.goes ⟨rfl, id, none ▸ shorter, le_rfl, rfl⟩
      (fun _ => ⟨[], kept.file, kept.le, kept.lens, shorter.trans tail⟩) (fun h => ?_) (by rintro ⟨⟩)
    rcases h with h | h | ⟨_, h⟩
    · cases h
    · cases h
    · rcases place.1 with hs | hs | hs | hs <;> cases hs.symm.trans h
  | @key d hp hq hf hr =>
    rw [hp] at place
    have none : m.gVidenc.inflight = [] := inflight_of_ne (by simp [hp])
    have same : [d] ++ m.gVidenc.pvid.sbuf.pop.toList = m.gVidenc.pvid.sbuf.toList := hq.symm
    obtain ⟨f, kept⟩ := b.kept (live_of_pc (by simp [hp]))
    have frame : Frame F m { m with
        gVidenc := (((m.gVidenc.taken d m.gVidenc.pvid.sbuf.pop).setState .firstNext).hold).goto .next } :=
      ⟨rfl, id, by rw [none]; exact same ▸ List.suffix_rfl, le_rfl, rfl⟩
    refine b.goes frame (fun _ => ⟨f, kept.same frame rfl rfl ?_⟩) (fun h => ?_) (by rintro ⟨⟩)
    · rw [none]
      exact same
    · rcases h with h | h | h <;> cases h
      contradiction
  | first hp =>
    rw [hp] at place
    have held : m.gVidenc.inflight = [m.gVidenc.pvid.datablock.data] := if_pos hp
    obtain ⟨f, kept⟩ := b.kept (live_of_pc (by simp [hp]))
    obtain rfl : [] = f := Option.some.inj (place.1.file.symm.trans kept.file)
    obtain ⟨lens, size, clean⟩ := Stbl.storeSample_spec kept.lens (by simp) 1
    have room : 0 < m.vstbl.size := lt_of_lt_of_le (by decide) b.size
    have tail := kept.tail
    rw [held] at tail
    refine b.goes ⟨rfl, id, ?_, size.ge, clean room⟩ (fun _ => ⟨[_], ?_, by simp, lens, tail⟩)
      (fun h => ?_) (by rintro ⟨⟩)
    · rw [held]
      exact List.suffix_cons _ _
    · simp [Recorder.goto, Recorder.setState, Recorder.appended, kept.file]
    · rcases h with h | h | h <;> cases h
      contradiction
  | change hp hn =>
    have none : m.gVidenc.inflight = [] := inflight_of_ne (by simp [hp])
    have spec := m.vstbl.initSavetime_spec saveNorTimeMax m.gVidenc.nFps
    exact b.ended ⟨rfl, id, none ▸ List.suffix_rfl, spec.1, spec.2⟩ rfl (.inl rfl)
  | leave hp hc hs =>
    have none : m.gVidenc.inflight = [] := inflight_of_ne (by simp [hp])
    exact b.ended ⟨rfl, id, none ▸ List.suffix_rfl, le_rfl, rfl⟩ rfl hs
  | loop hp hn =>
    exact b.moves (by simp [hp]) (by rintro ⟨⟩) (fun _ => live_of_pc (by simp [hp])) (by rintro ⟨⟩)
      (fun _ => hn ▸ b.rate) (by rintro ⟨⟩)
  | roll hp hq hm =>
    have none : m.gVidenc.inflight = [] := inflight_of_ne (by simp [hp])
    exact b.ended ⟨rfl, id, none ▸ List.suffix_rfl, le_rfl, rfl⟩ rfl (.inl rfl)
  | @look d hp hq hk =>
    have none : m.gVidenc.inflight = [] := inflight_of_ne (by simp [hp])
    obtain ⟨f, kept⟩ := b.kept (live_of_pc (by simp [hp]))
    have frame : Frame F m { m with gVidenc := (m.gVidenc.loaded d).goto .get } :=
      ⟨rfl, id, none ▸ List.suffix_rfl, le_rfl, rfl⟩
    refine b.goes frame (fun _ => ⟨f, kept.same frame rfl rfl ?_⟩) (fun _ => b.past (.inl hp))
      (fun _ => ⟨d, _, hq, hk⟩)
    rw [none]
    rfl
  | @take d g' t hp hq hr hg' ht =>
    rw [hp] at place
    subst hg'
    have none : m.gVidenc.inflight = [] := inflight_of_ne (by simp [hp])
    have thirty : 30 ∈ F := b.past (.inr (.inl hp))
    obtain ⟨f, kept⟩ := b.kept (live_of_pc (by simp [hp]))
    obtain ⟨_, f', filling⟩ := place
    obtain rfl : f' = f := Option.some.inj (filling.file.symm.trans kept.file)
    obtain ⟨d', rest, hd', hk⟩ := b.next hp
    obtain rfl : d = d' := (List.cons.inj (hq.symm.trans hd')).1
    have lt := b.room s (hg.resolve_left (fun h => h thirty)) kept filling none hd' hk
    obtain ⟨lens, size, clean⟩ := Stbl.storeSample_spec kept.lens (by omega) d.flags
    have room : f'.length < m.vstbl.size := lt.trans_le b.size
    have shorter : m.gVidenc.pvid.sbuf.pop.toList <:+ m.gVidenc.pvid.sbuf.toList := ⟨[d], hq.symm⟩
    have tail := kept.tail
    rw [none, hq] at tail
    rcases ht with rfl | ⟨st, hst, _, rfl⟩
    · refine b.goes ⟨rfl, id, none ▸ shorter, size.ge, clean room⟩
        (fun _ => ⟨f' ++ [d], ?_, ?_, by simpa using lens, ?_⟩) (fun _ => thirty) (by rintro ⟨⟩)
      · change m.gVidenc.file.map (· ++ [d]) = some (f' ++ [d])
        rw [kept.file]
        rfl
      · rw [List.length_append]
        exact lt
      · rw [List.append_assoc]
        exact tail
    · exact b.ended ⟨rfl, id, none ▸ shorter, size.ge, clean room⟩ rfl hst

def received (m : Muxer) (d : SbufData) : Muxer :=
  { m with gVidenc :=
    { m.gVidenc with
      pvid := { m.gVidenc.pvid with sbuf := m.gVidenc.pvid.sbuf.push d }
      arrived := m.gVidenc.arrived ++ [d] } }

theorem record_gop {m : Muxer} {addr size : Nat} {type : StreamMsg}
    (ok : Gop g k m (.task (.record addr size type))) :
    m.step (.task (.record addr size type)) = m ∨ ∃ d, recordFlags d.type = some d.flags ∧
      m.step (.task (.record addr size type)) = m.received d ∧ m.gVidenc.pvid.sbuf.isFull = false ∧
      (isKey d = true ↔ (m.gVidenc.arrived.length + k) % g = 0) := by
  cases hr : recordFlags type with
  | none =>
    left
    simp [step, Recorder.step, isrRecorddata, hr]
  | some flags =>
    by_cases hs : size = 0
    · left
      simp [step, Recorder.step, isrRecorddata, hr, muxerVidencBuffering, hs]
    · right
      obtain ⟨room, key⟩ := ok hs (by simp [hr])
      refine ⟨⟨addr, size, flags, type⟩, hr, ?_, room, key⟩
      simp [step, Recorder.step, isrRecorddata, hr, muxerVidencBuffering, hs, sbufPut_of_room room, received]

theorem Bounded.received {m : Muxer} (b : m.Bounded F g k) (s : Sound m.gVidenc)
    (room : m.gVidenc.pvid.sbuf.isFull = false)
    (key : isKey d = true ↔ (m.gVidenc.arrived.length + k) % g = 0) : (m.received d).Bounded F g k := by
  have queue : (m.received d).gVidenc.pvid.sbuf.toList = m.gVidenc.pvid.sbuf.toList ++ [d] :=
    RingQueue.toList_push s.queue.wf room d
  have inflight : (m.received d).gVidenc.inflight = m.gVidenc.inflight := rfl
  refine ⟨fun i e hd => ?_, ?_, b.size, b.clean, b.rate, fun live => ?_, b.past, fun hp => ?_⟩
  · simp only [Muxer.received] at hd
    rcases Nat.lt_or_ge i m.gVidenc.arrived.length with hi | hi
    · rw [List.getElem?_append_left hi] at hd
      exact b.grid i e hd
    · rw [List.getElem?_append_right hi, List.getElem?_singleton] at hd
      split at hd
      · cases hd
        rw [show i = m.gVidenc.arrived.length by omega]
        exact key
      · cases hd
  · rw [inflight, queue, ← List.append_assoc]
    exact List.suffix_append_self_iff.mpr b.tail
  · obtain ⟨f, kept⟩ := b.kept live
    refine ⟨f, kept.file, kept.le, kept.lens, ?_⟩
    rw [inflight, queue, ← List.append_assoc, ← List.append_assoc, List.append_assoc f]
    exact List.suffix_append_self_iff.mpr kept.tail
  · obtain ⟨e, rest, hq, hk⟩ := b.next hp
    exact ⟨e, rest ++ [d], by rw [queue, hq]; rfl, hk⟩

theorem Bounded.setState {m t : Muxer} (b : m.Bounded F g k) (h : Ended st)
    (hr : t.gVidenc = m.gVidenc.setState st) (hv : t.vstbl = m.vstbl) : t.Bounded F g k := by
  have frame : Frame F m t :=
    ⟨hr ▸ rfl, fun h => hr ▸ h, hr ▸ List.suffix_rfl, hv ▸ le_rfl, hv ▸ rfl⟩
  have state : t.gVidenc.pvid.state = st := hr ▸ rfl
  have pc : t.gVidenc.pc = m.gVidenc.pc := hr ▸ rfl
  refine b.goes frame (fun live => ?_) (fun past => b.past ?_) (fun hp => ?_)
  · have inside : Live m.gVidenc := .inl (fun hp => by
      rcases live with hw | hw | hw
      · exact hw (pc.trans hp)
      all_goals rcases h with rfl | rfl | rfl <;> cases state.symm.trans hw)
    exact (b.kept inside).imp fun _ kept => kept.same frame (hr ▸ rfl) hv (hr ▸ rfl)
  · rw [pc, state] at past
    exact past.imp id (Or.imp id (fun hw => absurd hw.2 (by rcases h with rfl | rfl | rfl <;> nofun)))
  · rw [hr]
    exact b.next (pc ▸ hp)

theorem Bounded.sdcard {m : Muxer} (b : m.Bounded F g k) (s : Sound m.gVidenc) :
    m.sdcardTask.Bounded F g k := by
  unfold sdcardTask
  split <;> split
  · exact b
  · exact b.setState (.inr (.inr rfl)) rfl rfl
  · by_cases hf : (30 : Nat) = m.gVidenc.nVidencFpsOld
    · refine b.setState (.inl rfl) ?_ ?_
      · simp [muxerVidencInit, muxerVidencChangeSavetime, Recorder.setState, ← hf]
      · simp [muxerVidencInit, Stbl.muxerVidencChangeSavetime, fpsval, ← hf]
    · have hp := s.pc_wait (fun h => hf h.symm)
      have init : (m.gVidenc.setState .idle).muxerVidencChangeSavetime true =
          ({ m.gVidenc.setState .idle with nVidencFpsOld := 30 }).videncInfoInitSavetime saveNorTimeMax 30 := by
        simp [muxerVidencChangeSavetime, Recorder.setState, hf]
      have spec := m.vstbl.changeSavetime_spec m.gVidenc true
      refine b.ended ⟨?_, ?_, ?_, spec.1, spec.2⟩ ?_ ?_ <;> simp only [muxerVidencInit, init]
      · rfl
      · exact id
      · exact List.suffix_rfl
      · exact hp
      · exact .inl rfl
  · exact b

theorem bounded (hg : 30 ∉ F ∨ g ∣ 900) (r : Reach (muxer F) (Gop g k) m) : m.Bounded F g k := by
  refine Lts.Inductive.reach_of (J := fun m => Sound m.gVidenc) ?_ ?_ ?_ r
  · exact ⟨muxer_sound.init, fun s _ st => muxer_sound.step s trivial st⟩
  · rintro m ⟨n, hn, rfl⟩
    refine ⟨fun i d hd => ?_, List.nil_suffix, le_rfl, rfl, hn, fun live => ?_, fun past => ?_, nofun⟩
    · simp [muxerInit, recorderInit] at hd
    · rcases live with h | h | h
      · exact absurd rfl h
      · cases h
      · cases h
    · rcases past with h | h | ⟨_, h⟩ <;> cases h
  · rintro m e t s b ok ⟨rate, rfl⟩
    cases e with
    | sdcard => exact b.sdcard s
    | task e =>
      cases e with
      | process => exact (m.turn s).bounded s b hg
      | record addr size type =>
        rcases record_gop ok with h | ⟨d, _, h, room, key⟩ <;> rw [h]
        · exact b
        · exact b.received s room key
      | save on =>
        have frame : Frame F m (m.step (.task (.save on))) := ⟨rfl, id, List.suffix_rfl, le_rfl, rfl⟩
        exact b.goes frame (fun h => (b.kept h).imp fun _ kept => kept.same frame rfl rfl rfl) b.past b.next
      | fps n =>
        have frame : Frame F m (m.step (.task (.fps n))) :=
          ⟨rfl, fun _ => rate n rfl, List.suffix_rfl, le_rfl, rfl⟩
        exact b.goes frame (fun h => (b.kept h).imp fun _ kept => kept.same frame rfl rfl rfl) b.past b.next

/-- Between two frames of a recording at 30 frames a second, `n` of them stored. -/
structure Poised (m : Muxer) (n : Nat) : Prop where
  pc : m.gVidenc.pc = .peek
  state : m.gVidenc.pvid.state = .write
  save : m.gVidenc.bSdVidSave = true
  queue : m.gVidenc.pvid.sbuf.toList = []
  count : ∃ f, m.gVidenc.Filling f ∧ f.length = n
  arrived : m.gVidenc.arrived.length = n
  size : m.vstbl.size = 900
  lens : m.vstbl.Holds n

/-- The `n`th frame of an encoder with I frames every `g`. -/
def gopFrame (g n : Nat) : StreamMsg := if n % g = 0 then .h264I else .h264P

def gopData (g n : Nat) : SbufData := ⟨0, 1, if n % g = 0 then 1 else 0, gopFrame g n⟩

theorem gopData_spec (g n : Nat) : recordFlags (gopData g n).type = some (gopData g n).flags ∧
    (isKey (gopData g n) = true ↔ n % g = 0) := by
  unfold gopData gopFrame isKey
  split <;> simp_all [recordFlags, StreamMsg.isIframe]

theorem step_gopFrame {m : Muxer} (room : m.gVidenc.pvid.sbuf.isFull = false) (g n : Nat) :
    m.step (.task (.record 0 1 (gopFrame g n))) = m.received (gopData g n) := by
  have hr := (gopData_spec g n).1
  simp only [gopData] at hr
  simp [step, Recorder.step, isrRecorddata, hr, muxerVidencBuffering, sbufPut_of_room room, received, gopData]

theorem gop_ok {m : Muxer} (room : m.gVidenc.pvid.sbuf.isFull = false) (hn : m.gVidenc.arrived.length = n) :
    Gop g 0 m (.task (.record 0 1 (gopFrame g n))) :=
  fun _ _ => ⟨room, by rw [hn]; exact (gopData_spec g n).2⟩

theorem room_of_nil {q : Sbuf} (h : q.Wf) (hn : 1 < q.totNum) (hq : q.toList = []) : q.isFull = false := by
  refine Bool.eq_false_iff.mpr (fun hf => ?_)
  rw [RingQueue.isFull_iff h, ← RingQueue.length_toList, hq, List.length_nil] at hf
  omega

theorem process_gop (m : Muxer) : Steps (muxer F) (Gop g k) m m.muxerVidenc := by
  have ok : Gop g k m (.task .process) := trivial
  exact .single ok ⟨nofun, rfl⟩

theorem Poised.feed {m : Muxer} (p : m.Poised n) (s : Sound m.gVidenc)
    (hn : n < 900 ∨ n = 900 ∧ ¬ g ∣ 900) :
    ∃ t, Steps (muxer F) (Gop g 0) m t ∧ t.Poised (n + 1) ∧ (n = 900 → t.vstbl.overrun = true) := by
  obtain ⟨f, filling, len⟩ := p.count
  have room := room_of_nil s.queue.wf s.cells p.queue
  have s₁ : Sound (m.received (gopData g n)).gVidenc := by
    have := muxer_sound (F := F).step (l := .task (.record 0 1 (gopFrame g n))) s trivial ⟨nofun, rfl⟩
    rwa [step_gopFrame room] at this
  have queue : (m.received (gopData g n)).gVidenc.pvid.sbuf.toList = [gopData g n] := by
    refine (RingQueue.toList_push s.queue.wf room _).trans ?_
    rw [p.queue]
    rfl
  obtain ⟨hkey, _⟩ := gopData_spec g n
  rcases sbuf_cases s₁.queue.wf with ⟨hq, _⟩ | ⟨d, hq, hget, hpeek⟩
  · rw [queue] at hq
    cases hq
  obtain ⟨rfl, rest⟩ := List.cons.inj (queue.symm.trans hq)
  have open_ : ¬ (m.received (gopData g n)).gVidenc.Full (gopData g n) := by
    rintro ⟨key, full⟩
    have full : 900 ≤ n := by
      have vidsmax := s.vidsmax
      rw [filling.fpsOld] at vidsmax
      have count := filling.count
      rw [len] at count
      simp only [received, vidsmax, count, saveNorTimeMax] at full
      omega
    rcases hn with hn | ⟨rfl, hn⟩
    · omega
    · exact hn (Nat.dvd_of_mod_eq_zero ((gopData_spec g 900).2.mp key))
  have look := peek_look (m := m.received (gopData g n)) p.pc hpeek open_
  have take := get_take (m := { m.received (gopData g n) with
      gVidenc := ((m.received (gopData g n)).gVidenc.loaded (gopData g n)).goto .get }) rfl hget hkey
  have arrives : Steps (muxer F) (Gop g 0) m (m.received (gopData g n)) :=
    .single (l := .task (.record 0 1 (gopFrame g n))) (gop_ok room p.arrived)
      ⟨nofun, (step_gopFrame room g n).symm⟩
  have looks := process_gop (F := F) (g := g) (k := 0) (m.received (gopData g n))
  rw [look] at looks
  have takes := process_gop (F := F) (g := g) (k := 0) { m.received (gopData g n) with
      gVidenc := ((m.received (gopData g n)).gVidenc.loaded (gopData g n)).goto .get }
  rw [take] at takes
  refine ⟨_, arrives.trans (looks.trans takes), ?_⟩
  rw [goOn_writing (by exact p.state) (by exact p.save)]
  obtain ⟨lens, size, _⟩ := Stbl.storeSample_spec p.lens (by omega) (gopData g n).flags
  have held : (((((m.received (gopData g n)).gVidenc.loaded (gopData g n)).goto .get).taken
      (gopData g n) (m.received (gopData g n)).gVidenc.pvid.sbuf.pop).hold).Filling f :=
    filling.same ⟨rfl, rfl, rfl, rfl⟩
  have next := held.appended hkey
  refine ⟨⟨rfl, p.state, p.save, rest.symm, ⟨_, next.same ⟨rfl, rfl, rfl, rfl⟩, ?_⟩, ?_, size.trans p.size, lens⟩,
    fun full => Stbl.storeSample_overrun ?_ _⟩
  · simp [len]
  · rw [← p.arrived]
    exact List.length_append
  · change m.vstbl.size ≤ m.vstbl.stszLen
    rw [p.size, p.lens.stsz, full]

/-- The first sample of the first file. -/
def firstSample : Muxer :=
  ((((muxerInit 30).muxerVidenc.received (gopData 1 0)).muxerVidenc).muxerVidenc).muxerVidenc

theorem firstSample_reach (h : 30 ∈ F) : Reach (muxer F) (Gop g 0) firstSample := by
  have started : (muxer F).init (muxerInit 30) := ⟨30, h, rfl⟩
  have opened : Reach (muxer F) (Gop g 0) (muxerInit 30).muxerVidenc :=
    (Reach.init started).steps (process_gop _)
  have key : Gop g 0 (muxerInit 30).muxerVidenc (.task (.record 0 1 (gopFrame g 0))) :=
    gop_ok (by decide) rfl
  have same : gopData g 0 = gopData 1 0 := by simp [gopData, gopFrame]
  have arrived := opened.step key ⟨nofun, (step_gopFrame (by decide) g 0).symm⟩
  rw [same] at arrived
  exact ((arrived.steps (process_gop _)).steps (process_gop _)).steps (process_gop _)

theorem firstSample_poised : firstSample.Poised 1 where
  pc := rfl
  state := rfl
  save := rfl
  queue := rfl
  count := ⟨[gopData 1 0], ⟨rfl, rfl, rfl, _, [], rfl, by decide⟩, rfl⟩
  arrived := rfl
  size := rfl
  lens := ⟨by decide, rfl, rfl⟩

theorem poised_reach (h : 30 ∈ F) (hn : 1 ≤ n) (le : n ≤ 900) :
    ∃ m, Reach (muxer F) (Gop g 0) m ∧ m.Poised n := by
  induction n, hn using Nat.le_induction with
  | base => exact ⟨firstSample, firstSample_reach h, firstSample_poised⟩
  | succ n hn ih =>
    obtain ⟨m, hm, p⟩ := ih (by omega)
    have s := muxer_sound.reach (hm.mono fun _ _ _ => trivial)
    obtain ⟨t, ht, q, _⟩ := p.feed (F := F) (g := g) s (.inl (by omega))
    exact ⟨t, hm.steps ht, q⟩

/-- A file that is full before its next I frame is due gets one sample too many. -/
theorem overruns (h : 30 ∈ F) (hg : ¬ g ∣ 900) :
    ∃ m, Reach (muxer F) (Gop g 0) m ∧ m.vstbl.overrun = true := by
  obtain ⟨m, hm, p⟩ := poised_reach (g := g) h (n := 900) (by decide) le_rfl
  have s := muxer_sound.reach (hm.mono fun _ _ _ => trivial)
  obtain ⟨t, ht, _, overrun⟩ := p.feed (F := F) (g := g) s (.inr ⟨rfl, hg⟩)
  exact ⟨t, hm.steps ht, overrun rfl⟩

end Muxer

open Muxer

/-- At GOP length `g` the samples of a file fit its tables exactly when 30 frames a second
is not configured or `g` divides the frames of a file. -/
theorem sample_tables (F : Set Nat) (g : Nat) :
    (∀ k m, Reach (muxer F) (Gop g k) m → m.vstbl.overrun = false) ↔
      30 ∉ F ∨ g ∣ saveNorTimeMax * 30 := by
  constructor
  · intro fits
    by_contra h
    obtain ⟨rate, gop⟩ := not_or.mp h
    obtain ⟨m, hm, overrun⟩ := overruns (not_not.mp rate) gop
    rw [fits 0 m hm] at overrun
    cases overrun
  · intro h k m hm
    exact (bounded h hm).clean

theorem sample_tables_gop_seven :
    ∃ m, Reach (muxer {30}) (Gop 7 0) m ∧ m.vstbl.overrun = true :=
  overruns rfl (by decide)

end En675.Videnc
