import En675.Lib.Ring
import En675.Lib.Transition

/-! The JPEG snapshot: the encoder's interrupt handler (`isp_jpeg.c`) and the task that saves the
picture (`muxer_jpegstill_process`) on the other core, step by step over the words they share.  A
buffer stands for its address, `none` for the address 0. -/

namespace En675.Videnc

open Lib

inductive SnapFlag where
  | ide | proc | str | ing | done | jtag
  deriving DecidableEq

/-- Where `jpeg_irq_handler` is; it holds the size of the frame, and its buffer is the index. -/
inductive JpegIrq where
  | idle
  | check (jpegSize : Nat)
  | checkJtag (jpegSize : Nat)
  | proc (jpegSize : Nat)
  | lock (jpegSize : Nat) (jtag : Bool)
  | addr (jpegSize : Nat) (jtag : Bool)
  | size (jpegSize : Nat) (jtag : Bool)
  | ide
  | search
  deriving DecidableEq

/-- The handler is not between its test of the flag and the store that ends the hand-over. -/
def JpegIrq.calm : JpegIrq → Bool
  | .idle | .check _ | .checkJtag _ | .search => true
  | _ => false

/-- Where `muxer_jpegstill_process` is, with what it has read. -/
inductive StillMux where
  | idle
  | poll
  | str
  | ref
  | openFile
  | readAddr
  | readSize (srcAddr : Option Nat)
  | write (srcAddr : Option Nat) (size : Nat)
  | unref (read : Option (Option Nat × Nat))
  | release (read : Option (Option Nat × Nat))
  deriving DecidableEq

/-- The snapshot has set the flag, and not yet given it back. -/
def StillMux.claimed : StillMux → Bool
  | .idle | .poll | .str => false
  | _ => true

def indexLenth : Nat := 4

/-- Where `jpeg_capture_init` sends the encoder, with a shift that is not the handler's: to no
buffer (`JpegEnc.captureInit_ne` has the addresses). -/
def captureAdr : Nat := indexLenth

structure JpegStill where
  flag : SnapFlag
  addr : Option Nat
  size : Nat
  ref : Int
  firstskip : Bool
  index : Nat
  locks : Nat → Bool
  jpgAdr : Nat
  /-- The picture on offer was encoded where `jpeg_capture_init` sent it. -/
  early : Bool
  irq : JpegIrq
  mux : StillMux
  /-- Every frame so far: the buffer it was encoded into, and its size. -/
  frames : List (Nat × Nat)
  /-- The frame a buffer holds whole. -/
  content : Nat → Option Nat

inductive StillEvent where
  | frame (size : Nat) (fits : Bool)
  | irq
  | snapshot
  | mux
  | opened (ok : Bool)

/-- The search for a buffer that is not locked, at most `n` steps on. -/
def nextFree (locks : Nat → Bool) : Nat → Nat → Nat
  | 0, index => index
  | n + 1, index =>
    let index := RingQueue.next indexLenth index
    if locks index = false then index else nextFree locks n index

namespace JpegStill

variable (s : JpegStill)

/-- The encoder is done with a frame, and its interrupt comes. -/
def frameDone (size : Nat) (fits : Bool) : JpegStill :=
  { s with
    frames := s.frames ++ [(s.jpgAdr, size)]
    content := Function.update s.content s.jpgAdr (some s.frames.length)
    firstskip := true
    irq := if s.firstskip && fits then .check size else .idle }

/-- The address the encoder is given. -/
def setAdr (index : Nat) : JpegStill :=
  { s with
    index := index
    jpgAdr := index
    content := Function.update s.content index none
    irq := .idle }

def jpegIrqHandler : Option JpegStill :=
  match s.irq with
  | .idle => none
  | .check z => some { s with irq := if s.flag = .ide then .proc z else .checkJtag z }
  | .checkJtag z => some { s with irq := if s.flag = .jtag ∧ s.size = 0 then .lock z true else .search }
  | .proc z => some { s with flag := .proc, irq := .lock z false }
  | .lock z jtag => some { s with locks := fun i => i == s.index, irq := .addr z jtag }
  | .addr z jtag =>
    some { s with addr := some s.index, early := s.jpgAdr == captureAdr, irq := .size z jtag }
  | .size z jtag => some { s with size := z, irq := if jtag then .search else .ide }
  | .ide => some { s with flag := .ide, irq := .search }
  | .search => some (s.setAdr (nextFree s.locks indexLenth s.index))

def muxerJpegstillProcess : Option JpegStill :=
  match s.mux with
  | .idle => none
  | .poll => some { s with mux := if s.flag = .proc then .poll else .str }
  | .str => some { s with flag := .str, mux := .ref }
  | .ref => some { s with ref := s.ref + 1, mux := .openFile }
  | .openFile => none
  | .readAddr => some { s with mux := .readSize s.addr }
  | .readSize a => some { s with mux := .write a s.size }
  | .write a z => some { s with mux := .unref (some (a, z)) }
  | .unref read => some { s with ref := s.ref - 1, mux := .release read }
  | .release _ =>
    some { s with
      flag := if s.ref = 0 then .ide else s.flag
      ref := if s.ref < 0 then 0 else s.ref
      mux := .idle }

def step : StillEvent → Option JpegStill
  | .frame size fits => if s.irq = .idle then some (s.frameDone size fits) else none
  | .irq => s.jpegIrqHandler
  | .snapshot => match s.mux with
    | .idle => some { s with mux := .poll }
    | _ => none
  | .mux => s.muxerJpegstillProcess
  | .opened ok => match s.mux with
    | .openFile => some { s with mux := if ok then .readAddr else .unref none }
    | _ => none

def start : JpegStill where
  flag := .ide
  addr := none
  size := 0
  ref := 0
  firstskip := false
  index := 0
  locks := fun _ => false
  jpgAdr := captureAdr
  early := false
  irq := .idle
  mux := .idle
  frames := []
  content := fun _ => none

def runs : Lts JpegStill StillEvent where
  init s := s = start
  step s e t := s.step e = some t

/-- The address and the size a snapshot goes by, from the read of the address until the flag is
given back. -/
def held : Option (Option Nat × Nat) :=
  match s.mux with
  | .readSize a => some (a, s.size)
  | .write a z => some (a, z)
  | .unref read | .release read => read
  | _ => none

/-- They are those of one frame, its buffer still holds it, and the encoder is not sent there. -/
def Whole : Prop :=
  ∀ a z, s.held = some (a, z) → ∃ b n, a = some b ∧ s.frames[n]? = some (b, z) ∧
    s.content b = some n ∧ (s.irq = .search → ∀ t, s.step .irq = some t → t.jpgAdr ≠ b)

/-- The condition, on the step that claims the snapshot. -/
def Apart : JpegStill → StillEvent → Prop
  | s, .mux => s.mux = .str → s.irq.calm = true ∧ s.addr ≠ none ∧ s.early = false
  | _, _ => True

instance (s : JpegStill) : (e : StillEvent) → Decidable (Apart s e)
  | .mux => inferInstanceAs 
    (Decidable (s.mux = .str → s.irq.calm = true ∧ s.addr ≠ none ∧ s.early = false))
  | .frame _ _ | .irq | .snapshot | .opened _ => .isTrue trivial

/-- The picture on offer: its buffer is locked, alone, and still holds the frame. -/
def Stored (b : Nat) : Prop :=
  s.addr = some b ∧ b < indexLenth ∧ (∀ i, s.locks i = (i == b)) ∧
    (s.early = false → ∃ n, s.frames[n]? = some (b, s.size) ∧ s.content b = some n)

def Nothing : Prop := s.addr = none ∧ ∀ i, s.locks i = false

/-- What is on offer between two frames. -/
def Offers : Prop := s.Nothing ∨ ∃ b, s.Stored b ∧ b ≠ s.index

/-- The frame the handler was called for. -/
def Current (z : Nat) : Prop :=
  s.jpgAdr = s.index → ∃ n, s.frames[n]? = some (s.index, z) ∧ s.content s.index = some n

def IrqInv : JpegIrq → Prop
  | .idle => s.Offers
  | .check z | .checkJtag z | .proc z | .lock z _ => s.Offers ∧ s.Current z
  | .addr z _ => s.Current z ∧ ∀ i, s.locks i = (i == s.index)
  | .size z _ => s.Current z ∧ (∀ i, s.locks i = (i == s.index)) ∧ s.addr = some s.index ∧
    s.early = (s.jpgAdr == captureAdr)
  | .ide => s.Stored s.index
  | .search => s.Nothing ∨ ∃ b, s.Stored b

/-- The flag is the snapshot's, and the handler is out of the hand-over. -/
def Claimed : Prop := s.flag = .str ∧ s.irq.calm = true ∧ s.addr ≠ none ∧ s.early = false

structure Inv : Prop where
  index_lt : s.index < indexLenth
  jpgAdr : s.jpgAdr = s.index ∨ s.jpgAdr = captureAdr
  noJtag : s.flag ≠ .jtag
  irq : s.IrqInv s.irq
  claimed : s.mux.claimed = true → s.Claimed
  held : ∀ a z, s.held = some (a, z) → a = s.addr ∧ z = s.size

end JpegStill

section search

variable {locks : Nat → Bool} {index b : Nat}

theorem next_lt_four (h : index < indexLenth) : RingQueue.next indexLenth index < indexLenth :=
  RingQueue.next_lt h

theorem next_ne (h : index < indexLenth) : RingQueue.next indexLenth index ≠ index := by
  unfold RingQueue.next indexLenth at *
  split <;> omega

theorem nextFree_lt (n : Nat) (h : index < indexLenth) : nextFree locks n index < indexLenth := by
  induction n generalizing index with
  | zero => exact h
  | succ n ih =>
    simp only [nextFree]
    split
    · exact next_lt_four h
    · exact ih (next_lt_four h)

/-- One locked buffer is passed over. -/
theorem nextFree_ne (h : index < indexLenth) (only : ∀ i, locks i = (i == b)) :
    nextFree locks indexLenth index ≠ b := by
  change nextFree locks (2 + 1 + 1) index ≠ b
  by_cases first : RingQueue.next indexLenth index = b
  · have second : RingQueue.next indexLenth (RingQueue.next indexLenth index) ≠ b :=
      first ▸ next_ne (next_lt_four h)
    rw [nextFree, if_neg (by simp [only, first]), nextFree, if_pos (by simpa [only] using second)]
    exact second
  · rw [nextFree, if_pos (by simpa [only] using first)]
    exact first

end search

namespace JpegStill

variable {s : JpegStill}

theorem Stored.frameDone (h : s.Stored b) (ne : b ≠ s.jpgAdr) (z : Nat) (fits : Bool) :
    (s.frameDone z fits).Stored b := by
  obtain ⟨ha, lt, only, kept⟩ := h
  refine ⟨ha, lt, only, fun written => ?_⟩
  obtain ⟨n, hn, hc⟩ := kept written
  refine ⟨n, ?_, ?_⟩
  · exact List.getElem?_append_left (List.getElem?_eq_some_iff.1 hn).1 ▸ hn
  · simp only [JpegStill.frameDone, Function.update_of_ne ne]
    exact hc

theorem offers_frameDone (h : s.Offers) (hj : s.jpgAdr = s.index ∨ s.jpgAdr = captureAdr) (z : Nat)
    (fits : Bool) : (s.frameDone z fits).Offers := by
  rcases h with h | ⟨b, h, ne⟩
  · exact .inl h
  · have elsewhere : b ≠ s.jpgAdr := by
      rcases hj with hj | hj
      · exact hj ▸ ne
      · exact hj ▸ Nat.ne_of_lt h.2.1
    exact .inr ⟨b, h.frameDone elsewhere z fits, ne⟩

theorem current_frameDone (z : Nat) (fits : Bool) : (s.frameDone z fits).Current z := by
  intro hj
  have hj : s.jpgAdr = s.index := hj
  refine ⟨s.frames.length, ?_, ?_⟩
  · simp [frameDone, hj]
  · simp [frameDone, hj]

theorem Stored.setAdr (h : s.Stored b) (ne : i ≠ b) : (s.setAdr i).Stored b := by
  obtain ⟨ha, lt, only, kept⟩ := h
  refine ⟨ha, lt, only, fun written => ?_⟩
  obtain ⟨n, hn, hc⟩ := kept written
  refine ⟨n, hn, ?_⟩
  simp only [JpegStill.setAdr, Function.update_of_ne ne.symm]
  exact hc

/-- The search leaves the offer where the encoder is not. -/
theorem offers_search (h : s.Nothing ∨ ∃ b, s.Stored b) (lt : s.index < indexLenth) :
    (s.setAdr (nextFree s.locks indexLenth s.index)).Offers := by
  rcases h with h | ⟨b, h⟩
  · exact .inl h
  · have ne := nextFree_ne lt h.2.2.1
    exact .inr ⟨b, h.setAdr ne, ne.symm⟩

theorem Inv.frame (inv : s.Inv) (idle : s.irq = .idle) (z : Nat) (fits : Bool) :
    (s.frameDone z fits).Inv := by
  have offers : s.Offers := by
    have := inv.irq
    rwa [idle] at this
  have offers' := offers_frameDone offers inv.jpgAdr z fits
  have current := s.current_frameDone z fits
  refine ⟨inv.index_lt, inv.jpgAdr, inv.noJtag, ?_, fun c => ?_, inv.held⟩
  · change (s.frameDone z fits).IrqInv (if s.firstskip && fits then .check z else .idle)
    split
    · exact ⟨offers', current⟩
    · exact offers'
  · obtain ⟨flag, -, offer⟩ := inv.claimed c
    refine ⟨flag, ?_, offer⟩
    simp only [frameDone]
    split <;> rfl

theorem claimed_of_held (h : s.held = some p) : s.mux.claimed = true := by
  unfold JpegStill.held at h
  cases hm : s.mux with
  | idle | poll | str => simp [hm] at h
  | _ => rfl

/-- A step of the handler that leaves the shared words to the snapshot. -/
theorem Inv.irq_quiet (inv : s.Inv) (t : JpegStill) (hindex : t.index < indexLenth)
    (hjpg : t.jpgAdr = t.index ∨ t.jpgAdr = captureAdr) (hflag : t.flag = s.flag)
    (haddr : t.addr = s.addr) (hsize : t.size = s.size) (hearly : t.early = s.early)
    (hmux : t.mux = s.mux) (calm : t.irq.calm = true) (hirq : t.IrqInv t.irq) : t.Inv := by
  refine ⟨hindex, hjpg, hflag ▸ inv.noJtag, hirq, fun c => ?_, fun a z h => ?_⟩
  · rw [hmux] at c
    obtain ⟨flag, -, addr, written⟩ := inv.claimed c
    exact ⟨hflag.trans flag, calm, haddr ▸ addr, hearly.trans written⟩
  · have held : s.held = some (a, z) := by
      unfold JpegStill.held at h ⊢
      rwa [hmux, hsize] at h
    rw [haddr, hsize]
    exact inv.held a z held

/-- A step of the hand-over, which no claimed snapshot sees. -/
theorem Inv.irq_busy (inv : s.Inv) (t : JpegStill) (hindex : t.index = s.index)
    (hjpg : t.jpgAdr = s.jpgAdr) (hflag : t.flag ≠ .jtag) (hmux : t.mux = s.mux)
    (free : s.flag = .ide ∨ s.irq.calm = false) (hirq : t.IrqInv t.irq) : t.Inv := by
  have unclaimed : s.mux.claimed ≠ true := by
    intro c
    obtain ⟨flag, calm, -⟩ := inv.claimed c
    rcases free with free | free
    · exact absurd (flag.symm.trans free) (by decide)
    · exact absurd (calm.symm.trans free) (by decide)
  refine ⟨hindex ▸ inv.index_lt, ?_, hflag, hirq, fun c => ?_, fun a z h => ?_⟩
  · rw [hjpg, hindex]
    exact inv.jpgAdr
  · exact absurd (hmux ▸ c) unclaimed
  · exact absurd (hmux ▸ claimed_of_held h) unclaimed

theorem Inv.irq_step (inv : s.Inv) (ht : s.jpegIrqHandler = some t) : t.Inv := by
  have hirq := inv.irq
  unfold jpegIrqHandler at ht
  cases hs : s.irq with
  | idle => simp [hs] at ht
  | check z =>
    rw [hs] at ht hirq
    obtain rfl := Option.some.inj ht
    by_cases free : s.flag = .ide
    · refine inv.irq_busy _ rfl rfl inv.noJtag rfl (.inl free) ?_
      simp only [if_pos free]
      exact hirq
    · refine inv.irq_quiet _ inv.index_lt inv.jpgAdr rfl rfl rfl rfl rfl ?_ ?_
      · simp only [if_neg free]
        rfl
      · simp only [if_neg free]
        exact hirq
  | checkJtag z =>
    rw [hs] at ht hirq
    simp only [inv.noJtag, false_and, if_false] at ht
    obtain rfl := Option.some.inj ht
    refine inv.irq_quiet _ inv.index_lt inv.jpgAdr rfl rfl rfl rfl rfl rfl ?_
    exact hirq.1.imp_right fun ⟨b, h, _⟩ => ⟨b, h⟩
  | proc z =>
    rw [hs] at ht hirq
    obtain rfl := Option.some.inj ht
    exact inv.irq_busy _ rfl rfl nofun rfl (.inr (hs ▸ rfl)) hirq
  | lock z jtag =>
    rw [hs] at ht hirq
    obtain rfl := Option.some.inj ht
    exact inv.irq_busy _ rfl rfl inv.noJtag rfl (.inr (hs ▸ rfl)) ⟨hirq.2, fun _ => rfl⟩
  | addr z jtag =>
    rw [hs] at ht hirq
    obtain rfl := Option.some.inj ht
    exact inv.irq_busy _ rfl rfl inv.noJtag rfl (.inr (hs ▸ rfl))
      ⟨hirq.1, hirq.2, rfl, rfl⟩
  | size z jtag =>
    rw [hs] at ht hirq
    obtain rfl := Option.some.inj ht
    obtain ⟨current, only, ha, hearly⟩ := hirq
    refine inv.irq_busy _ rfl rfl inv.noJtag rfl (.inr (hs ▸ rfl)) ?_
    have stored : JpegStill.Stored { s with size := z, irq := if jtag then .search else .ide } s.index :=
      ⟨ha, inv.index_lt, only, fun written => current (inv.jpgAdr.resolve_right
        (beq_eq_false_iff_ne.1 (hearly.symm.trans written)))⟩
    cases jtag with
    | true => exact .inr ⟨_, stored⟩
    | false => exact stored
  | ide =>
    rw [hs] at ht hirq
    obtain rfl := Option.some.inj ht
    exact inv.irq_busy _ rfl rfl nofun rfl (.inr (hs ▸ rfl)) (.inr ⟨_, hirq⟩)
  | search =>
    rw [hs] at ht hirq
    obtain rfl := Option.some.inj ht
    exact inv.irq_quiet _ (nextFree_lt _ inv.index_lt) (.inl rfl) rfl rfl rfl rfl rfl rfl
      (offers_search hirq inv.index_lt)

/-- A step of the snapshot task. -/
theorem Inv.mux_moves (inv : s.Inv) (t : JpegStill) (hindex : t.index = s.index)
    (hjpg : t.jpgAdr = s.jpgAdr) (hflag : t.flag ≠ .jtag) (hirq : t.irq = s.irq)
    (hoffer : t.IrqInv s.irq = s.IrqInv s.irq) (claimed : t.mux.claimed = true → t.Claimed)
    (held : ∀ a z, t.held = some (a, z) → a = t.addr ∧ z = t.size) : t.Inv := by
  refine ⟨hindex ▸ inv.index_lt, ?_, hflag, ?_, claimed, held⟩
  · rw [hjpg, hindex]
    exact inv.jpgAdr
  · rw [hirq, hoffer]
    exact inv.irq

theorem Inv.mux_step (inv : s.Inv) (ok : Apart s .mux) (ht : s.muxerJpegstillProcess = some t) :
    t.Inv := by
  have claimed := inv.claimed
  have held := inv.held
  unfold muxerJpegstillProcess at ht
  unfold JpegStill.held at held
  cases hs : s.mux with
  | idle => simp [hs] at ht
  | poll =>
    rw [hs] at ht
    obtain rfl := Option.some.inj ht
    by_cases busy : s.flag = .proc
    · simp only [if_pos busy]
      exact inv.mux_moves _ rfl rfl inv.noJtag rfl rfl (fun c => nomatch c) (fun a z h => nomatch h)
    · simp only [if_neg busy]
      exact inv.mux_moves _ rfl rfl inv.noJtag rfl rfl (fun c => nomatch c) (fun a z h => nomatch h)
  | str =>
    rw [hs] at ht
    obtain rfl := Option.some.inj ht
    exact inv.mux_moves _ rfl rfl nofun rfl rfl (fun _ => ⟨rfl, ok hs⟩) (fun a z h => nomatch h)
  | ref =>
    rw [hs] at ht claimed
    obtain rfl := Option.some.inj ht
    exact inv.mux_moves _ rfl rfl inv.noJtag rfl rfl (fun _ => claimed rfl) (fun a z h => nomatch h)
  | openFile => simp [hs] at ht
  | readAddr =>
    rw [hs] at ht claimed
    obtain rfl := Option.some.inj ht
    refine inv.mux_moves _ rfl rfl inv.noJtag rfl rfl (fun _ => claimed rfl) (fun a z h => ?_)
    obtain ⟨rfl, rfl⟩ := Prod.mk.inj (Option.some.inj h)
    exact ⟨rfl, rfl⟩
  | readSize a =>
    rw [hs] at ht claimed held
    obtain rfl := Option.some.inj ht
    refine inv.mux_moves _ rfl rfl inv.noJtag rfl rfl (fun _ => claimed rfl) (fun a z h => ?_)
    exact held a z h
  | write a z =>
    rw [hs] at ht claimed held
    obtain rfl := Option.some.inj ht
    exact inv.mux_moves _ rfl rfl inv.noJtag rfl rfl (fun _ => claimed rfl) held
  | unref read =>
    rw [hs] at ht claimed held
    obtain rfl := Option.some.inj ht
    exact inv.mux_moves _ rfl rfl inv.noJtag rfl rfl (fun _ => claimed rfl) held
  | release read =>
    rw [hs] at ht
    obtain rfl := Option.some.inj ht
    refine inv.mux_moves _ rfl rfl ?_ rfl rfl (fun c => nomatch c) (fun a z h => nomatch h)
    simp only
    split
    · decide
    · exact inv.noJtag

theorem Inv.step (inv : s.Inv) (ok : Apart s e) (ht : s.step e = some t) : t.Inv := by
  cases e with
  | frame z fits =>
    simp only [JpegStill.step, Option.ite_none_right_eq_some] at ht
    exact Option.some.inj ht.2 ▸ inv.frame ht.1 z fits
  | irq => exact inv.irq_step ht
  | mux => exact inv.mux_step ok ht
  | snapshot =>
    simp only [JpegStill.step] at ht
    split at ht
    · obtain rfl := Option.some.inj ht
      exact inv.mux_moves _ rfl rfl inv.noJtag rfl rfl (by rintro ⟨⟩) (by rintro a z ⟨⟩)
    · cases ht
  | opened opens =>
    have claimed := inv.claimed
    simp only [JpegStill.step] at ht
    split at ht
    case h_1 hm =>
      rw [hm] at claimed
      obtain rfl := Option.some.inj ht
      refine inv.mux_moves _ rfl rfl inv.noJtag rfl rfl (fun _ => claimed rfl) ?_
      intro a z h
      cases opens with
      | false => cases h
      | true => cases h
    · cases ht

theorem inductive_inv : runs.Inductive Apart Inv where
  init := by
    rintro s rfl
    exact ⟨by decide, .inr rfl, by decide, .inl ⟨rfl, fun _ => rfl⟩, (fun c => nomatch c),
      (fun a z h => nomatch h)⟩
  step inv ok ht := inv.step ok ht

/-- While the handler is out of the hand-over, what is on offer is a whole frame. -/
theorem Inv.stored (inv : s.Inv) (calm : s.irq.calm = true) (ha : s.addr = some b) : s.Stored b := by
  have same {b'} (h : s.Stored b') : s.Stored b := by
    obtain rfl := Option.some.inj (h.1.symm.trans ha)
    exact h
  have offers (h : s.Offers) : s.Stored b := by
    rcases h with h | ⟨b', h, -⟩
    · exact nomatch h.1.symm.trans ha
    · exact same h
  have hirq := inv.irq
  cases hs : s.irq with
  | idle =>
    rw [hs] at hirq
    exact offers hirq
  | check z | checkJtag z =>
    rw [hs] at hirq
    exact offers hirq.1
  | search =>
    rw [hs] at hirq
    rcases hirq with h | ⟨b', h⟩
    · exact nomatch h.1.symm.trans ha
    · exact same h
  | _ => simp [hs, JpegIrq.calm] at calm

end JpegStill

/-- Snapshots claimed apart from a hand-over, with a picture on offer, are whole. -/
theorem jpegStill_whole (r : Reach JpegStill.runs JpegStill.Apart s) : s.Whole := by
  have inv := JpegStill.inductive_inv.reach r
  intro a z h
  obtain ⟨flag, calm, some_, written⟩ := inv.claimed (JpegStill.claimed_of_held h)
  obtain ⟨rfl, rfl⟩ := inv.held a z h
  obtain ⟨b, hb⟩ := Option.ne_none_iff_exists'.1 some_
  have stored := inv.stored calm hb
  obtain ⟨n, hn, hc⟩ := stored.2.2.2 written
  refine ⟨b, n, hb, hn, hc, fun hs t ht => ?_⟩
  simp only [JpegStill.step, JpegStill.jpegIrqHandler, hs] at ht
  obtain rfl := Option.some.inj ht
  exact nextFree_ne inv.index_lt stored.2.2.1

/-- The frame that is skipped, the one encoded before the handler has set the address, and the
next; with the handler's runs for the last two. -/
def threeFrames : List StillEvent :=
  .frame 50 true :: .frame 100 true :: .replicate 7 .irq ++ .frame 200 true :: .replicate 7 .irq

theorem jpegStill_whole_one :
    ∃ t, List.foldlM JpegStill.step .start
      (threeFrames ++ [.snapshot, .mux, .mux, .mux, .opened true, .mux, .mux]) = some t ∧
        t.held = some (some 1, 200) ∧ t.Whole := by
  have admitted : Admitted JpegStill.Apart JpegStill.step .start
      (threeFrames ++ [.snapshot, .mux, .mux, .mux, .opened true, .mux, .mux]) := by decide
  exact ⟨_, rfl, rfl, jpegStill_whole (Reach.foldlM (fun h => h) (.init rfl) admitted rfl)⟩

/-- The snapshot claims the flag after the handler has tested it: the address is that of the frame
before, the size that of the next. -/
theorem jpegStill_torn : ¬∀ s, Reach JpegStill.runs Lts.any s → s.Whole := by
  intro all
  let es : List StillEvent := threeFrames ++ [.frame 300 true, .irq, .snapshot, .mux, .mux, .mux,
    .opened true, .mux, .irq, .irq, .irq, .irq, .mux]
  obtain ⟨t, ht, held, frames⟩ : ∃ t, es.foldlM JpegStill.step .start = some t ∧
      t.held = some (some 1, 300) ∧ t.frames = [(4, 50), (4, 100), (1, 200), (2, 300)] :=
    ⟨_, rfl, rfl, rfl⟩
  have r : Reach JpegStill.runs Lts.any t :=
    Reach.foldlM (fun h => h) (.init rfl) (admitted_any _ _ _) ht
  obtain ⟨b, n, hb, hn, -⟩ := all t r _ _ held
  obtain rfl := Option.some.inj hb
  rw [frames] at hn
  match n with
  | 0 | 1 | 2 | 3 => simp at hn
  | n + 4 => simp at hn

end En675.Videnc
