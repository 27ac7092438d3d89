import En675.Videnc.JpegStill
import Mathlib.Algebra.Ring.Int.Defs
import Mathlib.Algebra.Ring.Nat

/-! The encoder's image buffers (`isp_jpeg.c`): which one JPG_ADR sends the hardware to, which one
the handler publishes and which are locked, from `enx_jpeg_start` on.  The rate control at the end
of the handler works on the quantizer alone and is left out. -/

namespace En675.Videnc

open Lib

structure JpegIbuf where
  addr : Nat
  size : Nat
  lock : Nat
  deriving DecidableEq

/-- What the handler reads of the encoder at one interrupt, and the video tick of that moment. -/
structure JpegRegs where
  fsizeHold : Nat
  ovf : Nat
  big : Nat
  videoTick : Nat
  deriving DecidableEq

/-- A picture as the handler publishes it, with the JPG_ADR the encoder had for it. -/
structure Picture where
  addr : Nat
  size : Nat
  jpgAdr : Nat
  deriving DecidableEq

structure JpegEnc where
  index : Nat
  buf : Nat → JpegIbuf
  maxSize : Nat
  period : Nat
  ofCountPerSec : Nat
  ofOvf : Nat
  ofBig : Nat
  ofMaxSize : Nat
  /-- The static of the handler; nothing but the handler writes it. -/
  firstskip : Bool
  jpgAdr : Nat
  stillFlag : SnapFlag
  stillAddr : Nat
  stillSize : Nat
  /-- `MsgStmPut`. -/
  stream : List (Nat × Nat)
  /-- Every finished frame so far. -/
  pictures : List Picture

inductive JpegEvent where
  | irq (r : JpegRegs)
  /-- The other core writes the shared words: a snapshot begins, ends, or is asked for by the ECM. -/
  | share (flag : SnapFlag) (addr size : Nat)
  /-- `enx_jpeg_set_frame_rate_sf`, and whoever else sets the period. -/
  | setPeriod (period : Nat)

def jpegMaxSize : Nat := 3 * 1024 * 1024

def jpegAlign (x : Nat) : Nat := (x + 31) / 32 * 32

def jpegImgBase : Nat := 0x8A000000

def jpegImgEnd : Nat := jpegImgBase + indexLenth * jpegMaxSize

/-- The register takes 28 bits. -/
def jpgADRw (val : Nat) : Nat := val % 2 ^ 28

/-- The unit the handler, and the print of `jpeg_default_buffer`, give the hardware an address in. -/
def ispAddr (addr : Nat) : Nat := addr / 2 ^ 5 * 2

def Picture.Written (p : Picture) : Prop := p.jpgAdr = ispAddr p.addr

instance (p : Picture) : Decidable p.Written := inferInstanceAs (Decidable (_ = _))

/-- The loop of `jpeg_default_buffer` from buffer `i` on, `n` buffers, with JPEG_ADDR as it goes. -/
def defaultBuffers (maxSize : Nat) : Nat → Nat → Nat → (Nat → JpegIbuf) → (Nat → JpegIbuf) × Nat
  | 0, _, jpegAddr, buf => (buf, jpegAddr)
  | n + 1, i, jpegAddr, buf =>
    defaultBuffers maxSize n (i + 1) (jpegAddr + jpegAlign maxSize)
      (Function.update buf i ⟨jpegAddr, 0, 0⟩)

namespace JpegEnc

variable (s : JpegEnc)

/-- `none` stands for the loop the code stays in when the buffers pass JPEG_IMG_END. -/
def jpegDefaultBuffer : Option JpegEnc :=
  let (buf, jpegAddr) := defaultBuffers s.maxSize indexLenth 0 (jpegImgBase / 32 * 32) s.buf
  if jpegAddr > jpegImgEnd then none else some { s with buf := buf }

def enxJpegInit : Option JpegEnc :=
  jpegDefaultBuffer { s with
    index := 0
    buf := fun _ => ⟨0, 0, 0⟩
    maxSize := jpegMaxSize
    period := 0
    ofCountPerSec := 0
    ofOvf := 0
    ofBig := 0
    ofMaxSize := 0 }

def jpegCaptureInit : JpegEnc :=
  { s with index := 0, jpgAdr := jpgADRw ((s.buf 0).addr / 2 ^ 4 * 2) }

def enxJpegStart : JpegEnc := { s.jpegCaptureInit with pictures := [] }

/-- The locks are cleared, and the current buffer is locked. -/
def lockIndex : JpegEnc :=
  { s with buf := fun i => { s.buf i with lock := if i = s.index then 1 else 0 } }

def snapshot (jpegAddr jpegSize : Nat) : JpegEnc :=
  if s.stillFlag = .ide then
    { s.lockIndex with stillAddr := jpegAddr, stillSize := jpegSize, stillFlag := .ide }
  else if s.stillFlag = .jtag ∧ s.stillSize = 0 then
    { s.lockIndex with stillAddr := jpegAddr, stillSize := jpegSize }
  else s

def put (jpegAddr jpegSize videoTick : Nat) : JpegEnc :=
  if s.period = 1 ∨ videoTick % s.period = 0 then
    { s with stream := s.stream ++ [(jpegAddr, jpegSize)] }
  else s

/-- The search for the next buffer, and the store of its address. -/
def setAdr : JpegEnc :=
  let index := nextFree (fun i => (s.buf i).lock != 0) indexLenth s.index
  { s with index := index, jpgAdr := jpgADRw (ispAddr (s.buf index).addr) }

/-- The size of the frame goes to its buffer. -/
def record (jpegAddr jpegSize : Nat) : JpegEnc :=
  { s with
    buf := Function.update s.buf s.index { s.buf s.index with size := jpegSize }
    pictures := s.pictures ++ [⟨jpegAddr, jpegSize, s.jpgAdr⟩] }

def finish (r : JpegRegs) : JpegEnc :=
  let jpegAddr := (s.buf s.index).addr
  let jpegSize := r.fsizeHold
  let s := s.record jpegAddr jpegSize
  let s := s.snapshot jpegAddr jpegSize
  let s := s.put jpegAddr jpegSize r.videoTick
  s.setAdr

def overflow (r : JpegRegs) : JpegEnc :=
  { s with
    ofCountPerSec := s.ofCountPerSec + 1
    ofOvf := if r.ovf = 1 then s.ofOvf + 1 else s.ofOvf
    ofBig := if r.big = 1 then s.ofBig + 1 else s.ofBig
    ofMaxSize := if s.ofMaxSize < r.fsizeHold then r.fsizeHold else s.ofMaxSize }

def jpegIrqHandler (r : JpegRegs) : JpegEnc :=
  if s.firstskip = false then { s with firstskip := true }
  else if r.fsizeHold ≤ s.maxSize then
    if r.ovf = 0 ∧ r.big = 0 then s.finish r else s.overflow r
  else s.overflow r

def step : JpegEvent → JpegEnc
  | .irq r => s.jpegIrqHandler r
  | .share flag addr size => { s with stillFlag := flag, stillAddr := addr, stillSize := size }
  | .setPeriod period => { s with period := period }

def run (es : List JpegEvent) : JpegEnc := es.foldl step s

/-- The encoder is sent to the current buffer, which is one of the buffers and not locked. -/
def Targets : Prop :=
  s.jpgAdr = ispAddr (s.buf s.index).addr ∧ s.index < indexLenth ∧ (s.buf s.index).lock = 0

instance : Decidable s.Targets := inferInstanceAs (Decidable (_ ∧ _ ∧ _))

end JpegEnc

/-- A frame that the handler takes for good, if it is not the one it skips. -/
def JpegRegs.fits (r : JpegRegs) : Bool := r.fsizeHold ≤ jpegMaxSize && (r.ovf == 0 && r.big == 0)

/-- The events finish a frame. -/
def finishes : Bool → List JpegEvent → Bool
  | _, [] => false
  | false, .irq _ :: es => finishes true es
  | true, .irq r :: es => r.fits || finishes true es
  | skip, .share _ _ _ :: es | skip, .setPeriod _ :: es => finishes skip es

namespace JpegEnc

def bufAddr (i : Nat) : Nat := jpegImgBase + i * jpegMaxSize

theorem jpgADRw_ispAddr (h : i < indexLenth) : jpgADRw (ispAddr (bufAddr i)) = ispAddr (bufAddr i) := by
  simp only [indexLenth] at h
  simp only [jpgADRw, ispAddr, bufAddr, jpegImgBase, jpegMaxSize]
  omega

/-- The slip: at the start the encoder is not sent to a buffer. -/
theorem captureInit_ne (i : Nat) : jpgADRw (bufAddr 0 / 2 ^ 4 * 2) ≠ ispAddr (bufAddr i) := by
  simp only [jpgADRw, ispAddr, bufAddr, jpegImgBase, jpegMaxSize]
  omega

end JpegEnc

/-- The search ends at a buffer that is not locked, as long as one at most is. -/
theorem nextFree_free (locks : Nat → Bool) (lt : index < indexLenth)
    (single : ∃ b, ∀ i, locks i = true → i = b) : locks (nextFree locks indexLenth index) = false := by
  obtain ⟨b, hb⟩ := single
  cases h : locks (nextFree locks indexLenth index) with
  | false => rfl
  | true =>
    have at_b : nextFree locks indexLenth index = b := hb _ h
    have only : ∀ i, locks i = (i == b) := by
      intro i
      by_cases hi : i = b
      · rw [hi, ← at_b, h, beq_self_eq_true]
      · rw [beq_eq_false_iff_ne.2 hi]
        exact Bool.eq_false_iff.2 fun c => hi (hb i c)
    exact absurd at_b (nextFree_ne lt only)

namespace JpegEnc

variable {s : JpegEnc}

/-- The buffers between the two stores of a finished frame, where the current one may be locked. -/
structure Mid (s : JpegEnc) : Prop where
  maxSize : s.maxSize = jpegMaxSize
  addr : ∀ i < indexLenth, (s.buf i).addr = bufAddr i
  index_lt : s.index < indexLenth
  single : ∃ b, ∀ i, (s.buf i).lock ≠ 0 → i = b

/-- What every run keeps. -/
structure Inv (s : JpegEnc) : Prop extends s.Mid where
  free : (s.buf s.index).lock = 0

theorem Mid.lockIndex (mid : s.Mid) : s.lockIndex.Mid where
  maxSize := mid.maxSize
  addr := mid.addr
  index_lt := mid.index_lt
  single := by
    refine ⟨s.index, fun i hi => ?_⟩
    simp only [JpegEnc.lockIndex] at hi
    split at hi
    · assumption
    · exact absurd rfl hi

theorem Mid.snapshot (mid : s.Mid) (a z : Nat) : (s.snapshot a z).Mid := by
  have locked := mid.lockIndex
  unfold JpegEnc.snapshot
  split
  · exact ⟨locked.maxSize, locked.addr, locked.index_lt, locked.single⟩
  · split
    · exact ⟨locked.maxSize, locked.addr, locked.index_lt, locked.single⟩
    · exact mid

theorem Mid.put (mid : s.Mid) (a z tick : Nat) : (s.put a z tick).Mid := by
  unfold JpegEnc.put
  split
  · exact ⟨mid.maxSize, mid.addr, mid.index_lt, mid.single⟩
  · exact mid

theorem Mid.setAdr (mid : s.Mid) : s.setAdr.Inv ∧ s.setAdr.Targets := by
  obtain ⟨b, hb⟩ := mid.single
  have lt : s.setAdr.index < indexLenth := nextFree_lt _ mid.index_lt
  have free := nextFree_free (fun i => (s.buf i).lock != 0) mid.index_lt
    ⟨b, fun i hi => hb i (bne_iff_ne.1 hi)⟩
  have unlocked : (s.setAdr.buf s.setAdr.index).lock = 0 := bne_eq_false_iff_eq.1 free
  refine ⟨⟨⟨mid.maxSize, mid.addr, lt, mid.single⟩, unlocked⟩, ?_, lt, unlocked⟩
  have addr : (s.setAdr.buf s.setAdr.index).addr = bufAddr s.setAdr.index := mid.addr _ lt
  calc
    s.setAdr.jpgAdr = jpgADRw (ispAddr (s.setAdr.buf s.setAdr.index).addr) := rfl
    _ = ispAddr (s.setAdr.buf s.setAdr.index).addr := by rw [addr, jpgADRw_ispAddr lt]

@[simp] theorem snapshot_pictures (a z : Nat) : (s.snapshot a z).pictures = s.pictures := by
  unfold JpegEnc.snapshot
  split
  · rfl
  · split <;> rfl

@[simp] theorem put_pictures (a z tick : Nat) : (s.put a z tick).pictures = s.pictures := by
  unfold JpegEnc.put
  split <;> rfl

theorem finish_pictures (r : JpegRegs) : (s.finish r).pictures =
    s.pictures ++ [⟨(s.buf s.index).addr, r.fsizeHold, s.jpgAdr⟩] := by
  simp only [finish, setAdr, put_pictures, snapshot_pictures, record]

theorem Mid.record (inv : s.Mid) (a z : Nat) : (s.record a z).Mid := by
  unfold JpegEnc.record
  refine ⟨inv.maxSize, fun i hi => ?_, inv.index_lt, ?_⟩
  · by_cases at_index : i = s.index
    · subst at_index
      simpa using inv.addr _ hi
    · simpa [Function.update_of_ne at_index] using inv.addr i hi
  · obtain ⟨b, hb⟩ := inv.single
    refine ⟨b, fun i hi => hb i ?_⟩
    by_cases at_index : i = s.index
    · subst at_index
      simpa using hi
    · simpa [Function.update_of_ne at_index] using hi

theorem Inv.finish (inv : s.Inv) (r : JpegRegs) : (s.finish r).Inv ∧ (s.finish r).Targets :=
  Mid.setAdr (Mid.put (Mid.snapshot (inv.toMid.record _ _) _ _) _ _ _)

/-- From the start until a frame is finished. -/
structure Early (s : JpegEnc) : Prop extends s.Inv where
  index_zero : s.index = 0
  jpgAdr : s.jpgAdr = jpgADRw (bufAddr 0 / 2 ^ 4 * 2)
  pictures : s.pictures = []

/-- From then on: the first picture is not where it was published, and all others are. -/
structure Aimed (s : JpegEnc) : Prop extends s.Inv where
  jpgAdr : s.jpgAdr = ispAddr (s.buf s.index).addr
  pictures : ∃ p ps, s.pictures = p :: ps ∧ ¬ p.Written ∧ ∀ q ∈ ps, q.Written

theorem Early.not_targets (early : s.Early) : ¬ s.Targets := by
  rintro ⟨h, -⟩
  rw [early.jpgAdr, early.index_zero, early.addr 0 (by decide)] at h
  exact captureInit_ne 0 h

theorem Aimed.targets (aimed : s.Aimed) : s.Targets := ⟨aimed.jpgAdr, aimed.index_lt, aimed.free⟩

theorem Early.finish (early : s.Early) (r : JpegRegs) : (s.finish r).Aimed := by
  obtain ⟨inv, targets⟩ := early.toInv.finish r
  refine ⟨inv, targets.1, ⟨(s.buf s.index).addr, r.fsizeHold, s.jpgAdr⟩, [], ?_, ?_, nofun⟩
  · rw [finish_pictures, early.pictures, List.nil_append]
  · simp only [Picture.Written, early.jpgAdr, early.index_zero, early.addr 0 (by decide)]
    exact captureInit_ne 0

theorem Aimed.finish (aimed : s.Aimed) (r : JpegRegs) : (s.finish r).Aimed := by
  obtain ⟨inv, targets⟩ := aimed.toInv.finish r
  obtain ⟨p, ps, hps, hp, hall⟩ := aimed.pictures
  refine ⟨inv, targets.1, p, ps ++ [⟨(s.buf s.index).addr, r.fsizeHold, s.jpgAdr⟩], ?_, hp,
    fun q hq => ?_⟩
  · rw [finish_pictures, hps, List.cons_append]
  · rcases List.mem_append.1 hq with hq | hq
    · exact hall q hq
    · rw [List.mem_singleton.1 hq]
      exact aimed.jpgAdr

theorem Early.overflow (early : s.Early) (r : JpegRegs) : (s.overflow r).Early :=
  ⟨⟨⟨early.maxSize, early.addr, early.index_lt, early.single⟩, early.free⟩, early.index_zero,
    early.jpgAdr, early.pictures⟩

theorem Aimed.overflow (aimed : s.Aimed) (r : JpegRegs) : (s.overflow r).Aimed :=
  ⟨⟨⟨aimed.maxSize, aimed.addr, aimed.index_lt, aimed.single⟩, aimed.free⟩, aimed.jpgAdr,
    aimed.pictures⟩

/-- The handler, once the first frame is skipped. -/
theorem irq_of_skipped (hm : s.maxSize = jpegMaxSize) (skipped : s.firstskip = true) (r : JpegRegs) :
    s.jpegIrqHandler r = if r.fits = true then s.finish r else s.overflow r := by
  simp only [jpegIrqHandler, skipped, hm, JpegRegs.fits, Bool.and_eq_true, decide_eq_true_eq,
    beq_iff_eq, ite_and]
  rfl

theorem Aimed.step (aimed : s.Aimed) (e : JpegEvent) : (s.step e).Aimed := by
  cases e with
  | irq r =>
    cases skip : s.firstskip with
    | false =>
      simp only [JpegEnc.step, jpegIrqHandler, skip, if_true]
      exact ⟨⟨⟨aimed.maxSize, aimed.addr, aimed.index_lt, aimed.single⟩, aimed.free⟩, aimed.jpgAdr,
        aimed.pictures⟩
    | true =>
      simp only [JpegEnc.step, irq_of_skipped aimed.maxSize skip]
      split
      · exact aimed.finish r
      · exact aimed.overflow r
  | share | setPeriod =>
    exact ⟨⟨⟨aimed.maxSize, aimed.addr, aimed.index_lt, aimed.single⟩, aimed.free⟩, aimed.jpgAdr,
      aimed.pictures⟩

theorem Aimed.run (aimed : s.Aimed) (es : List JpegEvent) : (s.run es).Aimed := by
  induction es generalizing s with
  | nil => exact aimed
  | cons e es ih => exact ih (aimed.step e)

theorem Early.run (early : s.Early) (es : List JpegEvent) :
    if finishes s.firstskip es = true then (s.run es).Aimed else (s.run es).Early := by
  induction es generalizing s with
  | nil => exact early
  | cons e es ih =>
    cases e with
    | irq r =>
      cases skip : s.firstskip with
      | false =>
        have next : (s.step (.irq r)).Early := by
          simp only [JpegEnc.step, jpegIrqHandler, skip, if_true]
          exact ⟨⟨⟨early.maxSize, early.addr, early.index_lt, early.single⟩, early.free⟩,
            early.index_zero, early.jpgAdr, early.pictures⟩
        have skipped : (s.step (.irq r)).firstskip = true := by
          simp only [JpegEnc.step, jpegIrqHandler, skip, if_true]
        have rest := ih next
        rw [skipped] at rest
        exact rest
      | true =>
        cases fits : r.fits with
        | true =>
          have next : (s.step (.irq r)).Aimed := by
            simp only [JpegEnc.step, irq_of_skipped early.maxSize skip, fits, if_true]
            exact early.finish r
          simp only [finishes, fits, Bool.true_or, if_true]
          exact next.run es
        | false =>
          have lost : s.step (.irq r) = s.overflow r := by
            simp only [JpegEnc.step, irq_of_skipped early.maxSize skip, fits, Bool.false_eq_true,
              if_false]
          have skipped : (s.overflow r).firstskip = true := skip
          have rest := ih (early.overflow r)
          rw [skipped, ← lost] at rest
          simp only [finishes, fits, Bool.false_or]
          exact rest
    | share flag addr size =>
      simp only [finishes]
      exact ih (s := s.step (.share flag addr size)) ⟨⟨⟨early.maxSize, early.addr, early.index_lt,
        early.single⟩, early.free⟩, early.index_zero, early.jpgAdr, early.pictures⟩
    | setPeriod period =>
      simp only [finishes]
      exact ih (s := s.step (.setPeriod period)) ⟨⟨⟨early.maxSize, early.addr, early.index_lt,
        early.single⟩, early.free⟩, early.index_zero, early.jpgAdr, early.pictures⟩

theorem defaultBuffers_snd (n i a : Nat) (buf : Nat → JpegIbuf) :
    (defaultBuffers z n i a buf).2 = a + n * jpegAlign z := by
  induction n generalizing i a buf with
  | zero => simp [defaultBuffers]
  | succ n ih =>
    rw [defaultBuffers, ih, Nat.succ_mul]
    omega

theorem defaultBuffers_fst (n i a : Nat) (buf : Nat → JpegIbuf) (k : Nat) :
    (defaultBuffers z n i a buf).1 k =
      if i ≤ k ∧ k < i + n then ⟨a + (k - i) * jpegAlign z, 0, 0⟩ else buf k := by
  induction n generalizing i a buf with
  | zero => rw [defaultBuffers, if_neg (by omega)]
  | succ n ih =>
    rw [defaultBuffers, ih]
    by_cases at_i : k = i
    · subst at_i
      rw [if_neg (by omega), if_pos (by omega), Function.update_self, Nat.sub_self, Nat.zero_mul,
        Nat.add_zero]
    · rw [Function.update_of_ne at_i]
      by_cases inside : i + 1 ≤ k ∧ k < i + 1 + n
      · have later : k - i = k - (i + 1) + 1 := by omega
        rw [if_pos inside, if_pos (by omega), later, Nat.succ_mul]
        simp only [JpegIbuf.mk.injEq, and_true]
        omega
      · rw [if_neg inside, if_neg (by omega)]

/-- The buffers end where they should, so the code does not stop in `jpeg_default_buffer`. -/
theorem enxJpegInit_starts (s : JpegEnc) :
    ∃ t, s.enxJpegInit = some t ∧ t.enxJpegStart.Early ∧ t.firstskip = s.firstskip := by
  have fits : ¬ (defaultBuffers jpegMaxSize indexLenth 0 (jpegImgBase / 32 * 32)
      fun _ => ⟨0, 0, 0⟩).2 > jpegImgEnd := by
    rw [defaultBuffers_snd]
    decide
  have bufs := defaultBuffers_fst (z := jpegMaxSize) indexLenth 0 (jpegImgBase / 32 * 32)
    fun _ => ⟨0, 0, 0⟩
  have addr : ∀ i < indexLenth, ((defaultBuffers jpegMaxSize indexLenth 0 (jpegImgBase / 32 * 32)
      fun _ => ⟨0, 0, 0⟩).1 i).addr = bufAddr i := by
    intro i hi
    rw [bufs, if_pos (by omega)]
    rfl
  have lock : ∀ i, ((defaultBuffers jpegMaxSize indexLenth 0 (jpegImgBase / 32 * 32)
      fun _ => ⟨0, 0, 0⟩).1 i).lock = 0 := by
    intro i
    rw [bufs, apply_ite JpegIbuf.lock, ite_self]
  refine ⟨_, if_neg fits, ⟨⟨⟨rfl, addr, (by decide : 0 < indexLenth), 0, ?_⟩, lock 0⟩, rfl, ?_, rfl⟩, rfl⟩
  · exact fun i hi => absurd (lock i) hi
  · exact congrArg (fun a => jpgADRw (a / 2 ^ 4 * 2)) (addr 0 (by decide))

/-- The encoder is sent to the current buffer exactly once a frame is finished, and only the first
picture is not where it was published. -/
theorem jpeg_targets_iff (s₀ : JpegEnc) : ∃ s₁, s₀.enxJpegInit = some s₁ ∧ ∀ es,
    (s₁.enxJpegStart.run es).index < indexLenth ∧
    ((s₁.enxJpegStart.run es).buf (s₁.enxJpegStart.run es).index).lock = 0 ∧
    ((s₁.enxJpegStart.run es).Targets ↔ finishes s₀.firstskip es = true) ∧
    ∀ k p, (s₁.enxJpegStart.run es).pictures[k]? = some p → (p.Written ↔ k ≠ 0) := by
  obtain ⟨s₁, hs, early, hskip⟩ := enxJpegInit_starts s₀
  refine ⟨s₁, hs, fun es => ?_⟩
  have skip : s₁.enxJpegStart.firstskip = s₀.firstskip := hskip
  have whole := early.run es
  rw [skip] at whole
  cases fin : finishes s₀.firstskip es with
  | false =>
    simp only [fin, Bool.false_eq_true, if_false] at whole
    refine ⟨whole.index_lt, whole.free, iff_of_false whole.not_targets Bool.false_ne_true,
      fun k p hp => ?_⟩
    rw [whole.pictures] at hp
    simp at hp
  | true =>
    simp only [fin, if_true] at whole
    refine ⟨whole.index_lt, whole.free, iff_of_true whole.targets rfl, fun k p hp => ?_⟩
    obtain ⟨first, rest, heq, hfirst, hrest⟩ := whole.pictures
    rw [heq] at hp
    cases k with
    | zero =>
      obtain rfl := Option.some.inj hp
      exact iff_of_false hfirst (absurd rfl)
    | succ k => exact iff_of_true (hrest p (List.mem_of_getElem? hp)) (Nat.succ_ne_zero k)

/-- The memory before `enx_jpeg_init`. -/
def boot : JpegEnc where
  index := 0
  buf := fun _ => ⟨0, 0, 0⟩
  maxSize := 0
  period := 0
  ofCountPerSec := 0
  ofOvf := 0
  ofBig := 0
  ofMaxSize := 0
  firstskip := false
  jpgAdr := 0
  stillFlag := .ide
  stillAddr := 0
  stillSize := 0
  stream := []
  pictures := []

/-- The frame that is skipped, and one of 1000 bytes. -/
def firstFrames : List JpegEvent := [.irq ⟨1000, 0, 0, 0⟩, .irq ⟨1000, 0, 0, 3⟩]

theorem jpeg_misses :
    (boot.enxJpegInit.map fun s => decide s.enxJpegStart.Targets) = some false ∧
    (boot.enxJpegInit.map fun s => (s.enxJpegStart.run firstFrames).pictures) =
      some [⟨0x8A000000, 1000, 0x1400000⟩] ∧
    ispAddr 0x8A000000 = 0x8A00000 := by decide

end JpegEnc

end En675.Videnc
