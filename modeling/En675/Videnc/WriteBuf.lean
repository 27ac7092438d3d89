import En675.Lib.While
import En675.Videnc.Saver
import Mathlib.Order.Lattice.Nat

/-! The write buffer with whatever `f_write` answers: an error, all of the octets, or the first
few of them.  `Buffer` is the case in which all of them are always taken. -/

namespace En675.Videnc

open Lib

/-- What a flush is told: by `f_write`, and by `fat_get_freesize` in its two tests. -/
structure WriteAnswer where
  fres : FResult
  writesize : Nat
  freesizeG : UInt8
  freesizeF : UInt8
  deriving DecidableEq, Repr

/-- `t_videnc_totalbuf_t` with `buf` as an offset and the octets from `base` on, `filesize`, and
whether `muxer_videnc_error` was called since the open.  Beside these what the file has accepted,
and what was added. -/
structure WriteBuf where
  buf : Nat
  length : Nat
  total : Nat
  base : Mem
  filesize : Nat
  error : Bool
  file : List UInt8
  added : List UInt8

/-- A call of `muxer_videnc_bufferadd`. -/
structure AddCall where
  data : Option Ptr
  size : Int

def AddCall.octets (c : AddCall) : List UInt8 :=
  match c.data with
  | none => []
  | some data => data.read c.size.toNat

namespace WriteBuf

/-- After `muxer_videnc_open`. -/
def opened (base : Mem) : WriteBuf := ⟨0, 0, vidBufSize, base, 0, false, [], []⟩

def octets (k : WriteBuf) : List UInt8 := k.base.read 0 k.length

def muxerVidencBufferflush (k : WriteBuf) (a : WriteAnswer) : FResult × WriteBuf :=
  let k := { k with file := k.file ++ k.octets.take a.writesize }
  if a.fres ≠ .ok then (a.fres, { k with error := true })
  else if k.length ≠ a.writesize ∧ a.freesizeG = 0 then (a.fres, { k with error := true })
  else if a.writesize = 0 ∧ a.freesizeF = 0 then (a.fres, { k with error := true })
  else
    let length := usub k.length a.writesize
    -- what was not written is given up
    (a.fres, { k with buf := 0, length := if length ≠ 0 then 0 else length })

/-- The loop of `muxer_videnc_bufferadd`: `n` calls of `f_write` so far. -/
structure Adding where
  k : WriteBuf
  data : List UInt8
  n : Nat

def Adding.more (s : Adding) : Bool := 0 < s.data.length

/-- The copy of a round. -/
def copied (k : WriteBuf) (bs : List UInt8) : WriteBuf :=
  { k with
    base := k.base.write k.buf bs
    length := k.length + bs.length
    buf := k.buf + bs.length
    filesize := uadd k.filesize bs.length }

def addRound (answers : Nat → WriteAnswer) (s : Adding) : Round Adding :=
  let left := s.k.total - s.k.length
  let wb := if s.data.length ≥ left then left else s.data.length
  let k := s.k.copied (s.data.take wb)
  if k.length = k.total then
    let r := k.muxerVidencBufferflush (answers s.n)
    if r.1 ≠ .ok then .stop ⟨r.2, s.data, s.n + 1⟩ else .next ⟨r.2, s.data.drop wb, s.n + 1⟩
  else .next ⟨k, s.data.drop wb, s.n⟩

/-- `none` if the loop has not ended after `fuel` rounds. -/
def muxerVidencBufferadd (k : WriteBuf) (answers : Nat → WriteAnswer) (fuel : Nat) (c : AddCall) :
    Option WriteBuf :=
  match c.data with
  | none => some (k.muxerVidencBufferflush (answers 0)).2
  | some data =>
    (whileDo Adding.more (addRound answers) fuel ⟨k, data.read c.size.toNat, 0⟩).map
      fun s => { s.k with added := k.added ++ c.octets }

end WriteBuf

/-- Calls one after the other, each with what the card answers while it runs. -/
def writeBuf : Lts WriteBuf (AddCall × (Nat → WriteAnswer)) where
  init k := ∃ base, k = .opened base
  step k e t := ∃ fuel, k.muxerVidencBufferadd e.2 fuel e.1 = some t

/-- The card is found full; the flush then returns as if it had succeeded. -/
def WriteAnswer.Full (a : WriteAnswer) (n : Nat) : Prop :=
  a.fres = .ok ∧ (n ≠ a.writesize ∧ a.freesizeG = 0 ∨ a.writesize = 0 ∧ a.freesizeF = 0)

/-- Of `n` octets all are accepted, or an error is entered. -/
def WriteAnswer.Whole (a : WriteAnswer) (n : Nat) : Prop :=
  a.fres = .ok → a.writesize = n ∨ a.Full n

/-- How many octets a flush of this call writes: those there are, or a full buffer. -/
def WriteBuf.flushes (k : WriteBuf) (c : AddCall) : Nat := if c.data.isNone then k.length else k.total

def Whole (k : WriteBuf) (e : AddCall × (Nat → WriteAnswer)) : Prop :=
  ∀ n, (e.2 n).Whole (k.flushes e.1)

/-- The buffer in front of the file holds what was added and not yet accepted. -/
structure WriteBuf.Refines (k : WriteBuf) : Prop where
  buf : k.buf = k.length
  room : k.length ≤ k.total
  total : k.total = vidBufSize
  octets : k.error = false → k.file ++ k.octets = k.added

namespace WriteBuf

variable {k : WriteBuf} {a : WriteAnswer}

/-- What an error leaves of the buffer. -/
def failed (k : WriteBuf) (a : WriteAnswer) : WriteBuf :=
  { k with file := k.file ++ k.octets.take a.writesize, error := true }

/-- The buffer after a flush that went through. -/
def cleared (k : WriteBuf) (a : WriteAnswer) : WriteBuf :=
  { k with file := k.file ++ k.octets.take a.writesize, buf := 0, length := 0 }

/-- A flush enters an error or empties the buffer. -/
theorem flush_cases (k : WriteBuf) (a : WriteAnswer) :
    k.muxerVidencBufferflush a = (a.fres, k.failed a) ∧ (a.fres ≠ .ok ∨ a.Full k.length) ∨
      k.muxerVidencBufferflush a = (.ok, k.cleared a) ∧ a.fres = .ok ∧ ¬ a.Full k.length := by
  unfold muxerVidencBufferflush
  by_cases hf : a.fres = .ok
  · simp only [if_neg (not_not.mpr hf)]
    by_cases hG : k.length ≠ a.writesize ∧ a.freesizeG = 0
    · simp only [if_pos hG]
      exact .inl ⟨rfl, .inr ⟨hf, .inl hG⟩⟩
    · simp only [if_neg hG]
      by_cases hF : a.writesize = 0 ∧ a.freesizeF = 0
      · simp only [if_pos hF]
        exact .inl ⟨rfl, .inr ⟨hf, .inr hF⟩⟩
      · simp only [if_neg hF, hf]
        refine .inr ⟨?_, trivial, fun full => full.2.elim hG hF⟩
        have none_left (n : Nat) : (if n ≠ 0 then 0 else n) = 0 := by
          split
          · rfl
          · exact not_not.mp ‹_›
        rw [none_left]
        rfl
  · simp only [if_pos hf]
    exact .inl ⟨rfl, .inl hf⟩

theorem copied_octets (h : k.buf = k.length) (bs : List UInt8) :
    (k.copied bs).octets = k.octets ++ bs := by
  rw [octets, octets, copied, h, Mem.read_add, Nat.zero_add, Mem.read_write,
    Mem.read_write_below _ _ _ _ _ (by rw [Nat.zero_add])]

/-- What the loop keeps: `goal` is all that will have been added. -/
structure Kept (goal : List UInt8) (s : Adding) : Prop where
  buf : s.k.buf = s.k.length
  room : s.k.length ≤ s.k.total
  total : s.k.total = vidBufSize
  octets : s.k.error = false → s.k.file ++ s.k.octets ++ s.data = goal

/-- A flush keeps it if it takes the whole buffer. -/
theorem Kept.flush {s : Adding} (h : Kept goal s) (whole : a.Whole s.k.length) (n : Nat) :
    Kept goal ⟨(s.k.muxerVidencBufferflush a).2, s.data, n⟩ := by
  rcases flush_cases s.k a with ⟨e, _⟩ | ⟨e, ok, room⟩
  · rw [e]
    exact ⟨h.buf, h.room, h.total, nofun⟩
  · have all : a.writesize = s.k.length := (whole ok).resolve_right room
    rw [e]
    refine ⟨rfl, Nat.zero_le _, h.total, fun he => ?_⟩
    have octets := h.octets he
    rw [List.append_assoc] at octets
    have take : s.k.octets.take s.k.length = s.k.octets := List.take_of_length_le (by simp [WriteBuf.octets])
    simp only [cleared, WriteBuf.octets, all, Mem.read_zero, List.append_nil]
    rw [List.append_assoc]
    exact take.symm ▸ octets

theorem Kept.copied {s : Adding} (h : Kept goal s) (hwb : wb ≤ s.k.total - s.k.length) (n : Nat) :
    Kept goal ⟨s.k.copied (s.data.take wb), s.data.drop wb, n⟩ where
  buf := congrArg (· + (s.data.take wb).length) h.buf
  room := by
    have room := h.room
    have len : (s.data.take wb).length ≤ wb := List.length_take_le _ _
    change s.k.length + (s.data.take wb).length ≤ s.k.total
    omega
  total := h.total
  octets he := by
    rw [copied_octets h.buf, ← h.octets he]
    simp only [List.append_assoc, List.take_append_drop]
    rfl

namespace Adding

/-- How many octets a round copies. -/
def size (s : Adding) : Nat :=
  if s.data.length ≥ s.k.total - s.k.length then s.k.total - s.k.length else s.data.length

def filled (s : Adding) : WriteBuf := s.k.copied (s.data.take s.size)

theorem size_le (s : Adding) : s.size ≤ s.k.total - s.k.length ∧ s.size ≤ s.data.length := by
  unfold size
  split <;> omega

@[simp] theorem filled_length (s : Adding) : s.filled.length = s.k.length + s.size := by
  have le := s.size_le.2
  change s.k.length + (s.data.take s.size).length = _
  rw [List.length_take, Nat.min_eq_left le]

@[simp] theorem filled_total (s : Adding) : s.filled.total = s.k.total := rfl

end Adding

/-- What a round makes of the call: it copies, and flushes a buffer that is full then. -/
inductive Rounded (answers : Nat → WriteAnswer) (s : Adding) : Round Adding → Prop
  | part (h : s.filled.length ≠ s.k.total) :
    Rounded answers s (.next ⟨s.filled, s.data.drop s.size, s.n⟩)
  | error (h : s.filled.length = s.k.total) (err : (answers s.n).fres ≠ .ok) :
    Rounded answers s (.stop ⟨s.filled.failed (answers s.n), s.data, s.n + 1⟩)
  | full (h : s.filled.length = s.k.total) (full : (answers s.n).Full s.k.total) :
    Rounded answers s (.next ⟨s.filled.failed (answers s.n), s.data.drop s.size, s.n + 1⟩)
  | cleared (h : s.filled.length = s.k.total) (ok : (answers s.n).fres = .ok)
      (room : ¬ (answers s.n).Full s.k.total) :
    Rounded answers s (.next ⟨s.filled.cleared (answers s.n), s.data.drop s.size, s.n + 1⟩)

theorem addRound_rounded (answers : Nat → WriteAnswer) (s : Adding) :
    Rounded answers s (addRound answers s) := by
  change Rounded answers s (if s.filled.length = s.filled.total then _ else _)
  split
  next full =>
    rcases flush_cases s.filled (answers s.n) with ⟨e, h⟩ | ⟨e, ok, room⟩
    · change Rounded answers s (if (s.filled.muxerVidencBufferflush (answers s.n)).1 ≠ _ then
        .stop ⟨(s.filled.muxerVidencBufferflush (answers s.n)).2, _, _⟩
        else .next ⟨(s.filled.muxerVidencBufferflush (answers s.n)).2, _, _⟩)
      rw [e]
      split
      next err => exact .error full err
      next ok => exact .full full (full ▸ h.resolve_left ok)
    · change Rounded answers s (if (s.filled.muxerVidencBufferflush (answers s.n)).1 ≠ _ then
        .stop ⟨(s.filled.muxerVidencBufferflush (answers s.n)).2, _, _⟩
        else .next ⟨(s.filled.muxerVidencBufferflush (answers s.n)).2, _, _⟩)
      rw [e, if_neg (fun h => h rfl)]
      exact .cleared full ok (full ▸ room)
  next part => exact .part part

/-- The loop ends in a buffer that holds what is left. -/
structure Ended (goal : List UInt8) (s : Adding) : Prop where
  buf : s.k.buf = s.k.length
  room : s.k.length ≤ s.k.total
  total : s.k.total = vidBufSize
  octets : s.k.error = false → s.k.file ++ s.k.octets = goal

theorem adding_keeps {answers : Nat → WriteAnswer} (whole : ∀ n, (answers n).Whole vidBufSize)
    (goal : List UInt8) :
    Lib.Keeps Adding.more (addRound answers) (Kept goal) (Ended goal) where
  exit {s} h hc := by
    have empty : s.data = [] := by simpa [Adding.more] using hc
    refine ⟨h.buf, h.room, h.total, fun he => ?_⟩
    rw [← h.octets he, empty, List.append_nil]
  next {s t} h _ hb := by
    have kept n := h.copied s.size_le.1 n
    have step := addRound_rounded answers s
    rw [hb] at step
    cases step with
    | part => exact kept _
    | full hl => exact ⟨(kept 0).buf, (kept 0).room, h.total, nofun⟩
    | cleared hl ok room =>
      have all : (answers s.n).Whole s.filled.length := hl ▸ h.total ▸ whole s.n
      have flushed := (kept s.n).flush all (s.n + 1)
      rcases flush_cases s.filled (answers s.n) with ⟨e, err⟩ | ⟨e, -, -⟩
      · exact absurd (hl ▸ err.resolve_left (fun h => h ok)) room
      · change Kept goal ⟨(s.filled.muxerVidencBufferflush (answers s.n)).2, _, _⟩ at flushed
        rwa [e] at flushed
  stop {s t} h _ hb := by
    have kept := h.copied s.size_le.1 0
    have step := addRound_rounded answers s
    rw [hb] at step
    cases step with
    | error => exact ⟨kept.buf, kept.room, h.total, nofun⟩

section ends

/-- How many of the coming answers find the card full. -/
noncomputable def waits (answers : Nat → WriteAnswer) (n : Nat) : Nat :=
  sInf {d | ¬ (answers (n + d)).Full vidBufSize}

theorem waits_full {answers : Nat → WriteAnswer}
    (often : ∀ n, ∃ m, n ≤ m ∧ ¬ (answers m).Full vidBufSize) (full : (answers n).Full vidBufSize) :
    waits answers (n + 1) < waits answers n := by
  obtain ⟨m, hm, hr⟩ := often n
  have mem : ¬ (answers (n + waits answers n)).Full vidBufSize :=
    Nat.sInf_mem (s := {d | ¬ (answers (n + d)).Full vidBufSize})
      ⟨m - n, show ¬ (answers (n + (m - n))).Full vidBufSize by rwa [Nat.add_sub_cancel' hm]⟩
  obtain ⟨d, hd⟩ : ∃ d, waits answers n = d + 1 := by
    refine Nat.exists_eq_succ_of_ne_zero fun h => mem ?_
    rwa [h]
  rw [hd, ← Nat.add_assoc, Nat.add_right_comm] at mem
  rw [hd]
  exact Nat.lt_succ_of_le (Nat.sInf_le mem)

/-- What a round lowers: the octets left, or else, before a full buffer, the wait for an answer
that does not find the card full. -/
noncomputable def ahead (answers : Nat → WriteAnswer) (s : Adding) : Nat × Nat :=
  (s.data.length, if s.k.length = s.k.total then waits answers s.n + 1 else 0)

theorem adding_ends {answers : Nat → WriteAnswer}
    (often : ∀ n, ∃ m, n ≤ m ∧ ¬ (answers m).Full vidBufSize) (s : Adding)
    (room : s.k.length ≤ s.k.total) (total : s.k.total = vidBufSize) :
    ∃ fuel t, whileDo Adding.more (addRound answers) fuel s = some t := by
  have wf : WellFounded (InvImage (Prod.Lex (· < ·) (· < ·)) (ahead answers)) :=
    InvImage.wf _ (Prod.lex Nat.lt_wfRel Nat.lt_wfRel).wf
  refine whileDo_wf wf (I := fun s => s.k.length ≤ s.k.total ∧ s.k.total = vidBufSize)
    (fun {s t} ⟨room, total⟩ hc hb => ?_) ⟨room, total⟩
  have pos : 0 < s.data.length := by simpa [Adding.more] using hc
  have size := s.size_le
  have left (n : Nat) (hs : 0 < s.size) (k : WriteBuf) :
      Prod.Lex (· < ·) (· < ·) (ahead answers ⟨k, s.data.drop s.size, n⟩) (ahead answers s) :=
    .left _ _ (by rw [List.length_drop]; omega)
  have step := addRound_rounded answers s
  rw [hb] at step
  cases step with
  | part hl =>
    rw [Adding.filled_length] at hl
    refine ⟨⟨by simp only [Adding.filled_length, Adding.filled_total]; omega, total⟩, left _ ?_ _⟩
    by_contra none_
    have : s.size = s.k.total - s.k.length ∨ s.size = s.data.length := by
      unfold Adding.size
      split <;> simp
    omega
  | full hl full =>
    refine ⟨⟨Nat.le_of_eq hl, total⟩, ?_⟩
    rcases Nat.eq_zero_or_pos s.size with zero | hs
    · rw [Adding.filled_length, zero] at hl
      have lower := waits_full often (total ▸ full)
      simp only [zero, List.drop_zero]
      refine .right _ ?_
      rw [if_pos (show (s.filled.failed _).length = (s.filled.failed _).total from
        (Adding.filled_length s).trans (by rw [zero]; exact hl)), if_pos (by simpa using hl)]
      exact Nat.succ_lt_succ lower
    · exact left _ hs _
  | cleared hl ok room =>
    refine ⟨⟨Nat.zero_le _, total⟩, ?_⟩
    rcases Nat.eq_zero_or_pos s.size with zero | hs
    · rw [Adding.filled_length, zero] at hl
      simp only [zero, List.drop_zero]
      refine .right _ ?_
      have empty : ¬ (s.filled.cleared (answers s.n)).length = (s.filled.cleared (answers s.n)).total := by
        change ¬ 0 = s.k.total
        rw [total]
        decide
      rw [if_neg empty, if_pos (by simpa using hl)]
      exact Nat.succ_pos _
    · exact left _ hs _

/-- More octets than there is room for, and the card found full for ever. -/
theorem adding_stuck {answers : Nat → WriteAnswer} (full : ∀ n, (answers n).Full vidBufSize)
    (fuel : Nat) (s : Adding) (room : s.k.length ≤ s.k.total) (total : s.k.total = vidBufSize)
    (more : s.k.total - s.k.length < s.data.length) :
    whileDo Adding.more (addRound answers) fuel s = none := by
  have hc : s.more = true := decide_eq_true (by omega)
  induction fuel generalizing s with
  | zero =>
    rw [whileDo, if_pos hc]
  | succ fuel ih =>
    have size : s.size = s.k.total - s.k.length := if_pos (Nat.le_of_lt more)
    have hl : s.filled.length = s.k.total := by
      rw [Adding.filled_length, size]
      omega
    have step := addRound_rounded answers s
    cases hb : addRound answers s with
    | stop t =>
      rw [hb] at step
      cases step with
      | error _ err => exact absurd (full s.n).1 err
    | next t =>
      rw [hb] at step
      rw [whileDo_next hc hb]
      cases step with
      | part part => exact absurd hl part
      | cleared _ _ room => exact absurd (total ▸ full s.n) room
      | full =>
        have left : s.k.total - s.filled.length < (s.data.drop s.size).length := by
          rw [hl, List.length_drop]
          omega
        exact ih _ (Nat.le_of_eq hl) total left (decide_eq_true (by change 0 < (s.data.drop s.size).length; omega))

end ends

/-- An add that leaves room. -/
theorem bufferadd_copied (answers : Nat → WriteAnswer) (p : Ptr) (n : Nat)
    (h : k.length + (n + 1) < k.total) : k.muxerVidencBufferadd answers 1 ⟨some p, (n + 1 : Nat)⟩ =
      some { k.copied (p.read (n + 1)) with added := k.added ++ p.read (n + 1) } := by
  have size : Adding.size ⟨k, p.read (n + 1), 0⟩ = n + 1 := by
    simp only [Adding.size, Sink.length_read]
    exact if_neg (by omega)
  have take : (p.read (n + 1)).take (n + 1) = p.read (n + 1) := List.take_of_length_le (by simp)
  have drop : (p.read (n + 1)).drop (n + 1) = [] := List.drop_of_length_le (by simp)
  have step := addRound_rounded answers ⟨k, p.read (n + 1), 0⟩
  have part : (Adding.filled ⟨k, p.read (n + 1), 0⟩).length ≠ k.total := by
    rw [Adding.filled_length, size]
    exact Nat.ne_of_lt h
  have round : addRound answers ⟨k, p.read (n + 1), 0⟩ = .next ⟨k.copied (p.read (n + 1)), [], 0⟩ := by
    cases hb : addRound answers ⟨k, p.read (n + 1), 0⟩ with
    | stop t =>
      rw [hb] at step
      cases step with
      | error hl => exact absurd hl part
    | next t =>
      rw [hb] at step
      cases step with
      | part => rw [Adding.filled, size, take, drop]
      | full hl => exact absurd hl part
      | cleared hl => exact absurd hl part
  have more : Adding.more ⟨k, p.read (n + 1), 0⟩ = true := by simp [Adding.more]
  simp only [muxerVidencBufferadd, Int.toNat_natCast]
  rw [whileDo_next more round, whileDo_exit 0 rfl]
  rfl

theorem refines_opened (base : Mem) : (opened base).Refines :=
  ⟨rfl, Nat.zero_le _, rfl, fun _ => rfl⟩

/-- A call whose flushes are whole keeps the refinement. -/
theorem Refines.add {answers : Nat → WriteAnswer} {c : AddCall} {fuel : Nat} {t : WriteBuf}
    (h : k.Refines) (whole : Whole k (c, answers)) (ht : k.muxerVidencBufferadd answers fuel c = some t) :
    t.Refines := by
  obtain ⟨data, size⟩ := c
  cases data with
  | none =>
    have kept : Kept k.added ⟨k, [], 0⟩ :=
      ⟨h.buf, h.room, h.total, fun he => by rw [List.append_nil]; exact h.octets he⟩
    have flushed := kept.flush (whole 0) 0
    obtain rfl := Option.some.inj ht
    have added : (k.muxerVidencBufferflush (answers 0)).2.added = k.added := by
      rcases flush_cases k (answers 0) with ⟨e, _⟩ | ⟨e, _⟩ <;> rw [e] <;> rfl
    refine ⟨flushed.buf, flushed.room, flushed.total, fun he => ?_⟩
    rw [added, ← flushed.octets he, List.append_nil]
  | some data =>
    obtain ⟨u, hu, rfl⟩ := Option.map_eq_some_iff.mp ht
    have kept : Kept (k.added ++ data.read size.toNat) ⟨k, data.read size.toNat, 0⟩ :=
      ⟨h.buf, h.room, h.total, fun he => by rw [h.octets he]⟩
    have whole (n : Nat) : (answers n).Whole vidBufSize := h.total ▸ whole n
    have ended := (adding_keeps whole _).ends kept hu
    exact ⟨ended.buf, ended.room, ended.total, ended.octets⟩

end WriteBuf

/-- As long as no accepted prefix is short of a whole flush, the file and the buffer behind it
hold what was added; and a call returns if the card is not found full for ever. -/
theorem write_buffer_refines (h : Reach writeBuf Whole k) : k.Refines ∧
    ∀ (c : AddCall) (answers : Nat → WriteAnswer),
      (∀ n, ∃ m, n ≤ m ∧ ¬ (answers m).Full vidBufSize) →
      ∃ fuel t, k.muxerVidencBufferadd answers fuel c = some t := by
  have refines : k.Refines := by
    induction h with
    | init h =>
      obtain ⟨base, rfl⟩ := h
      exact WriteBuf.refines_opened base
    | step _ whole h ih =>
      obtain ⟨fuel, h⟩ := h
      exact ih.add whole h
  refine ⟨refines, fun c answers often => ?_⟩
  obtain ⟨data, size⟩ := c
  cases data with
  | none => exact ⟨0, _, rfl⟩
  | some data =>
    obtain ⟨fuel, t, ht⟩ := WriteBuf.adding_ends often ⟨k, data.read size.toNat, 0⟩ refines.room
      refines.total
    exact ⟨fuel, _, congrArg (Option.map _) ht⟩

/-- Octets that count from one. -/
def counting : Ptr := fun i => UInt8.ofNat (i + 1)

/-- `n + 1` octets added to the empty buffer. -/
def addedBuf (n : Nat) : WriteBuf :=
  { (WriteBuf.opened fun _ => 0).copied (counting.read (n + 1)) with added := counting.read (n + 1) }

theorem added_reach {ok : WriteBuf → AddCall × (Nat → WriteAnswer) → Prop} (n : Nat)
    (h : n + 1 < vidBufSize) (answers : Nat → WriteAnswer)
    (hok : ok (.opened fun _ => 0) (⟨some counting, (n + 1 : Nat)⟩, answers)) :
    Reach writeBuf ok (addedBuf n) := by
  have init : writeBuf.init (.opened fun _ => 0) := ⟨_, rfl⟩
  refine (Reach.init init).step hok ⟨1, ?_⟩
  exact WriteBuf.bufferadd_copied answers counting n (by simpa [WriteBuf.opened] using h)

theorem flush_reach {ok : WriteBuf → AddCall × (Nat → WriteAnswer) → Prop} (h : Reach writeBuf ok k)
    (a : WriteAnswer) (hok : ok k (⟨none, -1⟩, fun _ => a)) :
    Reach writeBuf ok (k.muxerVidencBufferflush a).2 :=
  h.step hok ⟨0, rfl⟩

/-- Three octets are added and flushed. -/
theorem write_buffer_three : ∃ k : WriteBuf, k.file = [1, 2, 3] ∧ k.Refines := by
  have reach : Reach writeBuf Whole (addedBuf 2) :=
    added_reach 2 (by decide) (fun _ => ⟨.ok, vidBufSize, 9, 9⟩) (fun _ _ => .inl rfl)
  have flushed := flush_reach reach ⟨.ok, 3, 9, 9⟩ (fun _ _ => .inl rfl)
  exact ⟨_, by decide, (write_buffer_refines flushed).1⟩

/-- A flush of which the card, with room left, takes one octet of two loses the other; and an add
that fills the buffer does not return while the card is found full. -/
theorem write_buffer_loses :
    (∃ k : WriteBuf, Reach writeBuf Lts.any k ∧ k.error = false ∧ k.file ++ k.octets ≠ k.added) ∧
      ∃ (k : WriteBuf) (c : AddCall) (answers : Nat → WriteAnswer), Reach writeBuf Lts.any k ∧
        ∀ fuel, k.muxerVidencBufferadd answers fuel c = none := by
  constructor
  · have reach : Reach writeBuf Lts.any (addedBuf 1) :=
      added_reach 1 (by decide) (fun _ => ⟨.ok, 0, 9, 9⟩) trivial
    exact ⟨_, flush_reach reach ⟨.ok, 1, 9, 9⟩ trivial, rfl, by decide⟩
  · have init : writeBuf.init (.opened fun _ => 0) := ⟨_, rfl⟩
    refine ⟨.opened fun _ => 0, ⟨some counting, (vidBufSize + 1 : Nat)⟩, fun _ => ⟨.ok, 0, 0, 0⟩,
      .init init, fun fuel => ?_⟩
    have full (n : Nat) : (WriteAnswer.mk .ok 0 0 0).Full vidBufSize := ⟨rfl, .inr ⟨rfl, rfl⟩⟩
    have stuck := WriteBuf.adding_stuck full fuel
      ⟨.opened fun _ => 0, counting.read (vidBufSize + 1), 0⟩ (Nat.zero_le _) rfl
      (by rw [Sink.length_read]; exact Nat.lt_succ_self _)
    exact congrArg (Option.map _) stuck

end En675.Videnc
