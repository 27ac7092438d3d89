import En675.Lib.Fifo
import En675.Rtsp.Define

/-! The queue in front of a packetizer against a FIFO of `tot_num - 1` items that keeps the
most recent ones. -/

namespace En675.Rtsp

open Lib

namespace RtpQueue

/-- A queue and what its gets have returned; `none` is `ENX_FAIL`.  `rtp_queue_put` returns
`ENX_OK` always. -/
structure Run where
  queue : RtpQueue
  got : List (Option RtpQueueData)

def step (r : Run) : QueueOp RtpQueueData → Run
  | .put d => { r with queue := rtpQueuePut r.queue d }
  | .get =>
    match rtpQueueGet r.queue with
    | none => { r with got := r.got ++ [none] }
    | some (d, q) => ⟨q, r.got ++ [some d]⟩

def start (totNum : Nat) : Run := ⟨rtpQueueInit totNum, []⟩

def run (totNum : Nat) (ops : List (QueueOp RtpQueueData)) : Run :=
  ops.foldl step (start totNum)

/-- The run as the FIFO sees it. -/
def Run.fifo (r : Run) : Fifo RtpQueueData := ⟨r.queue.toList, r.got⟩

/-- The queue is a FIFO that keeps the most recent `tot_num - 1` items. -/
structure IsFifo (totNum : Nat) (ops : List (QueueOp RtpQueueData)) : Prop where
  refines : ∀ pre, pre <+: ops → (run totNum pre).fifo = Fifo.run (totNum - 1) pre
  nonempty : ∀ pre d, pre ++ [.put d] <+: ops → (run totNum (pre ++ [.put d])).queue.toList ≠ []
  /-- Puts without gets keep the last items that fit. -/
  kept : ∀ pre ds, pre ++ ds.map .put <+: ops →
    (run totNum (pre ++ ds.map .put)).queue.toList =
      ((run totNum pre).queue.toList ++ ds).rtake (totNum - 1)
  /-- What the gets return is a part of what is put, in the same order. -/
  order : (run totNum ops).got.reduceOption.Sublist (putsOf ops)

/-- No put of `ops`, from `r` on, comes while the queue is full. -/
def neverFull (r : Run) : List (QueueOp RtpQueueData) → Bool
  | [] => true
  | .put d :: ops => !r.queue.isFull && neverFull (step r (.put d)) ops
  | .get :: ops => neverFull (step r .get) ops

theorem neverFull_iff {r : Run} {ops : List (QueueOp RtpQueueData)} : neverFull r ops = true ↔
    ∀ pre d, pre ++ [.put d] <+: ops → (pre.foldl step r).queue.isFull = false := by
  induction ops generalizing r with
  | nil =>
    refine iff_of_true rfl fun pre d h => ?_
    exact absurd (List.prefix_nil.mp h) (List.append_ne_nil_of_right_ne_nil _ (List.cons_ne_nil _ _))
  | cons op ops ih =>
    have split : neverFull r (op :: ops) = true ↔
        (∀ d, op = .put d → r.queue.isFull = false) ∧ neverFull (step r op) ops = true := by
      cases op with
      | put d =>
        simp only [neverFull, Bool.and_eq_true, Bool.not_eq_true', QueueOp.put.injEq, forall_eq']
      | get => simp only [neverFull, reduceCtorEq, false_implies, implies_true, true_and]
    rw [split, ih]
    constructor
    · rintro ⟨head, tail⟩ pre d h
      cases pre with
      | nil => exact head d (List.cons_prefix_cons.mp h).1.symm
      | cons op' pre =>
        obtain ⟨rfl, behind⟩ := List.cons_prefix_cons.mp h
        exact tail pre d behind
    · intro all
      refine ⟨fun d hd => all [] d ?_, fun pre d h => all (op :: pre) d ?_⟩
      · rw [List.nil_append, hd]
        exact List.cons_prefix_cons.mpr ⟨rfl, List.nil_prefix⟩
      · exact List.cons_prefix_cons.mpr ⟨rfl, h⟩

variable {totNum : Nat} {ops pre : List (QueueOp RtpQueueData)}

theorem run_snoc (totNum : Nat) (ops : List (QueueOp RtpQueueData)) (op : QueueOp RtpQueueData) :
    run totNum (ops ++ [op]) = step (run totNum ops) op := List.foldl_append

theorem fifo_snoc (cap : Nat) (ops : List (QueueOp RtpQueueData)) (op : QueueOp RtpQueueData) :
    Fifo.run cap (ops ++ [op]) = (Fifo.run cap ops).step cap op := List.foldl_append

theorem step_totNum (r : Run) (op : QueueOp RtpQueueData) : (step r op).queue.totNum = r.queue.totNum := by
  cases op with
  | put d => rfl
  | get =>
    simp only [step, rtpQueueGet]
    cases r.queue.isEmpty <;> rfl

theorem step_wf {r : Run} (h : r.queue.Wf) (op : QueueOp RtpQueueData) : (step r op).queue.Wf := by
  cases op with
  | put d => exact RingQueue.Wf.push h d
  | get =>
    simp only [step, rtpQueueGet]
    cases r.queue.isEmpty with
    | true => exact h
    | false => exact RingQueue.Wf.pop h

theorem run_wf (h : 2 ≤ totNum) (ops : List (QueueOp RtpQueueData)) :
    (run totNum ops).queue.Wf ∧ (run totNum ops).queue.totNum = totNum := by
  induction ops using List.reverseRecOn with
  | nil => exact ⟨⟨Nat.lt_of_lt_of_le Nat.two_pos h, Nat.lt_of_lt_of_le Nat.two_pos h⟩, rfl⟩
  | append_singleton ops op ih =>
    rw [run_snoc, step_totNum]
    exact ⟨step_wf ih.1 op, ih.2⟩

/-- A get is the get of the FIFO. -/
theorem step_get {r : Run} (wf : r.queue.Wf) (cap : Nat) : (step r .get).fifo = r.fifo.step cap .get := by
  unfold step rtpQueueGet
  cases he : r.queue.isEmpty with
  | true =>
    have empty := (RingQueue.isEmpty_iff wf).mp he
    simp only [if_true, Run.fifo, Fifo.step, empty, List.tail_nil, List.head?_nil]
  | false =>
    simp only [Bool.false_eq_true, if_false, Run.fifo, Fifo.step, RingQueue.toList_pop wf he, List.tail_cons,
      List.head?_cons]

/-- A put that does not find the queue full is the put of the FIFO. -/
theorem step_put {r : Run} (wf : r.queue.Wf) (hf : r.queue.isFull = false) (d : RtpQueueData) :
    (step r (.put d)).fifo = r.fifo.step (r.queue.totNum - 1) (.put d) := by
  have appended : (r.queue.push d).toList = r.queue.toList ++ [d] := RingQueue.toList_push wf hf d
  have room : (r.queue.toList ++ [d]).length ≤ r.queue.totNum - 1 := by
    have short := RingQueue.length_lt (wf.push d)
    rw [← RingQueue.length_toList, appended] at short
    exact Nat.le_sub_one_of_lt short
  simp only [step, Run.fifo, Fifo.step, rtpQueuePut, appended, Fifo.rtake_of_length_le room]

/-- One step in a run without overflow. -/
theorem step_refines (h : 2 ≤ totNum) (hr : (run totNum pre).fifo = Fifo.run (totNum - 1) pre)
    (op : QueueOp RtpQueueData) (ok : ∀ d, op = .put d → (run totNum pre).queue.isFull = false) :
    (run totNum (pre ++ [op])).fifo = Fifo.run (totNum - 1) (pre ++ [op]) := by
  obtain ⟨wf, size⟩ := run_wf h pre
  rw [run_snoc, fifo_snoc, ← hr]
  cases op with
  | put d =>
    rw [step_put wf (ok d rfl), size]
  | get => exact step_get wf _

theorem refines_of_neverFull (h : 2 ≤ totNum) (ok : neverFull (start totNum) ops = true) (hp : pre <+: ops) :
    (run totNum pre).fifo = Fifo.run (totNum - 1) pre := by
  induction pre using List.reverseRecOn with
  | nil => rfl
  | append_singleton pre op ih =>
    refine step_refines h (ih ((List.prefix_append _ _).trans hp)) op fun d hd => ?_
    exact neverFull_iff.mp ok pre d (hd ▸ hp)

/-- On every run the queue is a FIFO that keeps the most recent items if and only if no put finds
it full. -/
theorem rtp_queue_fifo (totNum : Nat) (h : 2 ≤ totNum) (ops : List (QueueOp RtpQueueData)) :
    IsFifo totNum ops ↔ neverFull (start totNum) ops = true := by
  constructor
  · intro fifo
    refine neverFull_iff.mpr fun pre d hp => ?_
    rw [Bool.eq_false_iff]
    intro full
    refine fifo.nonempty pre d hp ?_
    rw [run_snoc]
    exact RingQueue.toList_push_full (run_wf h pre).1 full d
  · intro ok
    have refines {pre} (hp : pre <+: ops) := refines_of_neverFull h ok hp
    have items {pre} (hp : pre <+: ops) : (run totNum pre).queue.toList = (Fifo.run (totNum - 1) pre).items :=
      congrArg Fifo.items (refines hp)
    refine ⟨fun pre hp => refines hp, fun pre d hp => ?_, fun pre ds hp => ?_, ?_⟩
    · have free := neverFull_iff.mp ok pre d hp
      rw [run_snoc]
      have appended : (step (run totNum pre) (.put d)).queue.toList =
        (run totNum pre).queue.toList ++ [d] := RingQueue.toList_push (run_wf h pre).1 free d
      rw [appended]
      exact List.append_ne_nil_of_right_ne_nil _ (List.cons_ne_nil d [])
    · rw [items hp, items ((List.prefix_append _ _).trans hp), Fifo.run_append,
        Fifo.foldl_puts _ _ (Fifo.length_items _ _)]
    · have got : (run totNum ops).got = (Fifo.run (totNum - 1) ops).got :=
        congrArg Fifo.got (refines (List.prefix_refl ops))
      rw [got]
      exact (List.sublist_append_left _ _).trans (Fifo.run_sublist (totNum - 1) ops)

section sample

def frame (n : Nat) : RtpQueueData := ⟨n, 1, 1, n⟩

theorem rtp_queue_fifo_short : IsFifo 3 [.put (frame 1), .put (frame 2), .get, .put (frame 3)] :=
  (rtp_queue_fifo 3 (by decide) _).mpr (by decide)

/-- With two cells a second put empties the queue. -/
theorem rtp_queue_overflow : ¬ IsFifo 2 [.put (frame 1), .put (frame 2)] :=
  fun h => h.nonempty [.put (frame 1)] (frame 2) (List.prefix_refl _) (by decide)

end sample

end RtpQueue

end En675.Rtsp
