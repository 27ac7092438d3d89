import En675.Core.MsgRuns

/-! The streaming messages (`enx_stream.c`).  A read of `SYS_MUTEX15` takes the lock if it is free. -/

universe u

namespace En675.Core

open Lib

namespace MsgStm

variable {ι : Type u} [DecidableEq ι]

def msgStm (totNum : Nat) : Lts (MsgQueue ι) (MsgQueue.Op ι) := MsgQueue.runs true totNum

/-- The queue is a FIFO of `tot_num - 1` items; a slot keeps the low 24 bits of `ts` and the low 8 of
`type`. -/
theorem msgStm_queue (totNum : Nat) (pos : 0 < totNum) (s : MsgQueue ι)
    (h : Reach (msgStm totNum) Lts.any s) :
    Reach (FifoCalls.calls (totNum - 1)) Lts.any s.fifo ∧ s.fifo.items.length ≤ totNum - 1 ∧
      s.spin.Exclusive ∧ s.Served totNum ∧ s.Refusals totNum := by
  have sound := MsgQueue.reach_sound pos MsgQueue.mutex_owned h
  have fifo := MsgQueue.reach_fifo pos MsgQueue.mutex_owned h
  exact ⟨fifo, (FifoCalls.length_inductive _).reach fifo, (MsgQueue.mutex_owned h).exclusive,
    sound.served, sound.refusals⟩

/-- The `k`th get returns every field of the `k`th put. -/
def Exact (s : MsgQueue ι) : Prop :=
  ∀ (k : Nat) (x : MsgArgs) (g : StreamInfo), s.puts[k]? = some x → s.gets[k]? = some g →
    g.addr = x.addr ∧ g.size = x.size ∧ g.ts.toNat = x.ts.toNat ∧ g.type.toNat = x.type.toNat

section sample

def late : MsgArgs := ⟨0x1000, 200, 0x1000000, 3⟩

def start : MsgQueue Bool :=
  ⟨false, MsgQueue.empty 2 fun _ => ⟨0, 0, 0, 0⟩, fun _ => .idle, fun _ => ⟨0, 0, 0, 0⟩,
    MsgQueue.empty 2 fun _ => ⟨0, 0, 0, 0⟩, [], [], [], []⟩

def got : MsgQueue Bool :=
  (start.alone true 12 true (.put late)).alone true 12 false (.get ⟨0, 0, 0, 0⟩)

theorem reach_got : Reach (msgStm 2) Lts.any got := by
  have init : Reach (MsgQueue.runs true 2) MsgQueue.Apart start := .init ⟨_, _, rfl⟩
  have put : Reach (MsgQueue.runs true 2) MsgQueue.Apart (start.alone true 12 true (.put late)) :=
    MsgQueue.reach_alone init (fun _ => rfl) (by decide +kernel)
  have get : Reach (MsgQueue.runs true 2) MsgQueue.Apart got :=
    MsgQueue.reach_alone put (by decide +kernel) (by decide +kernel)
  exact get.mono fun _ _ _ => trivial

/-- A time stamp of 2 ^ 24 comes out as 0. -/
theorem msgStm_ts : ¬ ∀ (ι : Type) [DecidableEq ι] (totNum : Nat) (s : MsgQueue ι), 0 < totNum →
    Reach (msgStm totNum) Lts.any s → Exact s := by
  intro all
  have same := all Bool 2 got (by decide) reach_got 0 late ⟨0x1000, 200, 3, 0⟩ (by decide +kernel)
    (by decide +kernel)
  exact absurd same.2.2.1 (by decide)

theorem msgStm_queue_got : ∃ s : MsgQueue Bool, s.gets = [late.info] ∧
    Reach (FifoCalls.calls 1) Lts.any s.fifo ∧ s.fifo.items.length ≤ 1 ∧ s.spin.Exclusive ∧ s.Served 2 ∧
      s.Refusals 2 :=
  ⟨got, by decide +kernel, msgStm_queue 2 (by decide) got reach_got⟩

end sample

end MsgStm

end En675.Core
