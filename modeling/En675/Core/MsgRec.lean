import En675.Core.MsgRuns

/-! The recording messages (`enx_record.c`).  `stmrecmsg_lock` is a plain variable, tested and then
set. -/

universe u

namespace En675.Core

open Lib

namespace MsgRec

variable {ι : Type u} [DecidableEq ι]

section sample

def item : MsgArgs := ⟨0x1000, 200, 3000, 3⟩

def start : MsgQueue Bool :=
  ⟨false, MsgQueue.empty 2 fun _ => ⟨0, 0, 0, 0⟩, fun _ => .idle, fun _ => ⟨0, 0, 0, 0⟩,
    MsgQueue.empty 2 fun _ => ⟨0, 0, 0, 0⟩, [], [], [], []⟩

def stored : MsgQueue Bool := start.alone false 13 true (.put item)

end sample

end MsgRec

end En675.Core
