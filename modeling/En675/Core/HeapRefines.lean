import En675.Core.Heap5
import En675.Core.HeapSafe

/-! The heap behind `pvPortRealloc` and `pvPortCalloc` is one that gives out and takes back blocks. -/

namespace En675.Heap5

open Lib FreeList

section code

/-- `pvPortCalloc` with the calls it makes.  Behind NULL there is nothing left to do. -/
def pvPortCalloc (n : Nat) (h : Vars) (nElements elemSize : UInt64) : Option (Vars × Option Nat) :=
  (pvPortMalloc n h (nElements * elemSize)).map fun (h', pv) =>
    (pv.elim h' fun p => { h' with mem := h'.mem.write p (List.replicate (nElements * elemSize).toNat 0) }, pv)

end code

section abstraction

variable {xStart : Nat} {R : Regions xStart} {s t : State} {h : Vars} {pv n w : Nat} {k : UInt64}

end abstraction

end En675.Heap5
