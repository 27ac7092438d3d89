import En675.Lib.Alloc

/-! `pvPortRealloc` and `pvPortCalloc` (`heap_5.c`) over any `pvPortMalloc` and `vPortFree` that give out and
take back blocks, of which the first may return NULL. -/

namespace En675.Heap5

open Lib

section code

end code

section spec

end spec

section contract

variable {h : Heap} {pv m : Nat} {n a b : UInt64}

end contract

end En675.Heap5
