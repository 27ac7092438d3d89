import En675.Lib.Bytes

/-! Memory that is given out in blocks: what an allocator may do to it. -/

namespace Lib

/-- A memory, and the sizes of the blocks that are given out, by their addresses. -/
structure Heap where
  mem : Mem
  size : Nat → Option Nat
  null : size 0 = none
  apart : ∀ {p q m n}, size p = some m → size q = some n → p < q → p + m ≤ q

namespace Heap

/-- The blocks other than that at `p` hold what they held. -/
def Keeps (h h' : Heap) (p : Nat) : Prop :=
  ∀ q n, q ≠ p → h.size q = some n → h'.mem.read q n = h.mem.read q n

/-- What a request of `n` octets may come to: no block, or a new one of that size at least. -/
inductive Gives (h : Heap) (n : Nat) : Nat → Heap → Prop
  | null : h'.size = h.size → h.Keeps h' 0 → Gives h n 0 h'
  | block : 0 < n → n ≤ m → q ≠ 0 → h.size q = none → h'.size = Function.update h.size q (some m) →
      h.Keeps h' q → Gives h n q h'

variable {h h' : Heap} {p q m n : Nat}

theorem Gives.zero (g : h.Gives 0 q h') : q = 0 := by
  cases g with
  | null => rfl
  | block pos => exact absurd pos (Nat.lt_irrefl 0)

/-- The heap without the block at `p`. -/
def free (h : Heap) (p : Nat) : Heap where
  mem := h.mem
  size := Function.update h.size p none
  null := by
    rw [Function.update_apply, h.null, ite_self]
  apart {a b m n} ha hb lt := by
    have kept {c k : Nat} (hc : Function.update h.size p none c = some k) : h.size c = some k := by
      rw [Function.update_apply] at hc
      split at hc
      · cases hc
      · exact hc
    exact h.apart (kept ha) (kept hb) lt

/-- A store into the memory. -/
def write (h : Heap) (a : Nat) (bs : List UInt8) : Heap := { h with mem := h.mem.write a bs }

end Heap

end Lib
