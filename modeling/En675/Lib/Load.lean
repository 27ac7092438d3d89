import En675.Lib.Bytes

/-! Words of 64 bits in a byte memory, the low octet first. -/

namespace Lib.Mem

/-- The word at `a`. -/
def load (m : Mem) (a : Nat) : Nat := readBE (m.read a 8).reverse

def store (m : Mem) (a v : Nat) : Mem := m.write a (be 8 v).reverse

variable {m m' : Mem} {a b v : Nat}

theorem load_congr (h : ∀ i, a ≤ i → i < a + 8 → m i = m' i) : m.load a = m'.load a := by
  rw [load, load, read_congr h]

theorem store_other (h : i < a ∨ a + 8 ≤ i) : m.store a v i = m i := by
  rcases h with h | h
  · exact write_of_lt _ _ _ _ h
  · refine write_of_ge _ _ _ _ ?_
    rwa [List.length_reverse, length_be]

theorem load_store (h : v < 2 ^ 64) : (m.store a v).load a = v := by
  have whole := read_write m a (be 8 v).reverse
  rw [List.length_reverse, length_be] at whole
  rw [load, store, whole, List.reverse_reverse]
  exact readBE_be_of_lt h

theorem load_store_of_ne (h : a + 8 ≤ b ∨ b + 8 ≤ a) : (m.store a v).load b = m.load b :=
  load_congr fun i lower upper => store_other <| by omega

/-- A word is less than `2 ^ 64`. -/
theorem load_lt (m : Mem) (a : Nat) : m.load a < 2 ^ 64 := by
  have lt (bs : List UInt8) : readBE bs < 256 ^ bs.length := by
    induction bs using List.reverseRecOn with
    | nil => exact Nat.one_pos
    | append_singleton bs b ih =>
      have octet := b.toNat_lt
      rw [readBE, List.foldl_append, List.length_append, List.length_singleton, pow_succ]
      change readBE bs * 256 + b.toNat < _
      omega
  have bound := lt (m.read a 8).reverse
  rwa [List.length_reverse, length_read] at bound

end Lib.Mem
