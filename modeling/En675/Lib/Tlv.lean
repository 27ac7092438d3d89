import En675.Lib.Bytes

/-! Entries of a code, a length and as many octets, one behind the other in memory up to an octet `stop`. -/

namespace Lib

structure Tlv where
  code : UInt8
  data : List UInt8
  short : data.length < 256

namespace Tlv

def bytes (o : Tlv) : List UInt8 := o.code :: UInt8.ofNat o.data.length :: o.data

def encode (l : List Tlv) : List UInt8 := l.flatMap bytes

/-- The entries of `l` at `a`. -/
def At (stop : UInt8) (m : Mem) (a : Nat) (l : List Tlv) : Prop := m.Holds a (encode l ++ [stop])

variable {stop : UInt8} {m m' : Mem} {a : Nat} {o : Tlv} {l : List Tlv}

@[simp] theorem length_bytes (o : Tlv) : o.bytes.length = o.data.length + 2 := rfl

@[simp] theorem encode_nil : encode [] = [] := rfl

@[simp] theorem encode_cons : encode (o :: l) = o.bytes ++ encode l := rfl

theorem at_nil : At stop m a [] ↔ m a = stop := by
  unfold At Mem.Holds
  rw [encode_nil, List.nil_append, List.length_singleton, Mem.read, Mem.read, List.singleton_inj]

/-- The first entry, and where the next one is. -/
theorem at_cons (h : At stop m a (o :: l)) :
    m a = o.code ∧ (m (a + 1)).toNat = o.data.length ∧ m.Holds (a + 2) o.data ∧
      At stop m (a + (o.data.length + 2)) l := by
  unfold At at h
  rw [encode_cons, List.append_assoc, Mem.Holds.append] at h
  obtain ⟨first, rest⟩ := h
  have code := first.get (i := 0) (by simp)
  have length := first.get (i := 1) (by simp)
  refine ⟨code, ?_, first.tail.tail, rest⟩
  rw [length]
  exact UInt8.toNat_ofNat_of_lt' o.short

theorem At.congr (h : At stop m a l) (same : ∀ i, a ≤ i → i < a + ((encode l).length + 1) → m' i = m i) :
    At stop m' a l := by
  unfold At Mem.Holds at *
  rw [List.length_append, List.length_singleton] at *
  rw [Mem.read_congr same]
  exact h

end Tlv

end Lib
