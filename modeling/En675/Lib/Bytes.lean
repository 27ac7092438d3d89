import Mathlib.Data.List.Basic
import Mathlib.Data.List.Infix
import Mathlib.Tactic.Ring

/-! Octet strings, big-endian words and byte memories.  Nothing here knows about
the camera: the codecs above are written against these few laws. -/

namespace Lib

/-- `n` as `k` big-endian octets, truncated as a store to a `k`-octet field is. -/
def be : Nat → Nat → List UInt8
  | 0, _ => []
  | k + 1, n => be k (n / 256) ++ [UInt8.ofNat n]

def readBE (bs : List UInt8) : Nat := bs.foldl (fun acc b => acc * 256 + b.toNat) 0

@[simp] theorem length_be (k n : Nat) : (be k n).length = k := by
  induction k generalizing n with
  | zero => rfl
  | succ k ih => simp [be, ih]

@[simp] theorem readBE_be (k n : Nat) : readBE (be k n) = n % 256 ^ k := by
  induction k generalizing n with
  | zero => simp [be, readBE, Nat.mod_one]
  | succ k ih =>
    have step : readBE (be (k + 1) n) = readBE (be k (n / 256)) * 256 + n % 256 := by
      simp [be, readBE]
    rw [step, ih, pow_succ']
    rw [Nat.mod_mul]
    ring

theorem readBE_be_of_lt {k n : Nat} (h : n < 256 ^ k) : readBE (be k n) = n := by
  rw [readBE_be, Nat.mod_eq_of_lt h]

/-- The octets `[off, off + len)` of `xs`. -/
def slice (xs : List UInt8) (off len : Nat) : List UInt8 := (xs.drop off).take len

theorem slice_append (a b c : List UInt8) (h : b.length = n) (ha : a.length = m) :
    slice (a ++ b ++ c) m n = b := by
  subst h ha
  simp [slice, List.append_assoc]

/-- Byte-addressed memory. -/
abbrev Mem := Nat → UInt8

namespace Mem

def read (m : Mem) (a : Nat) : Nat → List UInt8
  | 0 => []
  | n + 1 => m a :: read m (a + 1) n

def write (m : Mem) (a : Nat) : List UInt8 → Mem
  | [] => m
  | b :: bs => write (Function.update m a b) (a + 1) bs

@[simp] theorem length_read (m : Mem) (a n : Nat) : (m.read a n).length = n := by
  induction n generalizing a with
  | zero => rfl
  | succ n ih => simp [read, ih]

@[simp] theorem read_zero (m : Mem) (a : Nat) : m.read a 0 = [] := rfl

theorem read_add (m : Mem) (a n k : Nat) :
    m.read a (n + k) = m.read a n ++ m.read (a + n) k := by
  induction n generalizing a with
  | zero => simp
  | succ n ih =>
    rw [show n + 1 + k = (n + k) + 1 by omega, read, ih, read, List.cons_append]
    rw [show a + 1 + n = a + (n + 1) by omega]

theorem getElem_read (m : Mem) (a n i : Nat) (h : i < (m.read a n).length) :
    (m.read a n)[i] = m (a + i) := by
  induction n generalizing a i with
  | zero => simp at h
  | succ n ih =>
    cases i with
    | zero => rfl
    | succ i =>
      simp only [read, List.getElem_cons_succ]
      rw [ih]
      congr 1
      omega

theorem write_of_lt (m : Mem) (a x : Nat) (bs : List UInt8) (h : x < a) :
    m.write a bs x = m x := by
  induction bs generalizing m a with
  | nil => rfl
  | cons b bs ih =>
    rw [write, ih _ _ (by omega), Function.update_of_ne (by omega)]

theorem write_of_ge (m : Mem) (a x : Nat) (bs : List UInt8) (h : a + bs.length ≤ x) :
    m.write a bs x = m x := by
  induction bs generalizing m a with
  | nil => rfl
  | cons b bs ih =>
    simp only [List.length_cons] at h
    rw [write, ih _ _ (by omega), Function.update_of_ne (by omega)]

theorem read_congr {m m' : Mem} {a n : Nat} (h : ∀ i, a ≤ i → i < a + n → m i = m' i) :
    m.read a n = m'.read a n := by
  induction n generalizing a with
  | zero => rfl
  | succ n ih =>
    rw [read, read, h a (le_refl _) (by omega), ih]
    intro i hi hn
    exact h i (by omega) (by omega)

@[simp] theorem read_write (m : Mem) (a : Nat) (bs : List UInt8) :
    (m.write a bs).read a bs.length = bs := by
  induction bs generalizing m a with
  | nil => rfl
  | cons b bs ih =>
    rw [List.length_cons, read, write, ih]
    rw [write_of_lt _ _ _ _ (by omega), Function.update_self]

theorem read_write_below (m : Mem) (a n k : Nat) (bs : List UInt8) (h : a + n ≤ k) :
    (m.write k bs).read a n = m.read a n :=
  read_congr fun i _ hn => write_of_lt m k i bs (by omega)

theorem write_append (m : Mem) (a : Nat) (xs ys : List UInt8) :
    m.write a (xs ++ ys) = (m.write a xs).write (a + xs.length) ys := by
  induction xs generalizing m a with
  | nil => rfl
  | cons x xs ih =>
    rw [List.cons_append, write, write, ih, List.length_cons, Nat.add_right_comm, Nat.add_assoc]

theorem write_update (m : Mem) (ys : List UInt8) (x : UInt8) (h : a < k) :
    Function.update (m.write k ys) a x = write (Function.update m a x) k ys := by
  induction ys generalizing m k with
  | nil => rfl
  | cons y ys ih =>
    rw [write, write, ih _ (by omega), Function.update_comm (by omega)]

/-- A store in front of another may be the later one. -/
theorem write_front (m : Mem) (a : Nat) (xs ys : List UInt8) :
    (m.write (a + xs.length) ys).write a xs = m.write a (xs ++ ys) := by
  induction xs generalizing m a with
  | nil => rfl
  | cons x xs ih =>
    rw [List.length_cons, write, write_update _ _ _ (by omega), List.cons_append, write, ← ih]
    rw [Nat.add_right_comm, Nat.add_assoc]

/-- What is read across the end of a store. -/
theorem read_write_over (m : Mem) (a n : Nat) (xs : List UInt8) (h : xs.length ≤ n) :
    (m.write a xs).read a n = xs ++ m.read (a + xs.length) (n - xs.length) := by
  rw [show n = xs.length + (n - xs.length) by omega, read_add, read_write, Nat.add_sub_cancel_left]
  exact congrArg _ (read_congr fun i hi _ => write_of_ge m a i xs hi)

theorem read_write_take (m : Mem) (a n : Nat) (xs : List UInt8) (h : n ≤ xs.length) :
    (m.write a xs).read a n = xs.take n := by
  conv_lhs => rw [← List.take_append_drop n xs, write_append]
  rw [List.length_take, Nat.min_eq_left h, read_write_below _ _ _ _ _ (le_refl _)]
  have e := read_write m a (xs.take n)
  rwa [List.length_take, Nat.min_eq_left h] at e

/-- The octets `bs` lie in memory at `a`. -/
def Holds (m : Mem) (a : Nat) (bs : List UInt8) : Prop := m.read a bs.length = bs

def ofList (xs : List UInt8) : Mem := fun i => xs.getD i 0

theorem holds_ofList (xs : List UInt8) : (ofList xs).Holds 0 xs := by
  unfold Holds
  apply List.ext_getElem (by simp)
  intro i h _
  rw [getElem_read, Nat.zero_add, ofList, List.getD_eq_getElem?_getD, List.getElem?_eq_getElem,
    Option.getD_some]

theorem Holds.append {m : Mem} {xs ys : List UInt8} :
    m.Holds a (xs ++ ys) ↔ m.Holds a xs ∧ m.Holds (a + xs.length) ys := by
  unfold Holds
  rw [List.length_append, read_add]
  constructor
  · intro h
    exact List.append_inj h (by simp)
  · rintro ⟨hx, hy⟩
    rw [hx, hy]

theorem Holds.get {m : Mem} {bs : List UInt8} (h : m.Holds a bs) (hi : i < bs.length) :
    m (a + i) = bs[i] := by
  rw [← getElem_read m a bs.length i (by simpa using hi)]
  congr 1

theorem Holds.tail {m : Mem} (h : m.Holds a (b :: bs)) : m.Holds (a + 1) bs := by
  change m.Holds a ([b] ++ bs) at h
  exact (Holds.append.1 h).2

theorem Holds.read_take {m : Mem} {bs : List UInt8} (h : m.Holds a bs) (hn : n ≤ bs.length) :
    m.read a n = bs.take n := by
  have hs : bs = bs.take n ++ bs.drop n := (List.take_append_drop n bs).symm
  rw [hs] at h
  have := (Holds.append.1 h).1
  unfold Holds at this
  rwa [List.length_take, min_eq_left hn] at this

end Mem

end Lib
