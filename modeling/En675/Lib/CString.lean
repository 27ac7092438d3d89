import Mathlib.Data.List.Basic
import Mathlib.Data.List.Infix
import Mathlib.Algebra.Ring.Int.Defs
import Mathlib.Algebra.Ring.Nat

/-! The string functions of C on octet lists: searching, number scanning and the few
`printf` conversions.  A C string is the list of its octets without the closing NUL. -/

namespace Lib

/-- The octets of a string literal. -/
def ascii (s : String) : List UInt8 := s.toByteArray.data.toList

def crlf : List UInt8 := [13, 10]

theorem dropLast_crlf (xs : List UInt8) : (xs ++ crlf).dropLast.dropLast = xs := by
  rw [crlf, List.append_cons, List.dropLast_concat, List.dropLast_concat]

/-- The string that starts at a pointer to `xs`. -/
def cstr (xs : List UInt8) : List UInt8 := xs.takeWhile (· ≠ 0)

section parts

variable {α : Type}

/-- A text without `c` that is not in front of `c` is behind it. -/
theorem behind_of_not_infix {c : α} {pat a b u v : List α} (free : c ∉ pat) (h : ¬pat <:+: a)
    (eq : u ++ pat ++ v = a ++ c :: b) : ∃ w, b = w ++ pat ++ v := by
  rcases List.append_eq_append_iff.1 eq with ⟨x, rfl, -⟩ | ⟨x, split, tail⟩
  · exact absurd ⟨u, x, rfl⟩ h
  · cases x with
    | nil =>
      rw [List.append_nil] at split
      exact absurd ⟨u, [], by rw [split, List.append_nil]⟩ h
    | cons y x =>
      obtain ⟨rfl, rfl⟩ := List.cons.inj tail
      rcases List.append_eq_append_iff.1 split with ⟨w, rfl, inside⟩ | ⟨w, -, inside⟩
      · exact absurd (inside ▸ List.mem_append_right w List.mem_cons_self) free
      · cases w with
        | nil =>
          rw [List.nil_append] at inside
          exact absurd (inside ▸ List.mem_cons_self) free
        | cons y w =>
          obtain ⟨-, rfl⟩ := List.cons.inj inside
          exact ⟨w, rfl⟩

theorem infix_append_cons {c : α} {pat a b : List α} (free : c ∉ pat) (h : pat <:+: a ++ c :: b) :
    pat <:+: a ∨ pat <:+: b := by
  by_cases front : pat <:+: a
  · exact Or.inl front
  · obtain ⟨u, v, eq⟩ := h
    obtain ⟨w, rfl⟩ := behind_of_not_infix free front eq
    exact Or.inr ⟨w, v, rfl⟩

theorem prefix_append_cons {c : α} {pat a b : List α} (free : c ∉ pat) (h : pat <+: a ++ c :: b) : pat <+: a := by
  rcases List.prefix_or_prefix_of_prefix h (List.prefix_append a (c :: b)) with pre | ⟨x, rfl⟩
  · exact pre
  · cases x with
    | nil => rw [List.append_nil]
    | cons y x =>
      obtain ⟨rfl, -⟩ := List.cons_prefix_cons.1 ((List.prefix_append_right_inj a).1 h)
      exact absurd (List.mem_append_right a List.mem_cons_self) free

/-- What is between two separators. -/
theorem not_mem_of_mem_splitOn [DecidableEq α] {sep : α} {xs part : List α}
    (h : part ∈ xs.splitOn sep) : sep ∉ part ∧ ∀ c ∈ part, c ∈ xs := by
  induction xs generalizing part with
  | nil =>
    rw [List.splitOn_nil, List.mem_singleton] at h
    exact ⟨h ▸ List.not_mem_nil, h ▸ fun _ => id⟩
  | cons x xs ih =>
    rw [List.splitOn_cons_eq_if_modifyHead] at h
    split at h
    · rcases List.mem_cons.1 h with rfl | mem
      · exact ⟨List.not_mem_nil, fun _ c => absurd c List.not_mem_nil⟩
      · exact ⟨(ih mem).1, fun c mem' => List.mem_cons_of_mem x ((ih mem).2 c mem')⟩
    · rename_i ne
      cases parts : xs.splitOn sep with
      | nil => exact absurd parts (List.splitOn_ne_nil sep xs)
      | cons q qs =>
        rw [parts] at ih h
        rcases List.mem_cons.1 h with rfl | mem
        · obtain ⟨free, sub⟩ := ih List.mem_cons_self
          constructor
          · intro mem
            rcases List.mem_cons.1 mem with same | mem
            · exact ne (beq_iff_eq.2 same.symm)
            · exact free mem
          · intro c mem
            rcases List.mem_cons.1 mem with rfl | mem
            · exact List.mem_cons_self
            · exact List.mem_cons_of_mem x (sub c mem)
        · obtain ⟨free, sub⟩ := ih (List.mem_cons_of_mem q mem)
          exact ⟨free, fun c mem => List.mem_cons_of_mem x (sub c mem)⟩

end parts

section search

variable {α : Type} [DecidableEq α]

/-- `strstr` and `strchr`: the text before the first `pat` and the text after it. -/
def cut (pat : List α) : List α → Option (List α × List α)
  | [] => if pat.isEmpty then some ([], []) else none
  | x :: xs =>
    if pat.isPrefixOf (x :: xs) then some ([], (x :: xs).drop pat.length)
    else (cut pat xs).map fun r => (x :: r.1, r.2)

theorem cut_eq {pat s a b : List α} (h : cut pat s = some (a, b)) : s = a ++ pat ++ b := by
  induction s generalizing a with
  | nil =>
    cases pat with
    | nil =>
      cases h
      rfl
    | cons p pat => cases h
  | cons x xs ih =>
    rw [cut] at h
    split at h
    · rename_i hp
      cases h
      rw [List.nil_append]
      exact List.prefix_iff_eq_append.mp (List.isPrefixOf_iff_prefix.mp hp) |>.symm
    · rw [Option.map_eq_some_iff] at h
      obtain ⟨⟨a', b'⟩, hc, he⟩ := h
      cases he
      rw [List.cons_append, List.cons_append, ← ih hc]

theorem cut_length {pat s a b : List α} (h : cut pat s = some (a, b)) :
    b.length + pat.length ≤ s.length := by
  rw [cut_eq h, List.length_append, List.length_append]
  omega

/-- What is found is the first occurrence. -/
theorem cut_first {pat s a b q t : List α} (h : cut pat s = some (a, b)) (hs : s = q ++ pat ++ t) :
    a.length ≤ q.length := by
  induction s generalizing a q with
  | nil =>
    rw [cut] at h
    split at h
    · cases h
      exact Nat.zero_le _
    · cases h
  | cons x xs ih =>
    rw [cut] at h
    split at h
    · cases h
      exact Nat.zero_le _
    · rename_i hp
      rw [Option.map_eq_some_iff] at h
      obtain ⟨⟨a', b'⟩, hc, he⟩ := h
      cases he
      cases q with
      | nil =>
        rw [hs, List.nil_append] at hp
        exact absurd (List.isPrefixOf_iff_prefix.mpr (List.prefix_append pat t)) hp
      | cons y q =>
        rw [List.cons_append, List.cons_append] at hs
        exact Nat.succ_le_succ (ih hc (List.cons.inj hs).2)

/-- A text without the first character of `pat` is what `strstr` finds in front of it. -/
theorem cut_append {p : α} {pat a b : List α} (h : p ∉ a) :
    cut (p :: pat) (a ++ (p :: pat ++ b)) = some (a, b) := by
  induction a with
  | nil =>
    have hp : (p :: pat).isPrefixOf (p :: pat ++ b) = true :=
      List.isPrefixOf_iff_prefix.mpr (List.prefix_append _ _)
    rw [List.cons_append] at hp
    rw [List.nil_append, List.cons_append, cut, if_pos hp, ← List.cons_append, List.drop_left]
  | cons x a ih =>
    have hx : p ≠ x := fun he => h (he ▸ List.mem_cons_self)
    have hp : ¬ (p :: pat).isPrefixOf (x :: (a ++ (p :: pat ++ b))) = true := by
      rw [List.isPrefixOf_cons_cons, beq_false_of_ne hx]
      exact Bool.false_ne_true
    rw [List.cons_append, cut, if_neg hp, ih fun ha => h (List.mem_cons_of_mem _ ha)]
    rfl

theorem cut_cons_of_not {pat xs : List α} {x : α} (h : ¬pat <+: x :: xs) :
    cut pat (x :: xs) = (cut pat xs).map fun r => (x :: r.1, r.2) := by
  rw [cut, if_neg fun c => h (List.isPrefixOf_iff_prefix.mp c)]

theorem cut_front (pat b : List α) : cut pat (pat ++ b) = some ([], b) := by
  have front : pat.isPrefixOf (pat ++ b) = true := List.isPrefixOf_iff_prefix.mpr (List.prefix_append pat b)
  match h : pat ++ b with
  | [] =>
    obtain ⟨rfl, rfl⟩ := List.append_eq_nil_iff.1 h
    rfl
  | x :: xs =>
    rw [h] at front
    rw [cut, if_pos front, ← h, List.drop_left]

/-- Something is found where it is. -/
theorem cut_isSome_iff {pat s : List α} : (cut pat s).isSome ↔ pat <:+: s := by
  constructor
  · intro h
    obtain ⟨⟨a, b⟩, found⟩ := Option.isSome_iff_exists.1 h
    exact ⟨a, b, (cut_eq found).symm⟩
  · rintro ⟨q, t, rfl⟩
    induction q with
    | nil => rw [List.nil_append, cut_front]; rfl
    | cons x q ih =>
      by_cases front : pat <+: x :: (q ++ pat ++ t)
      · obtain ⟨b, hb⟩ := front
        rw [List.cons_append, List.cons_append, ← hb, cut_front]
        rfl
      · rw [List.cons_append, List.cons_append, cut_cons_of_not front, Option.isSome_map]
        exact ih

/-- What is in front is found there or not at all, and is skipped. -/
theorem cut_skip {pat a b : List α} (h : ∀ u v, a = u ++ v → v ≠ [] → ¬pat <+: v ++ b) :
    cut pat (a ++ b) = (cut pat b).map fun r => (a ++ r.1, r.2) := by
  induction a with
  | nil => exact (congrFun Option.map_id (cut pat b)).symm
  | cons x a ih =>
    have here : ¬pat <+: x :: (a ++ b) := h [] (x :: a) rfl (List.cons_ne_nil x a)
    have later := ih fun u v eq => h (x :: u) v (eq ▸ rfl)
    rw [List.cons_append, cut_cons_of_not here, later, Option.map_map]
    rfl

theorem cut_skip_of_not_mem {c : α} {pat a b : List α} (h : c ∉ a) :
    cut (c :: pat) (a ++ b) = (cut (c :: pat) b).map fun r => (a ++ r.1, r.2) := by
  apply cut_skip
  rintro u (_ | ⟨x, v⟩) eq ne pre
  · exact ne rfl
  · obtain ⟨rfl, -⟩ := List.cons_prefix_cons.1 pre
    exact h (eq ▸ List.mem_append_right u List.mem_cons_self)

theorem cut_not_mem {c : α} {s a b : List α} (h : cut [c] s = some (a, b)) : c ∉ a := by
  intro mem
  obtain ⟨q, t, rfl⟩ := List.append_of_mem mem
  have first := cut_first (q := q) (t := t ++ [c] ++ b) h (by rw [cut_eq h]; simp)
  rw [List.length_append, List.length_cons] at first
  omega

theorem cut_eq_none {c : α} {s : List α} : cut [c] s = none ↔ c ∉ s := by
  rw [← Option.not_isSome_iff_eq_none, cut_isSome_iff, List.singleton_infix_iff]

/-- What is found stays the first when the text goes on. -/
theorem cut_append_right {pat s a b : List α} (t : List α) (h : cut pat s = some (a, b)) :
    cut pat (s ++ t) = some (a, b ++ t) := by
  have split := cut_eq h
  obtain ⟨⟨a', b'⟩, found⟩ := Option.isSome_iff_exists.1 (cut_isSome_iff.2 ⟨a, b ++ t, rfl⟩)
  have whole : s ++ t = a ++ pat ++ (b ++ t) := by rw [split, List.append_assoc]
  have le : a'.length ≤ a.length := cut_first found rfl
  have eq := cut_eq found
  have here : a' ++ pat <+: s ++ t := by
    rw [whole, eq]
    exact List.prefix_append ..
  have short : (a' ++ pat).length ≤ s.length := by
    rw [split]
    simp only [List.length_append]
    omega
  have front := List.prefix_of_prefix_length_le here (List.prefix_append s t) short
  obtain ⟨rest, hrest⟩ := front
  have ge : a.length ≤ a'.length := cut_first h hrest.symm
  rw [List.append_assoc, List.append_assoc] at eq
  obtain ⟨rfl, rest_eq⟩ := List.append_inj eq (Nat.le_antisymm ge le)
  rw [whole, found, List.append_cancel_left rest_eq]

/-- `strstr(s, pat) != NULL`. -/
def contains (pat s : List α) : Bool := (cut pat s).isSome

end search

section scan

def isSpace (b : UInt8) : Bool := b == 32 || (9 ≤ b && b ≤ 13)

def isDigit (b : UInt8) : Bool := 48 ≤ b && b ≤ 57

def readDec (ds : List UInt8) : Nat := ds.foldl (fun n d => n * 10 + (d.toNat - 48)) 0

/-- A sign in front of the digits. -/
def scanSign : List UInt8 → Bool × List UInt8
  | 45 :: xs => (true, xs)
  | 43 :: xs => (false, xs)
  | xs => (false, xs)

/-- `strtol` clamps to a 64-bit `long`. -/
def clampLong (neg : Bool) (n : Nat) : Int := if neg then -(min n (2 ^ 63)) else min n (2 ^ 63 - 1)

/-- The 32-bit `int` a `long` is stored to. -/
def toInt32 (n : Int) : Int := (n + 2 ^ 31) % 2 ^ 32 - 2 ^ 31

/-- The conversion `%d` of `sscanf`. -/
def scanInt (s : List UInt8) : Option (Int × List UInt8) :=
  let (neg, s) := scanSign (s.dropWhile isSpace)
  let ds := s.takeWhile isDigit
  if ds.isEmpty then none else some (toInt32 (clampLong neg (readDec ds)), s.drop ds.length)

def atoi (s : List UInt8) : Int := ((scanInt s).map Prod.fst).getD 0

/-- `sscanf(s, "%d-%d", &a, &b)`: what it leaves in `a` and `b`. -/
def scanPair (s : List UInt8) (a b : Int) : Int × Int :=
  match scanInt s with
  | none => (a, b)
  | some (a, 45 :: s) => (a, ((scanInt s).map Prod.fst).getD b)
  | some (a, _) => (a, b)

end scan

section print

def digits (base n : Nat) : List UInt8 :=
  (Nat.toDigits base n).map fun c => UInt8.ofNat c.toNat

theorem digit_range (h : b ∈ digits 10 n) : 48 ≤ b.toNat ∧ b.toNat ≤ 57 := by
  rw [digits, List.mem_map] at h
  obtain ⟨c, hc, rfl⟩ := h
  have range := Nat.isDigit_of_mem_toDigits (by decide) (by decide) hc
  simp only [Char.isDigit, Bool.and_eq_true, decide_eq_true_eq, ge_iff_le, UInt32.le_iff_toNat_le] at range
  have lo : 48 ≤ c.toNat := range.1
  have hi : c.toNat ≤ 57 := range.2
  have same : (UInt8.ofNat c.toNat).toNat = c.toNat := Nat.mod_eq_of_lt (by omega)
  rw [same]
  exact ⟨lo, hi⟩

/-- `%u` of a 32-bit word. -/
def dec (n : Int) : List UInt8 := digits 10 (n % 2 ^ 32).toNat

theorem cr_not_mem_dec (n : Int) : (13 : UInt8) ∉ dec n :=
  fun h => absurd (digit_range h).1 (by decide)

/-- `%d`. -/
def sdec (n : Int) : List UInt8 := if n < 0 then 45 :: digits 10 n.natAbs else digits 10 n.natAbs

/-- Pads to a width, as `%8x` and `%02u` do. -/
def padLeft (fill : UInt8) (width : Nat) (s : List UInt8) : List UInt8 :=
  List.replicate (width - s.length) fill ++ s

end print

end Lib
