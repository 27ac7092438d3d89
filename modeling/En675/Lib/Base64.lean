import En675.Lib.CString
import Mathlib.Algebra.Ring.Int.Defs
import Mathlib.Algebra.Ring.Nat

/-! Octets from their base64 text. -/

namespace Lib.Base64

def alphabet : List UInt8 := ascii "ABCDEFGHIJKLMNOPQRSTUVWXYZabcdefghijklmnopqrstuvwxyz0123456789+/"

def pad : UInt8 := 61

/-- The six bits of a character. -/
def sextet (c : UInt8) : Option Nat := alphabet.idxOf? c

def bits (a b c d : Nat) : Nat := ((a * 64 + b) * 64 + c) * 64 + d

/-- 24 bits as three octets. -/
def octets (n : Nat) : List UInt8 := [.ofNat (n / 2 ^ 16), .ofNat (n / 2 ^ 8), .ofNat n]

@[simp] theorem octets_length (n : Nat) : (octets n).length = 3 := rfl

/-- A group with no padding. -/
def group (a b c d : UInt8) : Option (List UInt8) := do
  return octets (bits (← sextet a) (← sextet b) (← sextet c) (← sextet d))

/-- The last group, which may be padded. -/
def lastGroup (a b c d : UInt8) : Option (List UInt8) :=
  if d = pad then
    if c = pad then do
      return (octets (bits (← sextet a) (← sextet b) 0 0)).take 1
    else do
      return (octets (bits (← sextet a) (← sextet b) (← sextet c) 0)).take 2
  else group a b c d

def decode : List UInt8 → Option (List UInt8)
  | [] => some []
  | a :: b :: c :: d :: text =>
    if text = [] then lastGroup a b c d
    else do
      let first ← group a b c d
      return first ++ (← decode text)
  | _ => none

theorem sextet_pad : sextet pad = none := by decide

theorem sextet_lt {c : UInt8} {n : Nat} (h : sextet c = some n) : n < 64 := by
  obtain ⟨lt, -⟩ := List.findIdx?_eq_some_iff_getElem.1 h
  exact lt

/-- Groups of four. -/
inductive Whole : List UInt8 → Prop
  | nil : Whole []
  | group {text : List UInt8} (a b c d : UInt8) : Whole text → Whole (a :: b :: c :: d :: text)

theorem whole_of_length (text : List UInt8) (h : text.length % 4 = 0) : Whole text :=
  match text with
  | [] => .nil
  | [_] | [_, _] | [_, _, _] => by simp at h
  | a :: b :: c :: d :: rest => .group a b c d (whole_of_length rest (by simp only [List.length_cons] at h; omega))

namespace Whole

variable {text : List UInt8}

theorem length (h : Whole text) : text.length % 4 = 0 := by
  induction h with
  | nil => rfl
  | group a b c d _ ih =>
    simp only [List.length_cons]
    omega

theorem split (h : Whole text) (some_ : text ≠ []) : ∃ front a b c d, text = front ++ [a, b, c, d] ∧ Whole front := by
  induction h with
  | nil => exact absurd rfl some_
  | @group text a b c d whole ih =>
    by_cases last : text = []
    · exact ⟨[], a, b, c, d, by rw [last]; rfl, .nil⟩
    · obtain ⟨front, a', b', c', d', rfl, rest⟩ := ih last
      exact ⟨a :: b :: c :: d :: front, a', b', c', d', rfl, .group a b c d rest⟩

end Whole

/-- Only whole groups decode. -/
theorem decode_whole {text : List UInt8} (h : (decode text).isSome) : Whole text := by
  induction text using decode.induct with
  | case1 => exact .nil
  | case2 a b c d => exact .group a b c d .nil
  | case3 a b c d text more ih =>
    rw [decode, if_neg more] at h
    refine .group a b c d (ih ?_)
    cases hd : decode text with
    | some _ => rfl
    | none => cases hg : group a b c d <;> simp [hd, hg] at h
  | case4 text short long =>
    rw [decode] at h
    · exact absurd h Bool.false_ne_true
    · exact short
    · exact long

end Lib.Base64
