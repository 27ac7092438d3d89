import Mathlib.Algebra.BigOperators.Group.List.Basic
import Mathlib.Algebra.Ring.Nat

/-! Writing piece by piece into a room, where a piece is cut to what is left of the room and counted against
it, or is written whole and not counted. -/

namespace Lib

structure Piece where
  counted : Bool
  length : Nat

namespace Piece

/-- All there is to write. -/
def total (ps : List Piece) : Nat := (ps.map length).sum

/-- What comes before the first piece that is not counted. -/
def lead (ps : List Piece) : Nat := total (ps.takeWhile counted)

/-- What is written until the room is used up. -/
def written : List Piece → Nat → Nat
  | [], _ => 0
  | p :: ps, room =>
    if room = 0 then 0
    else if p.counted then min p.length room + written ps (room - min p.length room)
    else p.length + written ps room

variable {p : Piece} {ps : List Piece} {room : Nat}

@[simp] theorem total_nil : total [] = 0 := rfl
@[simp] theorem total_cons : total (p :: ps) = p.length + total ps := by
  simp [total]

@[simp] theorem lead_nil : lead [] = 0 := rfl

theorem lead_counted (h : p.counted = true) : lead (p :: ps) = p.length + lead ps := by
  simp [lead, h]

theorem lead_other (h : p.counted = false) : lead (p :: ps) = 0 := by
  simp [lead, h]

@[simp] theorem written_zero (ps : List Piece) : written ps 0 = 0 := by
  cases ps <;> simp [written]

theorem written_counted (h : p.counted = true) :
    written (p :: ps) room = min p.length room + written ps (room - min p.length room) := by
  by_cases zero : room = 0
  · simp [written, zero]
  · simp [written, zero, h]

theorem written_other (h : p.counted = false) (pos : room ≠ 0) :
    written (p :: ps) room = p.length + written ps room := by
  simp [written, pos, h]

theorem written_le_total (ps : List Piece) (room : Nat) : written ps room ≤ total ps := by
  induction ps generalizing room with
  | nil => exact Nat.le_refl 0
  | cons p ps ih =>
    rw [total_cons]
    cases hp : p.counted with
    | true =>
      rw [written_counted hp]
      exact Nat.add_le_add (Nat.min_le_left _ _) (ih _)
    | false =>
      by_cases zero : room = 0
      · rw [zero, written_zero]
        exact Nat.zero_le _
      · rw [written_other hp zero]
        exact Nat.add_le_add_left (ih _) _

/-- A room that is not used up has seen every piece. -/
theorem written_of_lt (h : written ps room < room) : written ps room = total ps := by
  induction ps generalizing room with
  | nil => rfl
  | cons p ps ih =>
    rw [total_cons]
    cases hp : p.counted with
    | true =>
      rw [written_counted hp] at h ⊢
      have fits : p.length < room := by omega
      rw [Nat.min_eq_left (Nat.le_of_lt fits)] at h ⊢
      rw [ih (by omega)]
    | false =>
      rw [written_other hp (by omega)] at h ⊢
      rw [ih (by omega)]

/-- The writing stays in the room exactly if all of it fits, or the room is used up before a piece that is not
counted. -/
theorem written_le_iff (pos : ∀ p ∈ ps, p.counted = false → 0 < p.length) :
    written ps room ≤ room ↔ total ps ≤ room ∨ room ≤ lead ps := by
  induction ps generalizing room with
  | nil => simp [written]
  | cons p ps ih =>
    have ih (r : Nat) : written ps r ≤ r ↔ total ps ≤ r ∨ r ≤ lead ps :=
      ih fun q hq => pos q (List.mem_cons_of_mem _ hq)
    rw [total_cons]
    cases hp : p.counted with
    | true =>
      rw [written_counted hp, lead_counted hp]
      by_cases fits : p.length < room
      · rw [Nat.min_eq_left (Nat.le_of_lt fits)]
        have rest := ih (room - p.length)
        omega
      · rw [Nat.min_eq_right (Nat.le_of_not_lt fits), Nat.sub_self, written_zero]
        omega
    | false =>
      have one := pos p List.mem_cons_self hp
      rw [lead_other hp]
      by_cases zero : room = 0
      · simp [zero]
      · rw [written_other hp zero]
        constructor
        · intro h
          rw [written_of_lt (by omega)] at h
          exact .inl h
        · intro h
          have le := written_le_total ps room
          omega

/-- What stays in the room is the whole, or what fills it. -/
theorem written_of_le (h : written ps room ≤ room) : written ps room = min (total ps) room := by
  have le := written_le_total ps room
  obtain lt | eq := Nat.lt_or_eq_of_le h
  · have whole := written_of_lt lt
    omega
  · omega

end Piece

end Lib
