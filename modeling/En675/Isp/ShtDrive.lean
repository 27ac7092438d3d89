import En675.Isp.AgcDrive
import En675.Isp.ShtPos

/-! The shutter under a constant error: every automatic call that acts pays off what the estimates owe, moves
towards the limit, or hands the step to the gain. -/

namespace En675.Isp

open Lib

namespace Sht

variable {p : AePar} {c : ShtCall} {s t u : Sht} {g : Agc} {up : Bool} {e err ctrl : Int} {fuel : Nat}

/-- A call for an error, without a delay of its own. -/
structure Auto (c : ShtCall) : Prop where
  manual : c.aiShtManual = 0
  dlyOn : c.abDlyOn = false
  le : c.aiShtMin ≤ c.aiShtMax

/-- Where every automatic call leaves the shutter. -/
structure Held (c : ShtCall) (up : Bool) (err : Int) (s : Sht) : Prop where
  ge : c.aiShtMin ≤ s.giShtVal
  le : s.giShtVal ≤ c.aiShtMax
  primed : 0 ≤ toward up (clampErr err - s.iErr1d)

section rank

def owes (p : AePar) (up : Bool) (s : Sht) : Nat := debt up p.shtDly s.iErrEstDly s.iErrEstAc

/-- The lines to the limit in the direction of the error. -/
def lines (c : ShtCall) (up : Bool) (s : Sht) : Nat :=
  if up then (c.aiShtMax - s.giShtVal).toNat else (s.giShtVal - c.aiShtMin).toNat

/-- What is left of the current line. -/
def part (up : Bool) (s : Sht) : Nat := if up then (s.giShtPosP - s.giShtPos).toNat else s.giShtPos.toNat

/-- The place, in the order of the way to the limit. -/
def place (c : ShtCall) (up : Bool) (s : Sht) : ℕ ×ₗ ℕ := toLex (s.lines c up, s.part up)

def rank (p : AePar) (c : ShtCall) (up : Bool) (s : Sht) : ℕ ×ₗ ℕ ×ₗ ℕ := toLex (s.owes p up, s.place c up)

/-- The error wants another line, and the gain of the short lines has to move first. -/
def Stalls (p : AePar) (up : Bool) (ctrl : Int) (s : Sht) : Prop :=
  s.giShtVal = p.giVHssAgcTblEa ∧ if up then ctrl < p.agcMin * 2 ^ 16 else 0 < ctrl

end rank

section move

/-- How a move in the direction of the error ends. -/
inductive Moved (p : AePar) (c : ShtCall) (up : Bool) (ctrl : Int) (s : Sht) : Sht → Bool → Prop
  | goes {t : Sht} : t.place c up < s.place c up → Moved p c up ctrl s t false
  | gains : s.Stalls p up ctrl → Moved p c up ctrl s s true
  | rests : s.lines c up = 0 → Moved p c up ctrl s s false

end move

section auto_

end auto_

section call

theorem Held.found (h : Held c up err s) (auto_ : Auto c) :
    s.found p c = { s with iErr1d := clampErr c.aiErr } := by
  have ge := h.ge
  have le := h.le
  have within : ¬ Limits c { s with iErr1d := clampErr c.aiErr } := by
    rintro (manual | low | high)
    · exact manual auto_.manual
    · exact absurd low (by dsimp only; omega)
    · exact absurd high (by dsimp only; omega)
  unfold Sht.found limit
  rw [if_neg within]

end call

section set

end set

end Sht

end En675.Isp
