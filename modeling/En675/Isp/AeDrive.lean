import En675.Isp.ShtDrive

/-! The shutter and the gain together.  In the stage `SHT` the gain of the short lines is a second controller
inside of the shutter's; in `DBL` and `DSS` the gain is set behind each call from the line. -/

namespace En675.Isp

open Lib

variable {p : AePar} {c : ShtCall} {s t : Sht} {g : Agc} {up : Bool} {fuel : Nat}

namespace Sht

end Sht

section setting

/-! The gain set to `x` of the line. -/

variable {x : Int → Int}

structure SetHeld (c : ShtCall) (x : Int → Int) (up : Bool) (s : Sht) (g : Agc) : Prop where
  sht : Sht.Held c up c.aiErr s
  ctrl : g.giAgcCtrl = x s.giShtVal * 2 ^ 16
  val : g.giAgcVal = x s.giShtVal

end setting

section short

/-! The stage `SHT`. -/

/-- The call of the gain that the stage makes for the short lines. -/
def shortCall (p : AePar) (c : ShtCall) : AgcCall := Sht.agcCall p c (clampErr c.aiErr) true

structure ShortHeld (p : AePar) (c : ShtCall) (up : Bool) (s : Sht) (g : Agc) : Prop where
  sht : Sht.Held c up c.aiErr s
  agc : Agc.Held (shortCall p c) up c.aiErr g

/-- The gain is not at its minimum over the lines that the table does not cover. -/
def unset (p : AePar) (s : Sht) (g : Agc) : Nat :=
  if p.giVHssAgcTblEa < s.giShtVal ∧ g.giAgcCtrl ≠ p.agcMin * 2 ^ 16 then 1 else 0

/-- At a stall the gain is not at its limit yet. -/
theorem Sht.Stalls.away (stalls : s.Stalls p up g.giAgcCtrl) (held : Agc.Held (shortCall p c) up c.aiErr g) :
    g.away (shortCall p c) up ≠ 0 := by
  intro zero
  have at_ := held.away_iff.1 zero
  obtain ⟨-, far⟩ := stalls
  cases up
  · change g.giAgcCtrl = 0 * 2 ^ 16 at at_
    rw [if_neg Bool.false_ne_true] at far
    omega
  · change g.giAgcCtrl = p.agcMin * 2 ^ 16 at at_
    rw [if_pos rfl] at far
    omega

end short

end En675.Isp
