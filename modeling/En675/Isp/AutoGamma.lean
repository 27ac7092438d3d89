import En675.Isp.Iir
import En675.Lib.Knots
import En675.Lib.Word

/-! The automatic gamma: between which curves (`AutoGamma`), and their blend (`GetGamma`). -/

namespace En675.Isp

open Lib

/-- `CLAMP`. -/
def clampInt (a lo hi : Int) : Int := if a < lo then lo else if hi < a then hi else a

/-- The same of `UINT`s. -/
def clampNat (a lo hi : Nat) : Nat := if a < lo then lo else if hi < a then hi else a

/-- A quotient of `int`s, where there is one. -/
def idiv (a b : Int) : Option Int := if b = 0 then none else int32 (a.tdiv b)

/-- An `int` that is returned as a `UINT`. -/
def uint32 (n : Int) : Nat := (n % 2 ^ 32).toNat

def Between (x y z : Nat) : Prop := min x y ≤ z ∧ z ≤ max x y

section halves

variable {x y k : Nat}

end halves

section nor

variable {tmax tmin siz base c N : Int}

theorem clampInt_bounds (a : Int) {lo hi : Int} (h : lo ≤ hi) : lo ≤ clampInt a lo hi ∧ clampInt a lo hi ≤ hi := by
  unfold clampInt
  split
  · omega
  · split <;> omega

/-- The targets are as far apart as the curves, and near enough for the shifts. -/
structure Wide (tmax tmin siz : Int) : Prop where
  wide : siz ≤ tmax - tmin
  short : tmax - tmin ≤ 2047
  low : -2048 ≤ tmin

end nor

section curves

variable {a b : Nat}

variable {tmax tmin c : Int}

end curves

section blends

variable {a b : Nat} {tmax tmin lo hi : Int}

end blends

end En675.Isp
