import En675.Isp.AeRun

/-! What each stage does under a constant error, in either direction: a call hands over to the next stage, lowers
the rank of the stage, or leaves its controllers at rest. -/

namespace En675.Isp

open Lib

/-- The settings and the error of a run, with fuel for its loops. -/
structure AeIn.Steady (k : AeIn) (up : Bool) (fuel : Nat) : Prop where
  above : k.Above up
  shaped : k.Shaped
  sht : k.shtMax.toNat ≤ fuel
  dbl : k.shtDblMax.toNat ≤ fuel
  dss : k.iShtMaxDss.toNat ≤ fuel

namespace AeStage

variable {k : AeIn} {fuel : Nat} {up : Bool} {s t : AeStage} {mgn : Int}

section direction

end direction

section run

end run

section sht

def shtCall (k : AeIn) : ShtCall := shtAuto k 0 k.iShtSpd k.shtMin k.shtMax true

structure InSht (k : AeIn) (up : Bool) (s : AeStage) : Prop where
  stg : s.gbAeStg = .sht
  held : ShortHeld k.par (shtCall k) up s.sht s.agc

end sht

section dbl

def dblCall (k : AeIn) : ShtCall := shtAuto k 0 k.iDblSpd k.shtMax k.shtDblMax false

structure InDbl (k : AeIn) (up : Bool) (s : AeStage) : Prop where
  stg : s.gbAeStg = .dbl
  tgt : up = true → s.iTgtVal = k.iTgtMin
  held : SetHeld (dblCall k) (dblAgc k) up s.sht s.agc

/-- The gain of the stage lets the shutter pass the last line of the table on its way. -/
def DblPasses (k : AeIn) (up : Bool) : Prop :=
  if up then
    k.agcMin ≤ dblAgc k k.dev.gVHssAgcTblEa ∨ k.dev.gVHssAgcTblEa < k.shtMax ∨ k.shtDblMax ≤ k.dev.gVHssAgcTblEa
  else dblAgc k k.dev.gVHssAgcTblEa ≤ 0 ∨ k.dev.gVHssAgcTblEa ≤ k.shtMax ∨ k.shtDblMax < k.dev.gVHssAgcTblEa

end dbl

section agc

def agcCall (k : AeIn) : AgcCall := agcAuto k 0 k.iAgcMinAgc k.agcMax

structure InAgc (k : AeIn) (up : Bool) (s : AeStage) : Prop where
  stg : s.gbAeStg = .agc
  tgt : up = true → s.iTgtVal = k.iTgtMin
  sht : s.sht.giShtVal = k.iShtMaxAgc
  held : Agc.Held (agcCall k) up k.iErr s.agc

/-- At rest the gain has the value of its limit. -/
theorem InAgc.val (h : InAgc k up s) (away : s.agc.away (agcCall k) up = 0) :
    s.agc.giAgcVal = if up then k.agcMax else k.iAgcMinAgc := by
  rw [h.held.val, h.held.away_iff.1 away]
  cases up
  · exact Int.mul_ediv_cancel _ (by decide)
  · exact Int.mul_ediv_cancel _ (by decide)

end agc

section dss

def dssCall (k : AeIn) : ShtCall := shtAuto k 0 k.iShtSpd k.iShtMaxAgc k.iShtMaxDss false

structure InDss (k : AeIn) (up : Bool) (s : AeStage) : Prop where
  stg : s.gbAeStg = .dss
  tgt : up = true → s.iTgtVal = k.iTgtMin
  held : SetHeld (dssCall k) (fun _ => k.agcMax) up s.sht s.agc

/-- The largest gain lets the shutter pass the last line of the table on its way down. -/
def DssPasses (k : AeIn) : Prop :=
  k.agcMax ≤ 0 ∨ k.dev.gVHssAgcTblEa ≤ k.iShtMaxAgc ∨ k.iShtMaxDss < k.dev.gVHssAgcTblEa

end dss

section tgt

end tgt

end AeStage

end En675.Isp
