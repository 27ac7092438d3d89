import En675.Isp.AeHandover
import En675.Isp.UsrParRestore

/-! The exposure under a constant error: brighter through `SHT`, `TGT`, `DBL`, `AGC` and `DSS`, darker the way
back.  The ways that end short of the limits are those that `Rises` and `Falls` leave out. -/

namespace En675.Isp

open Lib AeStage AeSta

namespace AeSta

variable {k : AeIn} {f : AeSta → Option AeSta} {P Q : AeStage → Prop} {R : AeSta → Prop}

end AeSta

section goals

end goals

section conditions

/-- From the stage `stg` on the ladder has no dead end upwards. -/
structure AeIn.Rises (k : AeIn) (stg : AeStg) : Prop where
  sht : stg = .irs ∨ stg = .sht → k.shtMin ≤ k.shtMax
  dbl : stg = .dbl → k.bDeblurOn = true ∨
    k.shtMax ≤ k.shtDblMax ∧ DblPasses k true ∧ (k.shtMax = k.shtDblMax ∨ k.bAgcOn = true ∨ k.bDssOn = true)

structure AeIn.Falls (k : AeIn) (stg : AeStg) : Prop where
  sht : k.shtMin ≤ k.shtMax
  dbl : stg = .dbl ∨ (stg = .agc ∨ stg = .dss) ∧ k.bDeblurOn = true → k.shtMax ≤ k.shtDblMax ∧ DblPasses k false
  dss : stg = .dss → k.bDssOn = true → DssPasses k

end conditions

variable {k : AeIn} {fuel : Nat} {s t : AeStage}

section rises

structure TgtTop (k : AeIn) (s : AeStage) : Prop where
  stg : s.gbAeStg = .tgt
  tgt : s.iTgtVal = k.iTgtMin
  sht : s.sht.giShtVal = k.shtMax
  deblur : k.bDeblurOn = false
  agc : k.bAgcOn = false
  dss : k.bDssOn = false

structure DblTop (k : AeIn) (s : AeStage) : Prop where
  at_ : InDbl k true s
  owes : s.sht.owes k.par true = 0
  lines : s.sht.lines (dblCall k) true = 0
  agc : k.bAgcOn = false
  dss : k.bDssOn = false
  order : k.shtMax ≤ k.shtDblMax
  passes : DblPasses k true
  limit : k.iShtMaxAgc = k.shtDblMax

structure AgcTop (k : AeIn) (s : AeStage) : Prop where
  at_ : InAgc k true s
  owes : s.agc.owes k.par true = 0
  away : s.agc.away (agcCall k) true = 0
  dss : k.bDssOn = false

structure DssTop (k : AeIn) (s : AeStage) : Prop where
  at_ : InDss k true s
  owes : s.sht.owes k.par true = 0
  lines : s.sht.lines (dssCall k) true = 0
  dss : k.bDssOn = true

def Top (k : AeIn) (s : AeStage) : Prop := TgtTop k s ∨ DblTop k s ∨ AgcTop k s ∨ DssTop k s

/-- What leads to the brightest picture. -/
def Rising (fuel : Nat) (k : AeIn) (P : AeStage → Prop) : Prop := Leads (aeAdv fuel k) (On k P) (On k (Top k))

end rises

section falls

structure ShtBottom (k : AeIn) (s : AeStage) : Prop where
  at_ : InSht k false s
  owes : s.sht.owes k.par false = 0
  lines : s.sht.lines (shtCall k) false = 0
  order : k.shtMin ≤ k.shtMax

structure TgtBottom (k : AeIn) (s : AeStage) : Prop where
  stg : s.gbAeStg = .tgt
  tgt : s.iTgtVal = k.iTgtMax
  sht : k.bShtOn = false
  order : k.shtMin ≤ k.shtMax

def Bottom (k : AeIn) (s : AeStage) : Prop := ShtBottom k s ∨ TgtBottom k s

/-- What leads to the darkest picture. -/
def Falling (fuel : Nat) (k : AeIn) (P : AeStage → Prop) : Prop := Leads (aeAdv fuel k) (On k P) (On k (Bottom k))

end falls

section reach

namespace AeSta

variable {gain ofst : Nat} {s t : AeSta}

end AeSta

/-- Fuel for the loops of every stage. -/
def AeIn.enough (k : AeIn) : Nat := k.shtMax.toNat + k.shtDblMax.toNat + k.iShtMaxDss.toNat

end reach

section board

instance (k : AeIn) (up : Bool) : Decidable (k.Above up) := inferInstanceAs (Decidable (_ < _))

end board

section reversed

/-! Limits of the shutter in the wrong order: each call sets the other limit and arms the delay again. -/

namespace AeSta

variable {s t : AeSta}

end AeSta

end reversed

end En675.Isp
