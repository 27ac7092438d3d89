import En675.Isp.AeDrive
import En675.Isp.AeStage

/-! Calls of `AeAdv` with constant settings and a constant error outside of every margin: what each stage does
call by call. -/

namespace En675.Isp

open Lib

/-- The error is above every margin, in the direction `up`. -/
def AeIn.Above (k : AeIn) (up : Bool) : Prop := aeErrMgn < toward up k.iErr

/-- The shaped gains are at least 1. -/
structure AeIn.Shaped (k : AeIn) : Prop where
  sht : k.par.Shaped (clampGain shtMaxGain k.iShtSpd)
  dbl : k.par.Shaped (clampGain shtMaxGain k.iDblSpd)
  agc : k.par.Shaped (clampGain agcMaxGain k.iAgcSpd)

namespace AeIn

variable {k : AeIn} {up : Bool} {mgn : Int}

section limits

theorem agcMax_nonneg : 0 ≤ k.agcMax := by
  have ofst := k.dev.ofst_le
  have lmt : 0 ≤ k.iAgcLmt := by
    unfold iAgcLmt aeGainTgtOfst
    split
    · omega
    · have part : 0 ≤ (k.dev.agcPosMax - 0x80) * (k.up .Agc + k.up .ExtraGain) / 255 :=
        Int.ediv_nonneg (mul_nonneg (by omega) (by omega)) (by decide)
      omega
  have isp : 0 ≤ k.giIspAgcMax := k.dev.pos2Agc_nonneg _ (by omega)
  have sens := k.dev.pos2Agc_nonneg _ lmt
  unfold agcMax
  omega

theorem agcMin_nonneg : 0 ≤ k.agcMin := by
  have ofst := k.dev.ofst_le
  have pos : 0 ≤ k.iAgcMin := by
    unfold iAgcMin
    split
    · omega
    · exact Int.ediv_nonneg (mul_nonneg (by omega) (by omega)) (by decide)
  exact le_min (k.dev.pos2Agc_nonneg _ pos) agcMax_nonneg

theorem agcMin_le : k.agcMin ≤ k.agcMax := min_le_right _ _

theorem deblur (on : k.bDeblurOn = true) : k.shtMax < k.shtDblMax ∧ k.agcMin < k.agcDblMax := of_decide_eq_true on

theorem dss (on : k.bDssOn = true) : k.iShtMaxAgc < k.iShtMaxDss := (of_decide_eq_true on).2

end limits

section error

end error

end AeIn

section calls

variable {k : AeIn} {fuel : Nat} {P Q : AeStage → Prop}

/-- Under every margin that `ErrMgn` gives, a call of the switch ends in `Q`. -/
def Goes (fuel : Nat) (k : AeIn) (Q : AeStage → Prop) (s : AeStage) : Prop :=
  ∀ mgn : Int, 0 ≤ mgn → mgn ≤ aeErrMgn → ∃ t, s.run fuel k mgn = some t ∧ Q t

theorem Goes.mono {s : AeStage} (h : Goes fuel k P s) (sub : ∀ t, P t → Q t) : Goes fuel k Q s := by
  intro mgn nonneg le
  obtain ⟨t, ht, p⟩ := h mgn nonneg le
  exact ⟨t, ht, sub t p⟩

namespace AeSta

/-- What the switch finds, behind `TgtGet`. -/
def found (k : AeIn) (s : AeSta) : AeStage := (s.watch k).toAeStage

structure Seen (k : AeIn) (s : AeSta) : Prop where
  brightness : s.bUpBrightness = k.up .Brightness
  brightnessMin : s.bUpBrightnessMin = k.up .BrightnessMin

theorem Seen.found {s : AeSta} (h : s.Seen k) : s.found k = s.toAeStage := by
  have same : s.tgtChg k = false := decide_eq_false fun chg => chg.elim (absurd h.brightness) (absurd h.brightnessMin)
  have val : s.tgtGet k = s.iTgtVal := by
    unfold tgtGet
    rw [same, if_neg Bool.false_ne_true]
  unfold AeSta.found watch
  rw [val]

theorem errMgn_bounds (s : AeSta) : 0 ≤ s.iErrMgn ∧ s.iErrMgn ≤ aeErrMgn := by
  unfold iErrMgn
  split <;> decide

/-- A state whose next call gets to the switch, which finds `P`. -/
def On (k : AeIn) (P : AeStage → Prop) (s : AeSta) : Prop := s.bInitAe = 0 ∧ P (s.found k)

/-- Behind such a call. -/
def Done (k : AeIn) (P : AeStage → Prop) (s : AeSta) : Prop := s.bInitAe = 0 ∧ s.Seen k ∧ P s.toAeStage

theorem Done.on {s : AeSta} (h : s.Done k P) : s.On k P := ⟨h.1, h.2.1.found.symm ▸ h.2.2⟩

theorem next_of_goes {s : AeSta} (zero : s.bInitAe = 0) (h : Goes fuel k Q (s.found k)) :
    Next (aeAdv fuel k) (Done k Q) s := by
  obtain ⟨nonneg, le⟩ := errMgn_bounds (s.watch k)
  obtain ⟨t, ht, q⟩ := h _ nonneg le
  have zero' : ¬ (s.watch k).bInitAe ≠ 0 := not_not.2 zero
  refine ⟨{ s.watch k with toAeStage := t }, ?_, zero, ⟨rfl, rfl⟩, q⟩
  unfold aeAdv
  dsimp only
  rw [if_neg zero']
  change (Option.map _ ((s.found k).run fuel k _)) = _
  rw [ht]
  rfl

/-- The first calls do not get to the switch. -/
theorem leads_on : Leads (aeAdv fuel k) (fun s => P (s.found k)) (On k P) := by
  refine .of_rank AeSta.bInitAe fun s p => ?_
  by_cases zero : s.bInitAe = 0
  · exact .inl ⟨zero, p⟩
  · refine .inr ⟨{ s.watch k with bInitAe := s.bInitAe - 1 }, if_pos zero, .inr ⟨?_, ?_⟩⟩
    · have seen : Seen k { s.watch k with bInitAe := s.bInitAe - 1 } := ⟨rfl, rfl⟩
      rw [seen.found]
      exact p
    · change s.bInitAe - 1 < s.bInitAe
      omega

/-- The switch is led to a set that it does not leave. -/
theorem settles {s : AeSta} (h : Leads (aeAdv fuel k) (On k P) (On k Q)) (stays : ∀ s, Q s → Goes fuel k Q s)
    (p : P (s.found k)) : Settles (aeAdv fuel k) (Done k Q) s := by
  have done : Leads (aeAdv fuel k) (fun s => P (s.found k)) (Done k Q) :=
    leads_on.trans (h.trans (.of_next (fun s on => next_of_goes on.1 (stays _ on.2)) (.of_imp fun _ on => on)))
  exact done.settles (fun s done => next_of_goes done.1 (stays _ done.on.2)) p

end AeSta

end calls

end En675.Isp
