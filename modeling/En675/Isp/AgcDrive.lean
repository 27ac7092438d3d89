import En675.Lib.Settles
import En675.Isp.AeDebt

/-! The gain under a constant error: every automatic call brings it closer to its limit, in the order of what
the estimates still owe, the distance, and the delay. -/

namespace En675.Isp

open Lib

/-- The error is outside of the margin, and no estimate of it is rounded to 0. -/
structure Strong (up : Bool) (mgn err : Int) : Prop where
  nonneg : 0 ≤ mgn
  lt : mgn < toward up (clampErr err)
  four_le : 4 ≤ toward up (clampErr err)

theorem Strong.out (h : Strong up mgn err) : ¬ (-mgn ≤ clampErr err ∧ clampErr err ≤ mgn) := by
  have lt := h.lt
  cases up
  · change mgn < -clampErr err at lt
    omega
  · change mgn < clampErr err at lt
    omega

/-- The shaped gain is at least 1. -/
def AePar.Shaped (p : AePar) (gain : Int) : Prop := ∀ est, 1 ≤ p.shape est gain

theorem AePar.Shaped.errPos {p : AePar} (h : p.Shaped gain) (off : p.errEstOff = false) (one : 1 ≤ toward up est) :
    1 ≤ toward up (p.errPos err est gain) := by
  have pos := mul_pos (show 0 < toward up est by omega) (show 0 < p.shape est gain by have := h est; omega)
  unfold AePar.errPos
  rw [off, if_neg Bool.false_ne_true, mul_comm, toward_mul, mul_comm]
  omega

namespace Agc

variable {p : AePar} {c : AgcCall} {s t : Agc} {up : Bool} {err : Int}

section finish

/-- What `finish` does to each field. -/
structure Finished (p : AePar) (c : AgcCall) (est : Int) (s t : Agc) : Prop where
  err : t.iErr1d = s.iErr1d
  ctrl : t.giAgcCtrl = (s.clampCtrl c).giAgcCtrl
  val : t.giAgcVal = t.giAgcCtrl / 2 ^ 16
  dly : s.giAgcVal = t.giAgcVal → t.gbAgcDly = s.gbAgcDly
  released : ∃ new, t.iErrEstDly = shiftDly p.agcDly c.abEstOn new s.iErrEstDly ∧
    Released (s.iErrEstAc + est) t.iErrEstAc new

end finish

section call

/-- A call for an error, without a delay of its own. -/
structure Auto (c : AgcCall) : Prop where
  manual : c.manual = none
  dlyOn : c.abDlyOn = false
  le : c.aiAgcMin ≤ c.aiAgcMax

/-- `iErrEst`. -/
def est (p : AePar) (c : AgcCall) (s : Agc) : Int :=
  errEst 270 135 (clampErr c.aiErr) (s.iErrEstDly p.agcDly) (clampErr c.aiErr - s.iErr1d)

/-- `iErrPos`. -/
def errPos (p : AePar) (c : AgcCall) (s : Agc) : Int :=
  p.errPos (clampErr c.aiErr) (s.est p c) (clampGain agcMaxGain c.aiGain)

/-- Where every automatic call leaves the gain. -/
structure Held (c : AgcCall) (up : Bool) (err : Int) (s : Agc) : Prop where
  ge : c.aiAgcMin * 2 ^ 16 ≤ s.giAgcCtrl
  le : s.giAgcCtrl ≤ c.aiAgcMax * 2 ^ 16
  val : s.giAgcVal = s.giAgcCtrl / 2 ^ 16
  primed : 0 ≤ toward up (clampErr err - s.iErr1d)

theorem clampCtrl_within (auto_ : Auto c) (s : Agc) :
    c.aiAgcMin * 2 ^ 16 ≤ (s.clampCtrl c).giAgcCtrl ∧ (s.clampCtrl c).giAgcCtrl ≤ c.aiAgcMax * 2 ^ 16 := by
  have le := auto_.le
  unfold clampCtrl
  dsimp only
  split
  · omega
  · split <;> omega

theorem Held.clampCtrl (h : Held c up err s) : (s.clampCtrl c).giAgcCtrl = s.giAgcCtrl := by
  have ge := h.ge
  have le := h.le
  unfold Agc.clampCtrl
  dsimp only
  rw [if_neg (by omega), if_neg (by omega)]

theorem Finished.held (h : Finished p c e s t) (auto_ : Auto c) (primed : 0 ≤ toward up (clampErr err - s.iErr1d)) :
    Held c up err t := by
  obtain ⟨ge, le⟩ := clampCtrl_within auto_ s
  exact ⟨h.ctrl ▸ ge, h.ctrl ▸ le, h.val, h.err ▸ primed⟩

end call

section rank

/-- The limit in the direction of the error. -/
def limit (c : AgcCall) (up : Bool) : Int := if up then c.aiAgcMax else c.aiAgcMin

/-- What the estimates owe, and how far the gain is from the limit. -/
def owes (p : AePar) (up : Bool) (s : Agc) : Nat := debt up p.agcDly s.iErrEstDly s.iErrEstAc

def away (c : AgcCall) (up : Bool) (s : Agc) : Nat := (toward up (limit c up * 2 ^ 16 - s.giAgcCtrl)).toNat

def rank (p : AePar) (c : AgcCall) (up : Bool) (s : Agc) : ℕ ×ₗ ℕ ×ₗ ℕ :=
  toLex (s.owes p up, toLex (s.away c up, s.gbAgcDly))

theorem Held.away_iff (h : Held c up err s) : s.away c up = 0 ↔ s.giAgcCtrl = limit c up * 2 ^ 16 := by
  have ge := h.ge
  have le := h.le
  unfold Agc.away limit
  cases up
  · change (-(c.aiAgcMin * 2 ^ 16 - s.giAgcCtrl)).toNat = 0 ↔ s.giAgcCtrl = c.aiAgcMin * 2 ^ 16
    omega
  · change (c.aiAgcMax * 2 ^ 16 - s.giAgcCtrl).toNat = 0 ↔ s.giAgcCtrl = c.aiAgcMax * 2 ^ 16
    omega

theorem Finished.owes_le (h : Finished p c 0 s t) : t.owes p up ≤ s.owes p up := by
  obtain ⟨new, line, released⟩ := h.released
  unfold owes
  rw [line]
  exact debt_wait (Nat.le_of_lt_succ p.agcDly.isLt) ((add_zero s.iErrEstAc) ▸ released)

/-- Behind a delay, or without an error. -/
theorem Finished.rests (up : Bool) (err : Int) (h : Finished p c 0 s t) (held : Held c up err s) :
    t.giAgcCtrl = s.giAgcCtrl ∧ t.gbAgcDly = s.gbAgcDly ∧ t.owes p up ≤ s.owes p up := by
  have ctrl : t.giAgcCtrl = s.giAgcCtrl := h.ctrl.trans held.clampCtrl
  exact ⟨ctrl, h.dly (by rw [held.val, h.val, ctrl]), h.owes_le⟩

end rank

section set

end set

end Agc

end En675.Isp
