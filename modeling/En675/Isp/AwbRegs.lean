import En675.Isp.Awb
import En675.Lib.Transition

/-! The matrices of the white balance in their registers, each coefficient as a magnitude with a sign bit over it. -/

namespace En675.Isp

open Lib

/-- A register of a magnitude of `bit` bits and a sign. -/
structure Coded (bit reg : Nat) (val : Int) : Prop where
  magnitude : val.natAbs < 2 ^ bit
  reg : reg = (if val < 0 then 2 ^ bit else 0) + val.natAbs

/-- What is expected of a call that is not left at once: no product overflows, the gains stay within the limits, and
no magnitude reaches its sign. -/
structure Sound (u : AwbPar) (f : AwbFrame) (s t : AwbState) (o : AwbOut) : Prop where
  ratio : u.awb ≠ upAwbMnl → ¬Held u f s → ccSum f f.ccg * awbGainDflt < 2 ^ 32
  filterR : u.speed * s.gnAwbRGainIIR + (0x100 - u.speed) * (o.nRGain <<< 4) < 2 ^ 32
  filterB : u.speed * s.gnAwbBGainIIR + (0x100 - u.speed) * (o.nBGain <<< 4) < 2 ^ 32
  finalR : (t.gnAwbRGainIIR >>> 4) * o.iWgt * (32 + bMpSaturation f u.saturationR) < 2 ^ 32
  finalG : awbGainDflt * o.iWgt * (32 + bMpSaturation f u.saturationG) < 2 ^ 31
  finalB : (t.gnAwbBGainIIR >>> 4) * o.iWgt * (32 + bMpSaturation f u.saturationB) < 2 ^ 32
  insideR : ∀ low, u.awbGainMin = some low → low <<< 4 ≤ s.gnAwbRGainIIR → s.gnAwbRGainIIR ≤ u.awbGainMax <<< 4 →
    low <<< 4 ≤ t.gnAwbRGainIIR ∧ t.gnAwbRGainIIR ≤ u.awbGainMax <<< 4
  insideB : ∀ low, u.awbGainMin = some low → low <<< 4 ≤ s.gnAwbBGainIIR → s.gnAwbBGainIIR ≤ u.awbGainMax <<< 4 →
    low <<< 4 ≤ t.gnAwbBGainIIR ∧ t.gnAwbBGainIIR ≤ u.awbGainMax <<< 4
  pre : ∀ i j, Coded 11 (o.preReg i j) (o.pre i j)
  post : ∀ i j, Coded 12 (o.postReg i j) (o.post i j)

/-- A call is right.  One that divides by zero, or in which a product of `int`s overflows, has no result. -/
def Safe (sp : AwbSens) (s : AwbState) (c : AwbPar × AwbFrame) : Prop :=
  ∃ t r, awb sp c.1 c.2 s = some (t, r) ∧ ∀ o, r = some o → Sound c.1 c.2 s t o

def awbNext (sp : AwbSens) (s : AwbState) (c : AwbPar × AwbFrame) : Option AwbState :=
  (awb sp c.1 c.2 s).map Prod.fst

/-- Between the limits and what has been. -/
def Spans (old lo hi x : Int) : Prop := min old lo ≤ x ∧ x ≤ max old hi

/-- The final gain before it is scaled, with the largest weight. -/
def finalMax (f : AwbFrame) (nGain : Nat) (saturation : UInt8) : Nat := nGain * 0x100 * (32 + bMpSaturation f saturation)

/-- A row fits with the largest gain: by day the gain is at most weighted with `0x100`. -/
structure RowFits (sp : AwbSens) (f : AwbFrame) (s : AwbState) (nGain : Nat) (saturation : UInt8) (i : Fin 3) :
    Prop where
  gain : finalMax f nGain saturation < 2 ^ 32
  row : ∀ x y, Spans (s.giAwbDbIIR >>> (4 : Nat)) sp.dbMin sp.dbMax x →
    Spans (s.giAwbDrIIR >>> (4 : Nat)) sp.drMin sp.drMax y →
    ∀ j, ((preMatrix (f.giCmat x y) i j * (finalMax f nGain saturation >>> 14 : Nat)) >>> (8 : Nat)).natAbs < 2 ^ 12

/-- The condition on a call: there are limits, no count is zero where it divides, the ratio of the gains fits, and by
day every row fits with the limit of its gain, or with the gain that is left of an earlier limit. -/
structure Meets (sp : AwbSens) (u : AwbPar) (f : AwbFrame) (s : AwbState) : Prop where
  times : u.awbGainTimes ≠ 0
  count : Divides u f s → f.cct ≠ 0
  ratio : u.awb ≠ upAwbMnl → ¬Held u f s → f.cct ≠ 0 → f.ccg.toNat < 2 ^ 22 * f.cct
  rowR : f.night = false → RowFits sp f s (max (s.gnAwbRGainIIR >>> 4) u.awbGainMax) u.saturationR 0
  rowG : f.night = false → RowFits sp f s awbGainDflt u.saturationG 1
  rowB : f.night = false → RowFits sp f s (max (s.gnAwbBGainIIR >>> 4) u.awbGainMax) u.saturationB 2

def Fit (sp : AwbSens) (s : AwbState) (c : AwbPar × AwbFrame) : Prop := c.2.wdrLong = false → Meets sp c.1 c.2 s

section coded

variable {bit : Nat} {val : Int}

theorem signAbs_coded (h : val.natAbs < 2 ^ bit) : Coded bit (signAbs bit val % 2 ^ (bit + 1)) val := by
  refine ⟨h, ?_⟩
  have double : 2 ^ (bit + 1) = 2 * 2 ^ bit := by rw [Nat.pow_succ, Nat.mul_comm]
  unfold signAbs
  split
  · have mag : (-val).toNat = val.natAbs := by omega
    rw [mag, ← Nat.shiftLeft_add_eq_or_of_lt h, Nat.one_shiftLeft, Nat.mod_eq_of_lt (by omega)]
  · rw [Nat.mod_eq_of_lt (by omega)]
    omega

/-- A coefficient of the diagonal is not negative. -/
theorem uint32_coded {w : Nat} (h : val.natAbs < 2 ^ bit) (nonneg : 0 ≤ val) (le : bit ≤ w) (small : w ≤ 32) :
    Coded bit (uint32 val % 2 ^ w) val := by
  have fits : val.natAbs < 2 ^ w := Nat.lt_of_lt_of_le h (Nat.pow_le_pow_right (by decide) le)
  have wide : val.natAbs < 2 ^ 32 := Nat.lt_of_lt_of_le fits (Nat.pow_le_pow_right (by decide) small)
  have same : uint32 val = val.natAbs := by
    unfold uint32
    omega
  exact ⟨h, by rw [same, Nat.mod_eq_of_lt fits, if_neg (by omega), Nat.zero_add]⟩

/-- A smaller gain gives a smaller product. -/
theorem scaled_natAbs_le {c : Int} {a b : Nat} (h : a ≤ b) :
    ((c * a) >>> (8 : Nat)).natAbs ≤ ((c * b) >>> (8 : Nat)).natAbs := by
  rw [Int.shiftRight_eq_div_pow, Int.shiftRight_eq_div_pow]
  rcases Int.le_total 0 c with nonneg | nonpos
  · have zero : 0 ≤ c * a := Int.mul_nonneg nonneg (Int.natCast_nonneg a)
    have less : c * a ≤ c * b := Int.mul_le_mul_of_nonneg_left (by omega) nonneg
    omega
  · have zero : c * a ≤ 0 := Int.mul_nonpos_of_nonpos_of_nonneg nonpos (Int.natCast_nonneg a)
    have less : c * b ≤ c * a := Int.mul_le_mul_of_nonpos_left nonpos (by omega)
    omega

theorem preMatrix_diag (c : Fin 3 → Fin 3 → Int) (i : Fin 3) : 0 ≤ preMatrix c i i := by
  unfold preMatrix
  rw [if_pos rfl]
  exact (clampInt_bounds (c i i) (by decide)).1

theorem ccSum_lt {f : AwbFrame} (h : f.cct ≠ 0 → f.ccg.toNat < 2 ^ 22 * f.cct) :
    ccSum f f.ccg * awbGainDflt < 2 ^ 32 := by
  have small : udiv4x f.ccg.toNat f.cct 0 < 2 ^ 24 := by
    unfold udiv4x
    by_cases zero : f.cct = 0
    · dsimp only
      rw [if_neg (not_not.2 zero)]
      decide
    · have quot : f.ccg.toNat <<< 2 / f.cct < 2 ^ 24 := by
        rw [Nat.div_lt_iff_lt_mul (Nat.pos_of_ne_zero zero), Nat.shiftLeft_eq]
        have := h zero
        omega
      dsimp only
      rw [if_pos zero]
      split <;> omega
  unfold ccSum awbGainDflt
  omega

end coded

section call

variable {sp : AwbSens} {u : AwbPar} {f : AwbFrame} {s t : AwbState} {o : AwbOut}

theorem iWgt_le (h : AwbStep sp u f s t o) : o.iWgt ≤ 0x100 ∧ (f.night = true → o.iWgt = 0) := by
  obtain ⟨w, hw, eq⟩ := h.wgt
  obtain ⟨w', hw', lo, hi⟩ := agcWgt_some u f
  obtain rfl := Option.some.inj (hw.symm.trans hw')
  rw [eq]
  constructor
  · split
    · exact Nat.zero_le _
    · omega
  · intro night
    rw [if_pos night]

/-- A filter of the gains is at most at the limit, or at what is left of an earlier one. -/
theorem level_le {iir n new top : Nat} (mean_ : (new : Int) = mean 256 u.speed iir (n * 2 ^ 4 : Int)) (hn : n ≤ top) :
    new >>> 4 ≤ max (iir >>> 4) top := by
  obtain ⟨s0, s1, -⟩ := speed_range u
  rw [Nat.shiftRight_eq_div_pow, Nat.shiftRight_eq_div_pow]
  have le := mean_le (by decide : (0 : Int) < 256) s0 s1
    (by omega : (iir : Int) ≤ 16 * (max (iir / 2 ^ 4) top : Nat) + 15)
    (by omega : (n * 2 ^ 4 : Int) ≤ 16 * (max (iir / 2 ^ 4) top : Nat) + 15)
  rw [← mean_] at le
  omega

theorem level_inside {iir n new low top : Nat} (mean_ : (new : Int) = mean 256 u.speed iir (n * 2 ^ 4 : Int))
    (hn : low ≤ n ∧ n ≤ top) (lo : low <<< 4 ≤ iir) (hi : iir ≤ top <<< 4) : low <<< 4 ≤ new ∧ new ≤ top <<< 4 := by
  obtain ⟨s0, s1, -⟩ := speed_range u
  rw [Nat.shiftLeft_eq] at lo hi ⊢
  rw [Nat.shiftLeft_eq]
  have ge := le_mean (by decide : (0 : Int) < 256) s0 s1 (by omega : (low * 2 ^ 4 : Int) ≤ iir)
    (by omega : (low * 2 ^ 4 : Int) ≤ n * 2 ^ 4)
  have le := mean_le (by decide : (0 : Int) < 256) s0 s1 (by omega : (iir : Int) ≤ top * 2 ^ 4)
    (by omega : (n * 2 ^ 4 : Int) ≤ top * 2 ^ 4)
  rw [← mean_] at ge le
  omega

theorem AwbStep.spans (h : AwbStep sp u f s t o) (b : s.Bounded) :
    Spans (s.giAwbDbIIR >>> (4 : Nat)) sp.dbMin sp.dbMax (t.giAwbDbIIR >>> (4 : Nat)) ∧
      Spans (s.giAwbDrIIR >>> (4 : Nat)) sp.drMin sp.drMax (t.giAwbDrIIR >>> (4 : Nat)) := by
  have span : ∀ {iir v lo hi : Int}, lo ≤ v ∧ v ≤ hi →
      Spans (iir >>> (4 : Nat)) lo hi (mean 256 u.speed iir (v * 2 ^ 4) >>> (4 : Nat)) := by
    intro iir v lo hi hv
    obtain ⟨s0, s1, -⟩ := speed_range u
    unfold Spans
    rw [Int.shiftRight_eq_div_pow, Int.shiftRight_eq_div_pow]
    have ge := le_mean (by decide : (0 : Int) < 256) s0 s1 (by omega : 16 * min (iir / 2 ^ 4) lo ≤ iir)
      (by omega : 16 * min (iir / 2 ^ 4) lo ≤ v * 2 ^ 4)
    have le := mean_le (by decide : (0 : Int) < 256) s0 s1 (by omega : iir ≤ 16 * max (iir / 2 ^ 4) hi + 15)
      (by omega : v * 2 ^ 4 ≤ 16 * max (iir / 2 ^ 4) hi + 15)
    omega
  obtain ⟨db, dr, -, -⟩ := h.means b
  obtain ⟨ldb, ldr, -⟩ := h.limited
  rw [db, dr]
  exact ⟨span ldb, span ldr⟩

/-- A product of the final gain is at most the largest. -/
theorem final_le {g top w sat : Nat} (hg : g ≤ top) (hw : w ≤ 0x100) : g * w * (32 + sat) ≤ top * 0x100 * (32 + sat) :=
  Nat.mul_le_mul_right _ (Nat.mul_le_mul hg hw)

theorem finalGain_eq {g w sat : Nat} (h : g * w * (32 + sat) < 2 ^ 32) :
    finalGain g w sat = (g * w * (32 + sat)) >>> 14 := by
  have one : g * w ≤ g * w * (32 + sat) := Nat.le_mul_of_pos_right _ (by omega)
  unfold finalGain
  rw [umul_of_lt (by omega : g * w < 2 ^ 32), umul_of_lt h]

/-- What is weighted with nothing fits. -/
theorem final_fits {nGain top : Nat} {sat : UInt8} {i : Fin 3} (h : AwbStep sp u f s t o) (le : nGain ≤ top)
    (fits : f.night = false → RowFits sp f s top sat i) :
    nGain * o.iWgt * (32 + bMpSaturation f sat) < 2 ^ 32 := by
  obtain ⟨w, night⟩ := iWgt_le h
  by_cases dark : f.night = true
  · rw [night dark, Nat.mul_zero, Nat.zero_mul]
    decide
  · exact Nat.lt_of_le_of_lt (final_le le w) (fits (by simpa using dark)).gain

theorem row_fits {nGain top : Nat} {sat : UInt8} {i : Fin 3} (h : AwbStep sp u f s t o) (b : s.Bounded)
    (le : nGain ≤ top) (fits : f.night = false → RowFits sp f s top sat i) (j : Fin 3) :
    ((o.pre i j * (finalGain nGain o.iWgt (bMpSaturation f sat) : Nat)) >>> (8 : Nat)).natAbs < 2 ^ 12 := by
  rw [finalGain_eq (final_fits h le fits), h.pre]
  obtain ⟨w, night⟩ := iWgt_le h
  by_cases dark : f.night = true
  · rw [night dark, Nat.mul_zero, Nat.zero_mul, Nat.zero_shiftRight]
    simp
  · have row := fits (by simpa using dark)
    have small : (nGain * o.iWgt * (32 + bMpSaturation f sat)) >>> 14 ≤ finalMax f top sat >>> 14 := by
      rw [Nat.shiftRight_eq_div_pow, Nat.shiftRight_eq_div_pow]
      exact Nat.div_le_div_right (final_le le w)
    obtain ⟨x, y⟩ := h.spans b
    exact Nat.lt_of_le_of_lt (scaled_natAbs_le small) (row.row _ _ x y j)

/-- The registers of a row whose products fit. -/
theorem post_coded (h : AwbStep sp u f s t o) (b : s.Bounded) {nGain top : Nat} {sat : UInt8} {i : Fin 3}
    (le : nGain ≤ top) (fits : f.night = false → RowFits sp f s top sat i)
    (eq : ∀ j, o.post i j = (o.pre i j * (finalGain nGain o.iWgt (bMpSaturation f sat) : Nat)) >>> (8 : Nat))
    (j : Fin 3) : Coded 12 (o.postReg i j) (o.post i j) := by
  have small := row_fits h b le fits j
  rw [← eq j] at small
  unfold AwbOut.postReg
  by_cases diag : i = j
  · subst diag
    have nonneg : 0 ≤ o.post i i := by
      rw [eq i, h.pre, Int.shiftRight_eq_div_pow]
      exact Int.ediv_nonneg (Int.mul_nonneg (preMatrix_diag _ i) (Int.natCast_nonneg _)) (by decide)
    rw [if_pos rfl]
    exact uint32_coded small nonneg (by decide) (by decide)
  · rw [if_neg diag]
    exact signAbs_coded small

theorem pre_coded (h : AwbStep sp u f s t o) (i j : Fin 3) : Coded 11 (o.preReg i j) (o.pre i j) := by
  have small : (o.pre i j).natAbs < 2 ^ 11 := by
    rw [h.pre]
    exact Nat.lt_of_le_of_lt (preMatrix_natAbs _ i j) (by decide)
  unfold AwbOut.preReg
  by_cases diag : i = j
  · subst diag
    rw [if_pos rfl]
    exact uint32_coded small (h.pre ▸ preMatrix_diag _ i) (by decide) (by decide)
  · rw [if_neg diag]
    exact signAbs_coded small

theorem AwbStep.post_eq (h : AwbStep sp u f s t o) (i j : Fin 3) :
    o.post i j = (o.pre i j * ((![
      finalGain (t.gnAwbRGainIIR >>> 4) o.iWgt (bMpSaturation f u.saturationR),
      finalGain awbGainDflt o.iWgt (bMpSaturation f u.saturationG),
      finalGain (t.gnAwbBGainIIR >>> 4) o.iWgt (bMpSaturation f u.saturationB)] : Fin 3 → Nat) i : Nat)) >>>
        (8 : Nat) := by
  have eq := h.post
  rw [h.pre, postMatrix_some (preMatrix_natAbs _) fun i => by
    match i with
    | 0 => exact finalGain_lt ..
    | 1 => exact finalGain_lt ..
    | 2 => exact finalGain_lt ..] at eq
  rw [← Option.some.inj eq, h.pre]

/-- A call that meets the condition is right. -/
theorem AwbStep.sound (h : AwbStep sp u f s t o) (b : s.Bounded) (m : Meets sp u f s) : Sound u f s t o := by
  obtain ⟨-, -, mr, mb⟩ := h.means b
  obtain ⟨-, -, low, hlow, lr, lb⟩ := h.limited
  have small := u.awbGainMax_lt
  have hr := level_le mr lr.2
  have hb := level_le mb lb.2
  constructor
  · exact fun mnl held => ccSum_lt (m.ratio mnl held)
  · exact (gainIIR_eq b.r (by omega)).1
  · exact (gainIIR_eq b.b (by omega)).1
  · exact final_fits h hr m.rowR
  · have w := (iWgt_le h).1
    have sat : bMpSaturation f u.saturationG < 2 ^ 8 := by
      have := u.saturationG.toNat_lt
      unfold bMpSaturation
      split
      · split <;> omega
      · omega
    exact Nat.lt_of_le_of_lt (Nat.mul_le_mul (Nat.mul_le_mul (Nat.le_refl _) w) (by omega : 32 + _ ≤ 32 + 2 ^ 8))
      (by decide)
  · exact final_fits h hb m.rowB
  · intro low' eq
    obtain rfl := Option.some.inj (hlow.symm.trans eq)
    exact level_inside mr lr
  · intro low' eq
    obtain rfl := Option.some.inj (hlow.symm.trans eq)
    exact level_inside mb lb
  · exact pre_coded h
  · intro i
    match i with
    | 0 => exact post_coded h b hr m.rowR (h.post_eq 0)
    | 1 => exact post_coded h b (Nat.le_refl _) m.rowG (h.post_eq 1)
    | 2 => exact post_coded h b hb m.rowB (h.post_eq 2)

theorem awb_safe {c : AwbPar × AwbFrame} (b : s.Bounded) (fit : Fit sp s c) : Safe sp s c := by
  by_cases long : c.2.wdrLong = true
  · exact ⟨s, none, awb_long long, fun o eq => nomatch eq⟩
  · have short : c.2.wdrLong = false := by simpa using long
    obtain ⟨t, r, eq⟩ := awb_ends sp b (fit short).times (fit short).count
    refine ⟨t, r, eq, fun o ho => ?_⟩
    obtain ⟨o', ho', step⟩ := awb_step short eq
    obtain rfl := Option.some.inj (ho'.symm.trans ho)
    exact step.sound b (fit short)

theorem awbNext_bounded {c : AwbPar × AwbFrame} (b : s.Bounded) (h : awbNext sp s c = some t) : t.Bounded := by
  obtain ⟨⟨t', r⟩, eq, rfl⟩ := Option.map_eq_some_iff.1 h
  by_cases long : c.2.wdrLong = true
  · obtain ⟨rfl, -⟩ := Prod.mk.inj (Option.some.inj ((awb_long long).symm.trans eq))
    exact b
  · obtain ⟨o, -, step⟩ := awb_step (by simpa using long) eq
    exact step.bounded b

end call

/-- What is restored lies within the limits, and so do the defaults. -/
theorem initAwb_bounded {sp : AwbSens} {u : AwbPar} {ud : Nat → UInt8} {s : AwbState} (h : initAwb sp u ud = some s) :
    s.Bounded := by
  have dflt : ∀ n, n ≤ awbGainDflt <<< 4 → n < 2 ^ 20 := fun n hn => Nat.lt_of_le_of_lt hn (by decide)
  have base : (⟨(sp.giDbDrMnl 1).1 * 2 ^ 4, (sp.giDbDrMnl 1).2 * 2 ^ 4, awbGainDflt <<< 4, awbGainDflt <<< 4, 0,
      ⟨(sp.giDbDrMnl 1).1 * 2 ^ 4, (sp.giDbDrMnl 1).2 * 2 ^ 4, (awbGainDflt <<< 4 : Nat), (awbGainDflt <<< 4 : Nat)⟩,
      ud, 1, 0, 0⟩ : AwbState).Bounded := by
    obtain ⟨db, dr⟩ := sp.mnl_fits 1
    exact ⟨by dsimp only; omega, by dsimp only; omega, dflt _ (Nat.le_refl _), dflt _ (Nat.le_refl _)⟩
  have level : ∀ v : Int, -2 ^ 31 ≤ v → v < 2 ^ 31 → uint32 (v >>> (4 : Nat)) ≤ u.awbGainMax → uint32 v < 2 ^ 20 := by
    intro v lo hi le
    have small := u.awbGainMax_lt
    unfold uint32 at le ⊢
    rw [Int.shiftRight_eq_div_pow] at le
    omega
  have word : ∀ i, -2 ^ 31 ≤ AwbPrst.word ud i ∧ AwbPrst.word ud i < 2 ^ 31 := fun i => asInt_fits _
  have fdb := sp.db_fits
  have fdr := sp.dr_fits
  unfold initAwb at h
  dsimp only at h
  split at h
  · rename_i inside
    rw [Int.shiftRight_eq_div_pow, Int.shiftRight_eq_div_pow] at inside
    obtain ⟨low, -, h⟩ := Option.bind_eq_some_iff.1 h
    split at h
    · rename_i fits
      obtain rfl := Option.some.inj h
      exact ⟨by dsimp only; omega, by dsimp only; omega,
        level _ (word 2).1 (word 2).2 fits.2.1, level _ (word 3).1 (word 3).2 fits.2.2.2⟩
    · obtain rfl := Option.some.inj h
      exact base
  · obtain rfl := Option.some.inj h
    exact base

section run

variable {sp : AwbSens} {u : AwbPar} {ud : Nat → UInt8} {s : AwbState} {cs : List (AwbPar × AwbFrame)}

/-- In a run from the start whose calls meet the condition, every call is right. -/
theorem awb_fits (start : initAwb sp u ud = some s) (h : Admitted (Fit sp) (awbNext sp) s cs) :
    Admitted (Safe sp) (awbNext sp) s cs :=
  Admitted.imp (I := AwbState.Bounded) (fun _ _ b fit => awb_safe b fit) (fun _ _ _ b _ => awbNext_bounded b)
    (initAwb_bounded start) h

end run

/-- The limits of one sensor. -/
def sensImx415 : AwbSens where
  dbMin := -751
  dbMax := -271
  drMin := -168
  drMax := 370
  giDbDrMnl := ![(-514, -23), (-376, -183), (-220, -275)]
  db_le := by decide
  dr_le := by decide
  db_fits := by decide
  dr_fits := by decide
  mnl_fits := by decide

/-- A gain of the menu that is at most three times the default, and a matrix of one coefficient. -/
def mnlPar (rgain : UInt8) : AwbPar := ⟨3, 0, rgain, 10, 22, 22, 22, 0x80, 0, 0x100, 0x80, 3⟩

def levelFrame (c : Int) : AwbFrame :=
  ⟨false, false, false, 0x400, by decide, 0, 0, 0, 0, 0, fun _ _ _ _ => c, 0, false⟩

theorem mnl_starts (rgain : UInt8) : ∃ s, initAwb sensImx415 (mnlPar rgain) (fun _ => 0) = some s ∧
    s.gnAwbRGainIIR = 0x1000 ∧ s.gnAwbBGainIIR = 0x1000 := ⟨_, rfl, rfl, rfl⟩

/-- A row of one coefficient, whose gain is at most `max`. -/
theorem level_rowFits {s : AwbState} {g : Nat} {sat : UInt8} {c : Int} (i : Fin 3)
    (gain : finalMax (levelFrame c) g sat < 2 ^ 32)
    (row : ∀ j,
      ((preMatrix (fun _ _ => c) i j * (finalMax (levelFrame c) g sat >>> 14 : Nat)) >>> (8 : Nat)).natAbs < 2 ^ 12) :
    RowFits sensImx415 (levelFrame c) s g sat i := ⟨gain, fun _ _ _ _ => row⟩

theorem awb_fits_three : ∃ s, initAwb sensImx415 (mnlPar 20) (fun _ => 0) = some s ∧
    Admitted (Safe sensImx415) (awbNext sensImx415) s [(mnlPar 20, levelFrame 0x200)] := by
  obtain ⟨s, start, r, b⟩ := mnl_starts 20
  have row : ∀ i, RowFits sensImx415 (levelFrame 0x200) s 0x300 22 i := fun i =>
    level_rowFits i (by decide) (by revert i; decide)
  have rowG : RowFits sensImx415 (levelFrame 0x200) s awbGainDflt 22 1 :=
    level_rowFits 1 (by decide) (by decide)
  have rowR : RowFits sensImx415 (levelFrame 0x200) s (max (s.gnAwbRGainIIR >>> 4) (mnlPar 20).awbGainMax) 22 0 := by
    rw [r]
    exact row 0
  have rowB : RowFits sensImx415 (levelFrame 0x200) s (max (s.gnAwbBGainIIR >>> 4) (mnlPar 20).awbGainMax) 22 2 := by
    rw [b]
    exact row 2
  have fit : Fit sensImx415 s (mnlPar 20, levelFrame 0x200) := fun _ =>
    ⟨by decide, fun d => absurd rfl d.1, fun mnl => absurd rfl mnl, fun _ => rowR, fun _ => rowG, fun _ => rowB⟩
  exact ⟨s, start, awb_fits start ⟨fit, fun _ _ => trivial⟩⟩

/-- The largest coefficients, scaled by `646 / 256`, reach into the sign. -/
theorem awb_overruns : ∃ s, initAwb sensImx415 (mnlPar 20) (fun _ => 0) = some s ∧
    ¬Admitted (Safe sensImx415) (awbNext sensImx415) s [(mnlPar 20, levelFrame 2047)] := by
  obtain ⟨s, start, -⟩ := mnl_starts 20
  refine ⟨s, start, fun admitted => ?_⟩
  obtain ⟨t, r, eq, sound⟩ := admitted.1
  have out : ((initAwb sensImx415 (mnlPar 20) fun _ => 0).bind fun s =>
      (awb sensImx415 (mnlPar 20) (levelFrame 2047) s).bind fun x => x.2.map fun o => o.post 0 1) = some 5165 := by
    decide +kernel
  rw [start, Option.bind_some, eq, Option.bind_some] at out
  obtain ⟨o, ho, post⟩ := Option.map_eq_some_iff.1 out
  have small := ((sound o ho).post 0 1).magnitude
  rw [post] at small
  exact absurd small (by decide)

end En675.Isp
