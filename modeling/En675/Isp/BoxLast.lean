import En675.Isp.PrivacyBox

/-! The box registers (`BoxLast`): the motion boxes lie at their upper end, and the privacy boxes below them. -/

namespace En675.Isp

open Lib BoxImd BoxPvc

/-- `ISP_BOX_EA`. -/
def ispBoxEa : Nat := 32

/-- Word `j` of `gnBoxPosIMD`. -/
def PosMem.loadU (m : PosMem) (j : Nat) : Nat := m.loadW (4 * j) + 2 ^ 16 * m.loadW (4 * j + 2)

/-- The box registers.  `boxton0` has the tones of the upper half of the boxes, `boxton1` those of the lower half. -/
structure BoxRegs where
  boxpos : Nat → Nat
  boxplt : Nat → Nat
  boxton0 : Nat
  boxton1 : Nat
  boxfil : Nat
  bosdOn0 : Nat
  boxfmt : Nat
  bboxfmt : Nat

def gbTwinBitLUT : List Nat :=
  [0x0, 0x3, 0xC, 0xF, 0x30, 0x33, 0x3C, 0x3F, 0xC0, 0xC3, 0xCC, 0xCF, 0xF0, 0xF3, 0xFC, 0xFF]

/-- `CHG_TWIN_BIT`. -/
def chgTwinBit (m : Nat) : Nat := gbTwinBitLUT.getD (m &&& 0xf) 0

/-- `nBoxBitMask2L`, and `nBoxBitMask2H` with `n` equal to `16`. -/
def nBoxBitMask2 (m n : Nat) : Nat :=
  chgTwinBit (m >>> n) ||| chgTwinBit (m >>> (n + 4)) <<< 8 ||| chgTwinBit (m >>> (n + 8)) <<< 16 |||
    chgTwinBit (m >>> (n + 12)) <<< 24

/-- A shift of a `ULONG`, where it is defined. -/
def shl64 (v n : Nat) : Option Nat := if n < 64 then some (v <<< n % 2 ^ 64) else none

/-- `nColorIMD` of box `i`. -/
def nColorIMD (p : BoxPar) (t : BoxImd) (i : Nat) : Nat :=
  if i < ispBoxEa - 1 - t.gnBoxMskNum ∨ p.iItlDettone = 3 then 0x51 <<< 16 ||| 0x5a <<< 8 ||| 0xef
  else if i < ispBoxEa - 1 then
    if t.gnBoxMskSel ≠ 0 ∧ i = ispBoxEa - 1 - t.gnBoxMskNum + (t.gnBoxMskSel - 1) then 0xd21092 else 0x903522
  else 235 <<< 16 ||| 128 <<< 8 ||| 128

namespace BoxRegs

/-- The boxes from `sta` on are set from a list. -/
def setBoxes (sta : Nat) (pos plt : Nat → Nat) : Nat → BoxRegs → BoxRegs
  | 0, r => r
  | n + 1, r =>
    let r := setBoxes sta pos plt n r
    let i := sta + n
    { r with
      boxpos := Function.update (Function.update r.boxpos (2 * i) (pos (2 * n))) (2 * i + 1) (pos (2 * n + 1))
      boxplt := Function.update r.boxplt i (plt i) }

/-- Bit `i` of the tones, as if they were one word. -/
def toneBit (r : BoxRegs) (i : Nat) : Bool := if i < 32 then r.boxton1.testBit i else r.boxton0.testBit (i - 32)

end BoxRegs

open BoxRegs

/-- `BoxLast`, from where the monitor of the exposure is set.  There is no result where the boxes have no room. -/
def boxLast (p : BoxPar) (v : BoxPvc) (t : BoxImd) (gnBoxOnAeMon : Nat) (r : BoxRegs) : Option BoxRegs :=
  if imdBoxEa < t.gnBoxNumIMD ∨ ispBoxEa < t.gnBoxNumIMD + v.gnBoxNumPVC then none
  else do
    let iStaPVC := ispBoxEa - t.gnBoxNumIMD - v.gnBoxNumPVC
    let iStaIMD := ispBoxEa - t.gnBoxNumIMD
    let r := setBoxes iStaPVC v.gnBoxPosPVC (fun _ => v.gnBoxPltPVC) v.gnBoxNumPVC r
    let r := setBoxes iStaIMD t.gnBoxPosIMD.loadU (nColorIMD p t) t.gnBoxNumIMD r
    let onIMD ← shl t.gnBoxOnIMD iStaIMD
    let onPVC ← shl v.gnBoxOnPVC iStaPVC
    let nBoxBitMask := wnot 32 (onIMD ||| onPVC)
    let gnBoxTonePVC_U ← shl64 (v.gnBoxTonePVC.2 <<< 32 ||| v.gnBoxTonePVC.1) (iStaPVC <<< 1)
    let toneIMD ← shl t.gnBoxToneIMD ((iStaIMD - 16) <<< 1)
    let fillIMD ← shl t.gnBoxFillIMD iStaIMD
    let fillPVC ← shl v.gnBoxFillPVC iStaPVC
    let fmtPVC ← shl v.gnBoxFmtPVC iStaPVC
    some { r with
      boxton0 := r.boxton0 &&& nBoxBitMask2 nBoxBitMask 16 ||| gnBoxTonePVC_U >>> 32 ||| toneIMD
      boxton1 := r.boxton1 &&& nBoxBitMask2 nBoxBitMask 0 ||| gnBoxTonePVC_U % 2 ^ 32
      boxfil := r.boxfil &&& nBoxBitMask ||| fillIMD ||| fillPVC
      bosdOn0 := gnBoxOnAeMon &&& nBoxBitMask ||| onIMD ||| onPVC
      boxfmt := fmtPVC
      bboxfmt := v.gnBBoxPltPVC }

/-- A list of motion boxes: what is on are the first, and nothing is marked behind them. -/
structure Listed (t : BoxImd) : Prop where
  on : ∀ j, t.gnBoxOnIMD.testBit j = decide (j < t.gnBoxNumIMD)
  fill : ∀ j, t.gnBoxNumIMD ≤ j → t.gnBoxFillIMD.testBit j = false
  tone : ∀ j, 2 * t.gnBoxNumIMD ≤ j → t.gnBoxToneIMD.testBit j = false

namespace BoxImd

section tight

variable {p : BoxPar} {s t : BoxImd} {m : PosMem} {n i j tone : Nat}

/-- No mark is behind box `n`. -/
structure Tight (n : Nat) (s : BoxImd) : Prop where
  fill : ∀ j, n ≤ j → s.gnBoxFillIMD.testBit j = false
  tone : ∀ j, 2 * n ≤ j → s.gnBoxToneIMD.testBit j = false

theorem Tight.mono (h : Tight n s) (le : n ≤ i) : Tight i s where
  fill j hj := h.fill j (le.trans hj)
  tone j hj := h.tone j (by omega)

theorem shl_some {v n r : Nat} (h : shl v n = some r) : r = wshl 32 v n ∧ n < 32 := by
  unfold shl at h
  split at h
  · exact ⟨(Option.some.inj h).symm, ‹_›⟩
  · cases h

theorem Tight.mark (h : Tight n s) (lt : i < n) (small : tone < 2 ^ 2) (ht : s.mark i tone = some t) :
    Tight n t := by
  unfold BoxImd.mark at ht
  simp only [Option.bind_eq_bind, Option.bind_eq_some_iff] at ht
  obtain ⟨fill, hf, tone', htone, eq⟩ := ht
  cases eq
  obtain ⟨rfl, -⟩ := shl_some htone
  constructor
  · intro j hj
    rw [Nat.testBit_or, h.fill j hj, testBit_shl_one hf, Bool.false_or]
    exact decide_eq_false (by omega)
  · intro j hj
    have zero : tone.testBit (j - 2 * i) = false :=
      Nat.testBit_lt_two_pow (Nat.lt_of_lt_of_le small (Nat.pow_le_pow_right (by decide) (by omega)))
    rw [Nat.testBit_or, h.tone j hj, testBit_wshl, zero]
    simp

theorem Tight.turnOn (h : Tight n s) (ht : s.turnOn m i = some t) : Tight n t := by
  unfold BoxImd.turnOn at ht
  simp only [Option.bind_eq_bind, Option.bind_eq_some_iff] at ht
  obtain ⟨_, -, eq⟩ := ht
  cases eq
  exact ⟨h.fill, h.tone⟩

theorem Tight.fillBox (h : Tight n s) (lt : i < n) (small : p.iItlDettone < 4 → tone < 2 ^ 2)
    (ht : fillBox p s i tone = some t) : Tight n t := by
  unfold BoxImd.fillBox at ht
  split at ht
  · rename_i four
    exact h.mark lt (small four) ht
  · cases ht
    exact h

theorem Tight.selectArea (h : Tight n s) (lt : i < n) (ht : selectArea p s i j = some t) : Tight n t := by
  unfold BoxImd.selectArea at ht
  split at ht
  · have same : Tight n { s with gnBoxMskSel := s.gnBoxMskNum } := ⟨h.fill, h.tone⟩
    exact same.mark lt (by split <;> omega) ht
  · cases ht
    exact h

theorem Tight.motionRound (h : Tight n s) (lt : i < n) (ht : motionRound p s i = some t) : Tight n t := by
  unfold BoxImd.motionRound at ht
  simp only [Option.bind_eq_bind, Option.bind_eq_some_iff] at ht
  obtain ⟨_, -, _, -, _, -, _, -, _, -, u, hu, mark⟩ := ht
  split at mark
  · exact (h.turnOn hu).mark lt (by decide) mark
  · cases mark
    exact h.turnOn hu

theorem Tight.motionLoop (h : Tight n s) {k : Nat} (le : k ≤ n) (ht : motionLoop p k s = some t) : Tight n t := by
  induction k generalizing s with
  | zero =>
    cases ht
    exact h
  | succ k ih =>
    simp only [BoxImd.motionLoop, Option.bind_eq_bind, Option.bind_eq_some_iff] at ht
    obtain ⟨u, hu, ht⟩ := ht
    exact ih (h.motionRound (by omega) hu) (by omega) ht

theorem Tight.areaRound (h : Tight i s) {i' : Nat} (ht : areaRound p (s, i) j = some (t, i')) : Tight i' t := by
  unfold BoxImd.areaRound at ht
  dsimp only at ht
  split at ht
  · cases ht
    exact h
  · simp only [Option.bind_eq_bind, Option.bind_eq_some_iff] at ht
    obtain ⟨_, -, _, -, _, -, _, -, _, -, u, hu, v, hv, w, hw, eq⟩ := ht
    cases eq
    have on := (h.mono (Nat.le_succ i)).turnOn hu
    have one : Tight (i + 1) { u with gnBoxMskNum := u.gnBoxMskNum + 1 } := ⟨on.fill, on.tone⟩
    have chosen := one.selectArea (Nat.lt_succ_self i) hv
    exact chosen.fillBox (Nat.lt_succ_self i) (fun _ => by decide) hw

theorem Tight.areas (h : Tight i s) {js : List Nat} {r : BoxImd × Nat}
    (hr : js.foldlM (BoxImd.areaRound p) (s, i) = some r) : Tight r.2 r.1 := by
  induction js generalizing s i with
  | nil =>
    cases hr
    exact h
  | cons j js ih =>
    rw [List.foldlM_cons, Option.bind_eq_bind, Option.bind_eq_some_iff] at hr
    obtain ⟨⟨u, i'⟩, hu, hr⟩ := hr
    exact ih (h.areaRound hu) hr

theorem Tight.background (h : Tight i s) (ht : background p s i = some t) : Tight (i + 1) t := by
  unfold BoxImd.background at ht
  simp only [Option.bind_eq_bind, Option.bind_eq_some_iff] at ht
  obtain ⟨_, -, _, -, _, -, _, -, u, hu, fill⟩ := ht
  exact ((h.mono (Nat.le_succ i)).turnOn hu).fillBox (Nat.lt_succ_self i) id fill

theorem cleared_tight (s : BoxImd) (n : Nat) : Tight n s.cleared where
  fill j _ := Nat.zero_testBit j
  tone j _ := Nat.zero_testBit j

end tight

section listed

variable {p : BoxPar} {s t : BoxImd}

/-- `BoxIMD` leaves a list. -/
theorem boxIMD_listed (ht : boxIMD p s = some t) : Listed t := by
  by_cases areas : p.HasAreas
  · obtain ⟨-, on, num, -⟩ := boxIMD_areas_some areas ht
    rw [boxIMD_areas areas, Option.bind_eq_some_iff] at ht
    obtain ⟨u, hu, ht⟩ := ht
    rw [Option.bind_eq_some_iff] at ht
    obtain ⟨⟨v, i⟩, hv, ht⟩ := ht
    rw [Option.bind_eq_some_iff] at ht
    obtain ⟨w, hw, eq⟩ := ht
    cases eq
    have tight := (((cleared_tight s _).motionLoop (Nat.le_refl _) hu).areas hv).background hw
    exact ⟨on, tight.fill, tight.tone⟩
  · by_cases on : p.itlMaskOsd = upOn
    · have tone : p.iItlDettone = 3 := by_contra fun ne => areas ⟨on, ne⟩
      obtain ⟨u, hu, moved⟩ :=
        motionLoop_moved (cleared_moved p s _) (Nat.le_refl _) (toNat_le p s.gnBoxNumIMD)
      rw [boxIMD_tone on tone, hu, Option.bind_some] at ht
      cases ht
      have tight := (cleared_tight s _).motionLoop (Nat.le_refl _) hu
      exact ⟨moved.boxes.on, tight.fill, tight.tone⟩
    · rw [boxIMD_off on] at ht
      cases ht
      exact
        { on := fun j => by
            rw [show s.cleared.gnBoxOnIMD = 0 from rfl, Nat.zero_testBit]
            exact (decide_eq_false (Nat.not_lt_zero j)).symm
          fill := (cleared_tight s 0).fill
          tone := (cleared_tight s 0).tone }

end listed

end BoxImd

section twin

variable {m n i j : Nat}

theorem testBit_chgTwinBit (m i : Nat) : (chgTwinBit m).testBit i = (decide (i < 8) && m.testBit (i / 2)) := by
  have table : ∀ x < 16, gbTwinBitLUT.getD x 0 < 2 ^ 8 ∧
      ∀ i < 8, (gbTwinBitLUT.getD x 0).testBit i = x.testBit (i / 2) := by decide
  have nibble : m &&& 0xf < 16 := Nat.and_lt_two_pow m (n := 4) (by decide)
  obtain ⟨small, bits⟩ := table _ nibble
  unfold chgTwinBit
  by_cases lt : i < 8
  · have four : (0xf : Nat).testBit (i / 2) = true := by
      rw [show (0xf : Nat) = 2 ^ 4 - 1 from rfl, Nat.testBit_two_pow_sub_one]
      exact decide_eq_true (by omega)
    rw [bits i lt, Nat.testBit_and, four, Bool.and_true, decide_eq_true lt, Bool.true_and]
  · rw [Nat.testBit_lt_two_pow (Nat.lt_of_lt_of_le small (Nat.pow_le_pow_right (by decide) (Nat.not_lt.1 lt))),
      decide_eq_false lt, Bool.false_and]

/-- One byte of the doubled mask. -/
theorem testBit_twinByte (m n j i : Nat) : (chgTwinBit (m >>> (n + 4 * j)) <<< (8 * j)).testBit i =
    (decide (8 * j ≤ i ∧ i < 8 * j + 8) && m.testBit (n + i / 2)) := by
  rw [Nat.testBit_shiftLeft, testBit_chgTwinBit, Nat.testBit_shiftRight, ← Bool.and_assoc]
  by_cases le : 8 * j ≤ i
  · rw [show n + 4 * j + (i - 8 * j) / 2 = n + i / 2 by omega, ← Bool.decide_and]
    exact congrArg (· && _) (decide_eq_decide.2 (by omega))
  · have none_ : ¬(8 * j ≤ i ∧ i < 8 * j + 8) := fun h => le h.1
    rw [decide_eq_false le, Bool.false_and, decide_eq_false none_]
    rfl

/-- Every bit of half of the mask is there twice. -/
theorem testBit_nBoxBitMask2 (m n i : Nat) :
    (nBoxBitMask2 m n).testBit i = (decide (i < 32) && m.testBit (n + i / 2)) := by
  have b0 := testBit_twinByte m n 0 i
  have b1 := testBit_twinByte m n 1 i
  have b2 := testBit_twinByte m n 2 i
  have b3 := testBit_twinByte m n 3 i
  simp only [Nat.mul_zero, Nat.add_zero, Nat.shiftLeft_zero] at b0
  unfold nBoxBitMask2
  rw [Nat.testBit_or, Nat.testBit_or, Nat.testBit_or, b0, b1, b2, b3, ← Bool.and_or_distrib_right,
    ← Bool.and_or_distrib_right, ← Bool.and_or_distrib_right, ← Bool.decide_or, ← Bool.decide_or, ← Bool.decide_or]
  exact congrArg (· && _) (decide_eq_decide.2 (by omega))

end twin

namespace BoxRegs

section boxes

variable {sta k h n : Nat} {pos plt : Nat → Nat} {r : BoxRegs}

/-- The other registers. -/
structure SameRegs (r r' : BoxRegs) : Prop where
  boxton0 : r'.boxton0 = r.boxton0
  boxton1 : r'.boxton1 = r.boxton1
  boxfil : r'.boxfil = r.boxfil

theorem setBoxes_same (n : Nat) (r : BoxRegs) : SameRegs r (setBoxes sta pos plt n r) := by
  induction n with
  | zero => exact ⟨rfl, rfl, rfl⟩
  | succ n ih => exact ⟨ih.boxton0, ih.boxton1, ih.boxfil⟩

/-- Box `h` of the registers is box `k` of a list. -/
structure BoxAt (pos plt : Nat → Nat) (k h : Nat) (r : BoxRegs) : Prop where
  y : r.boxpos (2 * h) = pos (2 * k)
  x : r.boxpos (2 * h + 1) = pos (2 * k + 1)
  plt : r.boxplt h = plt h

theorem setBoxes_at (n : Nat) (r : BoxRegs) (hk : k < n) : BoxAt pos plt k (sta + k) (setBoxes sta pos plt n r) := by
  induction n with
  | zero => exact absurd hk (Nat.not_lt_zero k)
  | succ n ih =>
    unfold setBoxes
    rcases Nat.lt_succ_iff_lt_or_eq.1 hk with below | rfl
    · obtain ⟨y, x, plt⟩ := ih below
      refine ⟨?_, ?_, ?_⟩
      · dsimp only
        rw [Function.update_of_ne (by omega), Function.update_of_ne (by omega), y]
      · dsimp only
        rw [Function.update_of_ne (by omega), Function.update_of_ne (by omega), x]
      · dsimp only
        rw [Function.update_of_ne (by omega), plt]
    · refine ⟨?_, ?_, ?_⟩
      · dsimp only
        rw [Function.update_of_ne (by omega), Function.update_self]
      · dsimp only
        rw [Function.update_self]
      · dsimp only
        rw [Function.update_self]

theorem setBoxes_out (n : Nat) (hh : h < sta ∨ sta + n ≤ h) {pos' plt' : Nat → Nat} (at_ : BoxAt pos' plt' k h r) :
    BoxAt pos' plt' k h (setBoxes sta pos plt n r) := by
  induction n with
  | zero => exact at_
  | succ n ih =>
    obtain ⟨y, x, plt⟩ := ih (by omega)
    unfold setBoxes
    refine ⟨?_, ?_, ?_⟩
    · dsimp only
      rw [Function.update_of_ne (by omega), Function.update_of_ne (by omega), y]
    · dsimp only
      rw [Function.update_of_ne (by omega), Function.update_of_ne (by omega), x]
    · dsimp only
      rw [Function.update_of_ne (by omega), plt]

end boxes

end BoxRegs

/-- A privacy box, in box `h`. -/
structure PvcShown (q : PvcPar) (c : Privacy) (h : Nat) (r : BoxRegs) : Prop where
  on : r.bosdOn0.testBit h = true
  fill : r.boxfil.testBit h = true
  tone : ∀ b < 2, r.toneBit (2 * h + b) = q.pvcTrans.toNat.testBit b
  fmt : r.boxfmt.testBit h = decide (q.pvcFormat = 1)
  y : Halves 16 (r.boxpos (2 * h)) (c.bPosY * q.nPixelStep) (c.bPosY * q.nPixelStep + c.bSizY * q.nPixelStep)
  x : Halves 16 (r.boxpos (2 * h + 1)) (c.bPosX * q.nPixelStep) (c.bPosX * q.nPixelStep + c.bSizX * q.nPixelStep)
  colour : Bytes3 (r.boxplt h) q.nPRVC_CY q.nPRVC_CB q.nPRVC_CR

/-- Motion box `m`, in box `h`. -/
structure ImdShown (t : BoxImd) (m h : Nat) (r : BoxRegs) : Prop where
  on : r.bosdOn0.testBit h = t.gnBoxOnIMD.testBit m
  fill : r.boxfil.testBit h = t.gnBoxFillIMD.testBit m
  tone : ∀ b < 2, r.toneBit (2 * h + b) = t.gnBoxToneIMD.testBit (2 * m + b)
  y : Halves 16 (r.boxpos (2 * h)) (t.gnBoxPosIMD.wRectIMD m).sy (t.gnBoxPosIMD.wRectIMD m).ey
  x : Halves 16 (r.boxpos (2 * h + 1)) (t.gnBoxPosIMD.wRectIMD m).sx (t.gnBoxPosIMD.wRectIMD m).ex

/-- Box `h` is in no list. -/
structure Other (gnBoxOnAeMon h : Nat) (r r' : BoxRegs) : Prop where
  on : r'.bosdOn0.testBit h = gnBoxOnAeMon.testBit h
  fill : r'.boxfil.testBit h = r.boxfil.testBit h
  tone : ∀ b < 2, r'.toneBit (2 * h + b) = r.toneBit (2 * h + b)

/-- What is expected of the registers: from above the motion boxes, the privacy boxes, and the others. -/
structure Shared (q : PvcPar) (t : BoxImd) (gnBoxOnAeMon : Nat) (r r' : BoxRegs) : Prop where
  room : q.zones.length + t.gnBoxNumIMD ≤ ispBoxEa
  pvc : ∀ k (h : k < q.zones.length), PvcShown q q.zones[k] (ispBoxEa - t.gnBoxNumIMD - q.zones.length + k) r'
  imd : ∀ m < t.gnBoxNumIMD, ImdShown t m (ispBoxEa - t.gnBoxNumIMD + m) r'
  others : ∀ h < ispBoxEa - t.gnBoxNumIMD - q.zones.length, Other gnBoxOnAeMon h r r'
  colour : q.pvcOn.toNat = upOn → Bytes3 r'.bboxfmt q.nPRVC_CB q.nPRVC_CR q.nPRVC_CY

/-- No bit of the transparency above the lowest two is seen in a box behind the one it is meant for: where it
falls, the tone of the box has that bit. -/
structure PvcPar.Unseen (q : PvcPar) (t : BoxImd) : Prop where
  pvc : ∀ d, 0 < d → d < q.zones.length → ∀ b < 2,
    q.pvcTrans.toNat.testBit (2 * d + b) = true → q.pvcTrans.toNat.testBit b = true
  imd : ∀ m < t.gnBoxNumIMD, q.zones.length + m < 16 → ∀ d, m < d → d ≤ q.zones.length + m → ∀ b < 2,
    q.pvcTrans.toNat.testBit (2 * d + b) = true → t.gnBoxToneIMD.testBit (2 * m + b) = true

/-- It has no such bit where it is in the range of the menu. -/
theorem PvcPar.unseen_of_le {q : PvcPar} (h : q.pvcTrans.toNat ≤ 3) (t : BoxImd) : q.Unseen t := by
  have none_ : ∀ d b, 0 < d → q.pvcTrans.toNat.testBit (2 * d + b) ≠ true := by
    intro d b hd set
    have two : 2 ^ 2 ≤ 2 ^ (2 * d + b) := Nat.pow_le_pow_right (by decide) (by omega)
    rw [Nat.testBit_lt_two_pow (by omega)] at set
    cases set
  exact
    { pvc := fun d hd _ b _ set => absurd set (none_ d b hd)
      imd := fun m _ _ d hd _ b _ set => absurd set (none_ d b (by omega)) }

section registers

variable {p : BoxPar} {q : PvcPar} {v : BoxPvc} {t : BoxImd} {gnBoxOnAeMon n a w : Nat} {r r' : BoxRegs}

/-- A word of the first `n` boxes, from box `a` on. -/
theorem testBit_first (hw : ∀ j, w.testBit j = decide (j < n)) (le : a + n ≤ 32) (i : Nat) :
    (wshl 32 w a).testBit i = decide (a ≤ i ∧ i < a + n) := by
  rw [testBit_wshl, hw, ← Bool.decide_and, ← Bool.decide_and]
  exact decide_eq_decide.2 (by omega)

/-- What each register comes to, by its bits. -/
structure LastBits (p : BoxPar) (q : PvcPar) (v : BoxPvc) (t : BoxImd) (gnBoxOnAeMon sta sti : Nat)
    (r r' : BoxRegs) : Prop where
  on : ∀ i < 32, r'.bosdOn0.testBit i = (gnBoxOnAeMon.testBit i && decide (i < sta) || decide (sta ≤ i))
  fill : ∀ i < 32, r'.boxfil.testBit i =
    (r.boxfil.testBit i && decide (i < sta) || decide (sti ≤ i) && t.gnBoxFillIMD.testBit (i - sti) ||
      decide (sta ≤ i ∧ i < sti))
  tone : ∀ i < 64, r'.toneBit i =
    (r.toneBit i && decide (i / 2 < sta) || decide (2 * sta ≤ i) && v.gnBoxTonePVC.1.testBit (i - 2 * sta) ||
      decide (2 * sti ≤ i) && t.gnBoxToneIMD.testBit (i - 2 * sti))
  fmt : ∀ i < 32, r'.boxfmt.testBit i = (decide (q.pvcFormat = 1) && decide (sta ≤ i ∧ i < sti))
  pvc : ∀ k < v.gnBoxNumPVC, BoxAt v.gnBoxPosPVC (fun _ => v.gnBoxPltPVC) k (sta + k) r'
  imd : ∀ m < t.gnBoxNumIMD, BoxAt t.gnBoxPosIMD.loadU (nColorIMD p t) m (sti + m) r'
  bboxfmt : r'.bboxfmt = v.gnBBoxPltPVC

/-- No shift is too wide where there is a motion box. -/
theorem boxLast_ends (pos : 0 < t.gnBoxNumIMD) (le : t.gnBoxNumIMD ≤ imdBoxEa)
    (room : t.gnBoxNumIMD + v.gnBoxNumPVC ≤ ispBoxEa) (gnBoxOnAeMon : Nat) (r : BoxRegs) :
    ∃ r', boxLast p v t gnBoxOnAeMon r = some r' := by
  have le' : t.gnBoxNumIMD ≤ 16 := le
  have room' : t.gnBoxNumIMD + v.gnBoxNumPVC ≤ 32 := room
  have sti : ispBoxEa - t.gnBoxNumIMD < 32 := by unfold ispBoxEa; omega
  have sta : ispBoxEa - t.gnBoxNumIMD - v.gnBoxNumPVC < 32 := by omega
  have wide : ∀ {v n : Nat}, n < 64 → shl64 v n = some (wshl 64 v n) := fun hn => if_pos hn
  unfold boxLast
  simp only [Option.bind_eq_bind]
  rw [if_neg (by omega), shl_eq sti, Option.bind_some, shl_eq sta, Option.bind_some, wide, Option.bind_some, shl_eq,
    Option.bind_some, shl_eq sti, Option.bind_some, shl_eq sta, Option.bind_some, shl_eq sta, Option.bind_some]
  · exact ⟨_, rfl⟩
  · rw [Nat.shiftLeft_eq]
    omega
  · rw [Nat.shiftLeft_eq]
    omega

theorem boxLast_pos (hr : boxLast p v t gnBoxOnAeMon r = some r') : 0 < t.gnBoxNumIMD := by
  unfold boxLast at hr
  split at hr
  · cases hr
  · simp only [Option.bind_eq_bind, Option.bind_eq_some_iff] at hr
    obtain ⟨_, on, -⟩ := hr
    have lt := (shl_some on).2
    unfold ispBoxEa at lt
    omega

/-- The tones, over both registers. -/
theorem toneBit_packed {mask sta sti u tone i : Nat} (hm : ∀ j < 32, mask.testBit j = decide (j < sta))
    (half : 16 ≤ sti)
    (h0 : r'.boxton0 = r.boxton0 &&& nBoxBitMask2 mask 16 ||| u >>> 32 ||| wshl 32 tone ((sti - 16) <<< 1))
    (h1 : r'.boxton1 = r.boxton1 &&& nBoxBitMask2 mask 0 ||| u % 2 ^ 32) (lt : i < 64) :
    r'.toneBit i =
      (r.toneBit i && decide (i / 2 < sta) || u.testBit i || decide (2 * sti ≤ i) && tone.testBit (i - 2 * sti)) := by
  unfold BoxRegs.toneBit
  by_cases low : i < 32
  · have none_ : decide (2 * sti ≤ i) = false := decide_eq_false (by omega)
    rw [if_pos low, if_pos low, h1, Nat.testBit_or, Nat.testBit_and, testBit_nBoxBitMask2, Nat.testBit_mod_two_pow,
      decide_eq_true low, Bool.true_and, Bool.true_and, Nat.zero_add, hm _ (by omega), none_, Bool.false_and,
      Bool.or_false]
  · have shift : i - 32 - (sti - 16) <<< 1 = i - 2 * sti := by
      rw [Nat.shiftLeft_eq]
      omega
    have from_ : ((sti - 16) <<< 1 ≤ i - 32) = (2 * sti ≤ i) := by
      rw [Nat.shiftLeft_eq]
      exact propext (by omega)
    rw [if_neg low, if_neg low, h0, Nat.testBit_or, Nat.testBit_or, Nat.testBit_and, testBit_nBoxBitMask2,
      Nat.testBit_shiftRight, testBit_wshl, shift, decide_eq_true (by omega : i - 32 < 32), Bool.true_and,
      Bool.true_and, hm _ (by omega), show 16 + (i - 32) / 2 = i / 2 by omega, show 32 + (i - 32) = i by omega]
    simp only [from_]

theorem boxLast_bits (hv : Holds q q.zones v) (ht : Listed t) (hr : boxLast p v t gnBoxOnAeMon r = some r') :
    LastBits p q v t gnBoxOnAeMon (ispBoxEa - t.gnBoxNumIMD - q.zones.length) (ispBoxEa - t.gnBoxNumIMD) r r' := by
  have few := q.zones_length_le
  have le16 : q.zones.length ≤ 16 := few
  unfold boxLast at hr
  split at hr
  · cases hr
  rename_i room
  rw [not_or, Nat.not_lt, Nat.not_lt, hv.num] at room
  have le : t.gnBoxNumIMD ≤ 16 := room.1
  simp only [Option.bind_eq_bind, Option.bind_eq_some_iff] at hr
  obtain ⟨onIMD, h1, onPVC, h2, toneU, h3, toneIMD, h4, fillIMD, h5, fillPVC, h6, fmt, h7, eq⟩ := hr
  rw [hv.num] at h2 h3 h6 h7
  obtain ⟨sti, hsti⟩ : ∃ sti, sti = ispBoxEa - t.gnBoxNumIMD := ⟨_, rfl⟩
  obtain ⟨sta, hsta⟩ : ∃ sta, sta = sti - q.zones.length := ⟨_, rfl⟩
  rw [← hsti, ← hsta] at h2 h3 h6 h7 ⊢
  rw [← hsti] at h1 h4 h5
  have total : sti + t.gnBoxNumIMD = 32 ∧ sta + q.zones.length = sti := by
    unfold ispBoxEa at hsti
    omega
  obtain ⟨rfl, -⟩ := shl_some h1
  obtain ⟨rfl, -⟩ := shl_some h2
  obtain ⟨rfl, -⟩ := shl_some h4
  obtain ⟨rfl, -⟩ := shl_some h5
  obtain ⟨rfl, -⟩ := shl_some h6
  obtain ⟨rfl, -⟩ := shl_some h7
  have onI : ∀ i, (wshl 32 t.gnBoxOnIMD sti).testBit i = decide (sti ≤ i ∧ i < 32) := by
    intro i
    rw [testBit_first ht.on (by omega), total.1]
  have ones : ∀ i, (wshl 32 (spread 32 1 1 q.zones.length) sta).testBit i = decide (sta ≤ i ∧ i < sti) := by
    intro i
    rw [testBit_first (testBit_ones (by omega)) (by omega), total.2]
  have both : ∀ i < 32, (wshl 32 t.gnBoxOnIMD sti ||| wshl 32 v.gnBoxOnPVC sta).testBit i = decide (sta ≤ i) := by
    intro i hi
    rw [Nat.testBit_or, onI, hv.on, ones, ← Bool.decide_or]
    exact decide_eq_decide.2 (by omega)
  have mask : ∀ i < 32, (wnot 32 (wshl 32 t.gnBoxOnIMD sti ||| wshl 32 v.gnBoxOnPVC sta)).testBit i =
      decide (i < sta) := by
    intro i hi
    rw [testBit_wnot (Nat.or_lt_two_pow (wshl_lt ..) (wshl_lt ..)), both i hi, decide_eq_true hi, Bool.true_and,
      ← decide_not]
    exact decide_eq_decide.2 Nat.not_le
  obtain ⟨r1, hr1⟩ : ∃ r1, r1 = setBoxes sta v.gnBoxPosPVC (fun _ => v.gnBoxPltPVC) v.gnBoxNumPVC r := ⟨_, rfl⟩
  obtain ⟨r2, hr2⟩ : ∃ r2, r2 = setBoxes sti t.gnBoxPosIMD.loadU (nColorIMD p t) t.gnBoxNumIMD r1 := ⟨_, rfl⟩
  have same1 : SameRegs r r1 := hr1 ▸ setBoxes_same _ _
  have same2 : SameRegs r1 r2 := hr2 ▸ setBoxes_same _ _
  have num : sta = ispBoxEa - t.gnBoxNumIMD - v.gnBoxNumPVC := by rw [hsta, hsti, hv.num]
  rw [← hsti] at num
  rw [hv.num] at eq
  rw [← hsti, ← hsta, ← hv.num, ← hr1, ← hr2] at eq
  cases eq
  refine ⟨?_, ?_, ?_, ?_, ?_, ?_, rfl⟩
  · intro i hi
    dsimp only
    rw [Nat.or_assoc, Nat.testBit_or, Nat.testBit_and, mask i hi, both i hi]
  · intro i hi
    dsimp only
    rw [Nat.testBit_or, Nat.testBit_or, Nat.testBit_and, mask i hi, testBit_wshl, hv.fill, ones, same2.boxfil,
      same1.boxfil, decide_eq_true hi, Bool.true_and]
  · intro i hi
    have u : toneU = wshl 64 (v.gnBoxTonePVC.2 <<< 32 ||| v.gnBoxTonePVC.1) (sta <<< 1) := by
      unfold shl64 at h3
      split at h3
      · exact (Option.some.inj h3).symm
      · cases h3
    have bit : toneU.testBit i = (decide (2 * sta ≤ i) && v.gnBoxTonePVC.1.testBit (i - 2 * sta)) := by
      rw [u, testBit_wshl, decide_eq_true hi, Bool.true_and, Nat.shiftLeft_eq, show sta * 2 ^ 1 = 2 * sta by omega,
        hv.tone, Nat.zero_shiftLeft, Nat.zero_or]
    have half : 16 ≤ sti := by omega
    have earlier : r2.toneBit i = r.toneBit i := by
      unfold BoxRegs.toneBit
      rw [same2.boxton0, same2.boxton1, same1.boxton0, same1.boxton1]
    rw [← bit, ← earlier]
    exact toneBit_packed mask half rfl rfl hi
  · intro i hi
    dsimp only
    rw [hv.fmt, ← ones]
    by_cases fmt : q.pvcFormat = 1
    · rw [if_pos fmt, decide_eq_true fmt, Bool.true_and]
    · rw [if_neg fmt, decide_eq_false fmt, Bool.false_and, testBit_wshl, Nat.zero_testBit]
      simp
  · intro k hk
    have below : sta + k < sti := by
      rw [hv.num] at hk
      omega
    have at_ : BoxAt v.gnBoxPosPVC (fun _ => v.gnBoxPltPVC) k (sta + k) r1 := hr1 ▸ setBoxes_at _ r hk
    have out : BoxAt v.gnBoxPosPVC (fun _ => v.gnBoxPltPVC) k (sta + k) r2 := hr2 ▸ setBoxes_out _ (.inl below) at_
    exact ⟨out.y, out.x, out.plt⟩
  · intro m hm
    have at_ : BoxAt t.gnBoxPosIMD.loadU (nColorIMD p t) m (sti + m) r2 := hr2 ▸ setBoxes_at _ r1 hm
    exact ⟨at_.y, at_.x, at_.plt⟩

end registers

section lists

variable {p : BoxPar} {q : PvcPar} {v : BoxPvc} {t : BoxImd} {gnBoxOnAeMon sta sti k m b : Nat} {r r' : BoxRegs}

/-- The tone of a privacy box is what the boxes up to it have set. -/
theorem LastBits.tone_pvc (h : LastBits p q v t gnBoxOnAeMon sta sti r r') (lt : sta + k < sti) (le : sti ≤ 32)
    (hb : b < 2) : r'.toneBit (2 * (sta + k) + b) = v.gnBoxTonePVC.1.testBit (2 * k + b) := by
  have old : decide ((2 * (sta + k) + b) / 2 < sta) = false := decide_eq_false (by omega)
  have own : decide (2 * sta ≤ 2 * (sta + k) + b) = true := decide_eq_true (by omega)
  have imd : decide (2 * sti ≤ 2 * (sta + k) + b) = false := decide_eq_false (by omega)
  rw [h.tone _ (by omega), old, own, imd, Bool.and_false, Bool.false_or, Bool.true_and, Bool.false_and,
    Bool.or_false, show 2 * (sta + k) + b - 2 * sta = 2 * k + b by omega]

/-- That of a motion box is its own and what the privacy boxes have set. -/
theorem LastBits.tone_imd (h : LastBits p q v t gnBoxOnAeMon sta sti r r') {n : Nat} (hn : sta + n = sti)
    (lt : sti + m < 32) (hb : b < 2) : r'.toneBit (2 * (sti + m) + b) =
      (v.gnBoxTonePVC.1.testBit (2 * (n + m) + b) || t.gnBoxToneIMD.testBit (2 * m + b)) := by
  have old : decide ((2 * (sti + m) + b) / 2 < sta) = false := decide_eq_false (by omega)
  have own : decide (2 * sta ≤ 2 * (sti + m) + b) = true := decide_eq_true (by omega)
  have imd : decide (2 * sti ≤ 2 * (sti + m) + b) = true := decide_eq_true (by omega)
  rw [h.tone _ (by omega), old, own, imd, Bool.and_false, Bool.false_or, Bool.true_and, Bool.true_and,
    show 2 * (sti + m) + b - 2 * sta = 2 * (n + m) + b by omega,
    show 2 * (sti + m) + b - 2 * sti = 2 * m + b by omega]

theorem LastBits.unseen_pvc (h : LastBits p q v t gnBoxOnAeMon sta sti r r') (hv : Holds q q.zones v)
    (hn : sta + q.zones.length = sti) (le : sti ≤ 32) (hk : k < q.zones.length) (hb : b < 2) :
    r'.toneBit (2 * (sta + k) + b) = q.pvcTrans.toNat.testBit b ↔
      ∀ d, 0 < d → d ≤ k → q.pvcTrans.toNat.testBit (2 * d + b) = true → q.pvcTrans.toNat.testBit b = true := by
  have few : q.zones.length ≤ 16 := q.zones_length_le
  have zero : 2 * 0 + b = b := by omega
  rw [h.tone_pvc (by omega) le hb, hv.tone, Bool.eq_iff_iff, testBit_spread_lane hb]
  constructor
  · intro eq d _ hd set
    exact eq.1 ⟨by omega, d, hd, by omega, set⟩
  · intro unseen
    refine ⟨?_, fun set => ⟨by omega, 0, Nat.zero_le k, by omega, by rwa [zero]⟩⟩
    rintro ⟨-, d, hd, -, set⟩
    rcases Nat.eq_zero_or_pos d with rfl | pos
    · rwa [zero] at set
    · exact unseen d pos hd set

theorem LastBits.unseen_imd (h : LastBits p q v t gnBoxOnAeMon sta sti r r') (hv : Holds q q.zones v)
    (hn : sta + q.zones.length = sti) (lt : sti + m < 32) (hb : b < 2) :
    r'.toneBit (2 * (sti + m) + b) = t.gnBoxToneIMD.testBit (2 * m + b) ↔
      (q.zones.length + m < 16 → ∀ d, m < d → d ≤ q.zones.length + m →
        q.pvcTrans.toNat.testBit (2 * d + b) = true → t.gnBoxToneIMD.testBit (2 * m + b) = true) := by
  rw [h.tone_imd hn lt hb, hv.tone, Bool.eq_iff_iff, Bool.or_eq_true, testBit_spread_lane hb]
  constructor
  · intro eq room d md hd set
    exact eq.1 (.inl ⟨by omega, d, hd, by omega, set⟩)
  · intro unseen
    refine ⟨?_, .inr⟩
    rintro (⟨room, d, hd, lt, set⟩ | own)
    · exact unseen (by omega) d (by omega) hd set
    · exact own

end lists

/-- The levels are in the range of the menu. -/
def PvcPar.Levels (q : PvcPar) : Prop :=
  q.pvcYLevel.toNat ≤ 20 ∧ q.pvcCBLevel.toNat ≤ 20 ∧ q.pvcCRLevel.toNat ≤ 20

section whole

variable {p : BoxPar} {q : PvcPar} {v : BoxPvc} {t : BoxImd} {gnBoxOnAeMon : Nat} {r r' : BoxRegs}

theorem PosMem.loadU_halves (m : PosMem) (j : Nat) : Halves 16 (m.loadU j) (m.loadW (4 * j + 2)) (m.loadW (4 * j)) := by
  have low := m.loadW_lt (4 * j)
  unfold PosMem.loadU Halves
  omega

theorem PvcPar.colours_iff (q : PvcPar) :
    q.nPRVC_CY < 2 ^ 8 ∧ q.nPRVC_CB < 2 ^ 8 ∧ q.nPRVC_CR < 2 ^ 8 ↔ q.Levels :=
  and_congr (PvcPar.level_lt _) (and_congr (PvcPar.level_lt _) (PvcPar.level_lt _))

/-- What the registers hold, but for the tones and the colours. -/
theorem shared_of (hv : Holds q q.zones v) (ht : Listed t) (room : q.zones.length + t.gnBoxNumIMD ≤ ispBoxEa)
    (bits : LastBits p q v t gnBoxOnAeMon (ispBoxEa - t.gnBoxNumIMD - q.zones.length) (ispBoxEa - t.gnBoxNumIMD) r r')
    (unseen : q.Unseen t)
    (plt : q.pvcOn.toNat = upOn → Bytes3 v.gnBoxPltPVC q.nPRVC_CY q.nPRVC_CB q.nPRVC_CR)
    (bplt : q.pvcOn.toNat = upOn → Bytes3 v.gnBBoxPltPVC q.nPRVC_CB q.nPRVC_CR q.nPRVC_CY) :
    Shared q t gnBoxOnAeMon r r' := by
  obtain ⟨sti, hsti⟩ : ∃ sti, sti = ispBoxEa - t.gnBoxNumIMD := ⟨_, rfl⟩
  obtain ⟨sta, hsta⟩ : ∃ sta, sta = sti - q.zones.length := ⟨_, rfl⟩
  have total : sti + t.gnBoxNumIMD = 32 ∧ sta + q.zones.length = sti := by
    unfold ispBoxEa at hsti room
    omega
  rw [← hsti, ← hsta] at bits
  refine ⟨room, ?_, ?_, ?_, fun on => bits.bboxfmt ▸ bplt on⟩
  · intro k hk
    rw [← hsti, ← hsta]
    have here : decide (sta + k < sta) = false ∧ decide (sta ≤ sta + k) = true :=
      ⟨decide_eq_false (by omega), decide_eq_true (by omega)⟩
    have own : decide (sta ≤ sta + k ∧ sta + k < sti) = true := decide_eq_true (by omega)
    have at_ := bits.pvc k (hv.num ▸ hk)
    obtain ⟨y, x⟩ := hv.pos k hk
    have on : q.pvcOn.toNat = upOn := by
      by_contra off
      rw [PvcPar.zones, if_neg off] at hk
      exact absurd hk (Nat.not_lt_zero k)
    refine ⟨?_, ?_, ?_, ?_, ?_, ?_, ?_⟩
    · rw [bits.on _ (by omega), here.2, Bool.or_true]
    · rw [bits.fill _ (by omega), own, Bool.or_true]
    · intro b hb
      exact (bits.unseen_pvc hv total.2 (by omega) hk hb).2 fun d pos le => unseen.pvc d pos (by omega) b hb
    · rw [bits.fmt _ (by omega), own, Bool.and_true]
    · rw [at_.y, y]
      exact q.yPos_halves (q.zones_bytes (List.getElem_mem hk))
    · rw [at_.x, x]
      exact q.xPos_halves (q.zones_bytes (List.getElem_mem hk))
    · rw [at_.plt]
      exact plt on
  · intro m hm
    rw [← hsti]
    have at_ := bits.imd m hm
    have y := t.gnBoxPosIMD.loadU_halves (2 * m)
    have x := t.gnBoxPosIMD.loadU_halves (2 * m + 1)
    rw [show 4 * (2 * m) = 8 * m by omega] at y
    rw [show 4 * (2 * m + 1) = 8 * m + 4 by omega] at x
    refine ⟨?_, ?_, ?_, ?_, ?_⟩
    · rw [bits.on _ (by omega), ht.on, decide_eq_true hm, decide_eq_true (by omega : sta ≤ sti + m), Bool.or_true]
    · rw [bits.fill _ (by omega), decide_eq_false (by omega : ¬sti + m < sta), decide_eq_true (by omega : sti ≤ sti + m),
        decide_eq_false (by omega : ¬(sta ≤ sti + m ∧ sti + m < sti)), Bool.and_false, Bool.false_or, Bool.true_and,
        Bool.or_false, Nat.add_sub_cancel_left]
    · intro b hb
      exact (bits.unseen_imd hv total.2 (by omega) hb).2 fun room d md le => unseen.imd m hm room d md le b hb
    · rw [at_.y]
      exact y
    · rw [at_.x]
      exact x
  · intro h hh
    rw [← hsti, ← hsta] at hh
    have below : decide (h < sta) = true ∧ decide (sta ≤ h) = false ∧ decide (sti ≤ h) = false ∧
        decide (sta ≤ h ∧ h < sti) = false :=
      ⟨decide_eq_true hh, decide_eq_false (by omega), decide_eq_false (by omega), decide_eq_false (by omega)⟩
    refine ⟨?_, ?_, ?_⟩
    · rw [bits.on _ (by omega), below.1, below.2.1, Bool.and_true, Bool.or_false]
    · rw [bits.fill _ (by omega), below.1, below.2.2.1, below.2.2.2, Bool.and_true, Bool.false_and, Bool.or_false,
        Bool.or_false]
    · intro b hb
      rw [bits.tone _ (by omega), decide_eq_true (by omega : (2 * h + b) / 2 < sta),
        decide_eq_false (by omega : ¬2 * sta ≤ 2 * h + b), decide_eq_false (by omega : ¬2 * sti ≤ 2 * h + b),
        Bool.and_true, Bool.false_and, Bool.false_and, Bool.or_false, Bool.or_false]

/-- Registers that are shared show no bit of the transparency. -/
theorem Shared.unseen (h : Shared q t gnBoxOnAeMon r r') (hv : Holds q q.zones v)
    (bits : LastBits p q v t gnBoxOnAeMon (ispBoxEa - t.gnBoxNumIMD - q.zones.length) (ispBoxEa - t.gnBoxNumIMD) r r') :
    q.Unseen t := by
  have room := h.room
  unfold ispBoxEa at room
  have total : ispBoxEa - t.gnBoxNumIMD + t.gnBoxNumIMD = 32 ∧
      ispBoxEa - t.gnBoxNumIMD - q.zones.length + q.zones.length = ispBoxEa - t.gnBoxNumIMD := by
    unfold ispBoxEa
    omega
  constructor
  · intro d pos lt b hb set
    exact (bits.unseen_pvc hv total.2 (by omega) lt hb).1 ((h.pvc d lt).tone b hb) d pos (Nat.le_refl d) set
  · intro m hm room d md le b hb set
    exact (bits.unseen_imd hv total.2 (by omega) hb).1 ((h.imd m hm).tone b hb) room d md le set

end whole

/-- The registers are shared where there is a motion box, the transparency is not seen behind its boxes, and the
colours are in range. -/
theorem boxLast_iff (q : PvcPar) (v : BoxPvc) (p : BoxPar) {s t : BoxImd} (ht : boxIMD p s = some t)
    (le : t.gnBoxNumIMD ≤ imdBoxEa) (gnBoxOnAeMon : Nat) (r : BoxRegs) :
    (∃ u r', privacyBox q v = some u ∧ boxLast p u t gnBoxOnAeMon r = some r' ∧ Shared q t gnBoxOnAeMon r r') ↔
      0 < t.gnBoxNumIMD ∧ q.Unseen t ∧ (q.pvcOn.toNat = upOn → q.Levels) := by
  have listed := boxIMD_listed ht
  obtain ⟨u, hu, holds, plt⟩ := privacyBox_holds q v
  constructor
  · rintro ⟨u', r', hu', hr, shared⟩
    obtain rfl : u = u' := Option.some.inj (hu.symm.trans hu')
    have bits := boxLast_bits holds listed hr
    refine ⟨boxLast_pos hr, shared.unseen holds bits, fun on => ?_⟩
    have bytes := shared.colour on
    rw [bits.bboxfmt, (plt on).1] at bytes
    obtain ⟨cb, cr, cy⟩ := bytes3_iff.1 bytes
    exact q.colours_iff.1 ⟨cy, cb, cr⟩
  · rintro ⟨pos, unseen, levels⟩
    have few : q.zones.length ≤ 16 := q.zones_length_le
    have le' : t.gnBoxNumIMD ≤ 16 := le
    have room : q.zones.length + t.gnBoxNumIMD ≤ 32 := by omega
    obtain ⟨r', hr⟩ := boxLast_ends (p := p) (v := u) pos le (by rw [holds.num, Nat.add_comm]; exact room)
      gnBoxOnAeMon r
    refine ⟨u, r', hu, hr, shared_of holds listed room (boxLast_bits holds listed hr) unseen ?_ ?_⟩
    · intro on
      obtain ⟨cy, cb, cr⟩ := q.colours_iff.2 (levels on)
      rw [(plt on).2]
      exact bytes3_iff.2 ⟨cy, cb, cr⟩
    · intro on
      obtain ⟨cy, cb, cr⟩ := q.colours_iff.2 (levels on)
      rw [(plt on).1]
      exact bytes3_iff.2 ⟨cb, cr, cy⟩

/-- No window has an action: the box of the frame is the only one. -/
def frameOnly : BoxPar where
  frHw := 1920
  frVw := 1080
  itlMaskOsd := upOn
  itlRectFill := 0
  itlDettone := 0
  gbMnImdDetWin := 0
  gbMnImdZone := 0
  gbIMD_Update := 0
  gbMnImdCfg _ := ⟨0, 0, 0, 0, 0⟩
  gbMaskOnNum := 0
  gbMaskOnNum_le := Nat.zero_le maskEa

/-- Every zone has a box, with a transparency and levels of the menu. -/
def allZones : PvcPar where
  frHw := 1920
  frVw := 1080
  frHw_le := by decide
  pvcOn := 1
  pvcFormat := 1
  pvcTrans := 2
  pvcYLevel := 18
  pvcCBLevel := 10
  pvcCRLevel := 10
  gbMnPvcCfg _ := ⟨⟨1, 8, 2, 3, 3⟩, by decide, by decide, by decide, by decide⟩

def emptyImd : BoxImd := ⟨fun _ => 0, 0, 0, 0, 0, 0, 0⟩

def emptyPvc : BoxPvc := ⟨fun _ => 0, 0, (0, 0), 0, 0, 0, 0, 0⟩

def emptyRegs : BoxRegs := ⟨fun _ => 0, fun _ => 0, 0, 0, 0, 0, 0, 0⟩

theorem boxLast_iff_seventeen : ∃ t u r', boxIMD frameOnly emptyImd = some t ∧ privacyBox allZones emptyPvc = some u ∧
    boxLast frameOnly u t 0 emptyRegs = some r' ∧ Shared allZones t 0 emptyRegs r' := by
  have areas : frameOnly.HasAreas := ⟨rfl, by decide⟩
  obtain ⟨t, ht⟩ := boxIMD_areas_ends (p := frameOnly) (s := emptyImd) areas fun _ _ => .inl (by decide)
  obtain ⟨-, -, num, -⟩ := boxIMD_areas_some areas ht
  have one : t.gnBoxNumIMD = 1 := num
  obtain ⟨u, r', hu, hr, shared⟩ :=
    (boxLast_iff allZones emptyPvc frameOnly ht (one ▸ by decide) 0 emptyRegs).2
      ⟨one ▸ Nat.one_pos, PvcPar.unseen_of_le (by decide) t, fun _ => ⟨by decide, by decide, by decide⟩⟩
  exact ⟨t, u, r', ht, hu, hr, shared⟩

/-- Without a motion box the list of the privacy boxes is all there is, and a word is shifted by all its bits. -/
theorem boxLast_empty :
    ¬∀ (q : PvcPar) (v : BoxPvc) (p : BoxPar) (s t : BoxImd) (gnBoxOnAeMon : Nat) (r : BoxRegs),
      boxIMD p s = some t → t.gnBoxNumIMD ≤ imdBoxEa →
        ∃ u r', privacyBox q v = some u ∧ boxLast p u t gnBoxOnAeMon r = some r' ∧ Shared q t gnBoxOnAeMon r r' := by
  intro h
  have off : boxIMD { frameOnly with itlMaskOsd := 0 } emptyImd = some emptyImd.cleared := boxIMD_off (by decide)
  obtain ⟨u, r', -, hr, -⟩ := h allZones emptyPvc _ _ _ 0 emptyRegs off (by decide)
  exact absurd (boxLast_pos hr) (by decide)

end En675.Isp
