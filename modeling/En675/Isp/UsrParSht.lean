import En675.Isp.UsrParCpy

/-! The three limits of the shutter under `UsrParCpy`: each is copied through `ShutterMenuSet`, which writes
all three back from `gbUpShtMin`, `gbUpDeblurMin` and `gbUpShtMax`. -/

namespace En675.Isp

open Lib

def UsrPar.limits : List UsrPar := [.ShtMin, .DeblurMin, .ShtMax]

def ShtLimits.set (g : ShtLimits) (v : Nat) : UsrPar → ShtLimits
  | .ShtMin => { g with shtMin := v }
  | .DeblurMin => { g with deblurMin := v }
  | .ShtMax => { g with shtMax := v }
  | _ => g

attribute [ext] ShtLimits

/-- The preset of the mode, if it is not one of the `CUSTOM` modes. -/
def shtPreset (t : UpList) : Option ShtLimits :=
  if t .Iris = upLensMnl then
    match t .ShtMode with
    | 0 => some ⟨upShtMinDefault, upMnlShutDiv1, upMnlShutDiv1⟩
    | 1 => some ⟨upShtMinDefault, upMnlShutDiv8, upMnlShutDiv1⟩
    | _ => none
  else
    match t .DcMode with
    | 0 => some ⟨upMnlShutDiv1, upMnlShutDiv1, upMnlShutDiv1⟩
    | 1 => some ⟨upMnlShutDiv8, upMnlShutDiv1, upMnlShutDiv1⟩
    | 2 => some ⟨upMnlShutDiv8, upMnlShutDiv8, upMnlShutDiv1⟩
    | _ => none

theorem shutterMenu_eq (t : UpList) : shutterMenu t = (shtPreset t).getD (upLimits t) := by
  unfold shutterMenu shtPreset
  split
  · generalize t .ShtMode = m
    match m with
    | 0 | 1 | _ + 2 => rfl
  · generalize t .DcMode = m
    match m with
    | 0 | 1 | 2 | _ + 3 => rfl

theorem shtPreset_shtMax (h : shtPreset t = some p) : p.shtMax = 0 := by
  revert h
  unfold shtPreset
  split
  · split <;> simp +contextual [upMnlShutDiv1, eq_comm]
  · split <;> simp +contextual [upMnlShutDiv1, eq_comm]

theorem shtPreset_congr (iris : u .Iris = t .Iris) (sht : u .ShtMode = t .ShtMode)
    (dc : u .DcMode = t .DcMode) : shtPreset u = shtPreset t := by
  unfold shtPreset
  rw [iris, sht, dc]

namespace UsrPars

section step

variable {c : UpCfg} {n : UsrPar} {s : UsrPars}

theorem run_limit (hn : n ∈ UsrPar.limits) (s : UsrPars) :
    n.run c s = shutterMenuSet { s with gbUp := s.gbUp.set (s.up n) n } := by
  simp only [UsrPar.limits, List.mem_cons, List.not_mem_nil, or_false] at hn
  obtain rfl | rfl | rfl := hn <;> rfl

/-- What `ShutterMenuSet` does: it falls back to the mode's limits, or writes those it has, clamped. -/
theorem shutterMenuSet_cases (s : UsrPars) :
    (s.gbUp.shtMin < s.gbUp.shtMax ∧ (shutterMenuSet s).up = s.up ∧
        (shutterMenuSet s).gbUp = shutterMenu s.up) ∨
      (s.gbUp.shtMax ≤ s.gbUp.shtMin ∧ upLimits (shutterMenuSet s).up = s.gbUp.clampDeblur ∧
        (shutterMenuSet s).gbUp = s.gbUp.clampDeblur ∧ (shutterMenuSet s).up .ShtMode = upShtCustom ∧
        (shutterMenuSet s).up .Iris = s.up .Iris ∧ (shutterMenuSet s).up .DcMode = s.up .DcMode) := by
  unfold shutterMenuSet
  by_cases lt : s.gbUp.shtMin < s.gbUp.shtMax
  · rw [if_pos lt]
    exact .inl ⟨lt, rfl, rfl⟩
  · rw [if_neg lt]
    dsimp only
    refine .inr ⟨not_lt.1 lt, ?_, rfl, put_up_same _ _ _, ?_, ?_⟩
    · unfold upLimits
      simp only [put_up_ne _ _ _ (by decide : UsrPar.ShtMin ≠ .ShtMode),
        put_up_ne _ _ _ (by decide : UsrPar.ShtMin ≠ .ShtMax),
        put_up_ne _ _ _ (by decide : UsrPar.ShtMin ≠ .DeblurMin),
        put_up_ne _ _ _ (by decide : UsrPar.DeblurMin ≠ .ShtMode),
        put_up_ne _ _ _ (by decide : UsrPar.DeblurMin ≠ .ShtMax),
        put_up_ne _ _ _ (by decide : UsrPar.ShtMax ≠ .ShtMode), put_up_same]
    all_goals
      rw [put_up_ne _ _ _ (by decide), put_up_ne _ _ _ (by decide), put_up_ne _ _ _ (by decide),
        put_up_ne _ _ _ (by decide)]

theorem upLimits_put (hn : n ∈ UsrPar.limits) (s : UsrPars) (v : Nat) :
    upLimits (s.put n v).up = (upLimits s.up).set v n := by
  simp only [UsrPar.limits, List.mem_cons, List.not_mem_nil, or_false] at hn
  unfold upLimits
  obtain rfl | rfl | rfl := hn
  · rw [put_up_same, put_up_ne _ _ _ (by decide), put_up_ne _ _ _ (by decide), ShtLimits.set]
  · rw [put_up_same, put_up_ne _ _ _ (by decide), put_up_ne _ _ _ (by decide), ShtLimits.set]
  · rw [put_up_same, put_up_ne _ _ _ (by decide), put_up_ne _ _ _ (by decide), ShtLimits.set]

/-- `ShutterMenuSet` falls back to the limits of the mode. -/
structure FallsBack (n : UsrPar) (s t : UsrPars) : Prop where
  lt : (s.gbUp.set (s.saved n) n).shtMin < (s.gbUp.set (s.saved n) n).shtMax
  limits : upLimits t.up = (upLimits s.up).set (s.saved n) n
  gbUp : t.gbUp = (shtPreset s.up).getD (upLimits t.up)
  preset : shtPreset t.up = shtPreset s.up

/-- `ShutterMenuSet` writes the three limits. -/
structure Writes (n : UsrPar) (s t : UsrPars) : Prop where
  le : (s.gbUp.set (s.saved n) n).shtMax ≤ (s.gbUp.set (s.saved n) n).shtMin
  limits : upLimits t.up = (s.gbUp.set (s.saved n) n).clampDeblur
  gbUp : t.gbUp = (s.gbUp.set (s.saved n) n).clampDeblur
  sht : t.up .ShtMode = upShtCustom
  dc : t.up .DcMode = s.up .DcMode

inductive LimitStep (n : UsrPar) (s t : UsrPars) : Prop
  | skip : s.up n = s.saved n → t = s → LimitStep n s t
  | back : s.up n ≠ s.saved n → FallsBack n s t → LimitStep n s t
  | write : s.up n ≠ s.saved n → Writes n s t → LimitStep n s t

theorem not_limit_of_mode (hn : n ∈ UsrPar.limits) : n ∉ [UsrPar.Iris, .ShtMode, .DcMode] := by
  simp only [UsrPar.limits, List.mem_cons, List.not_mem_nil, or_false] at hn
  obtain rfl | rfl | rfl := hn <;> decide

theorem put_preset (hn : n ∈ UsrPar.limits) (s : UsrPars) (v : Nat) :
    shtPreset (s.put n v).up = shtPreset s.up := by
  have mode : ∀ m ∈ [UsrPar.Iris, .ShtMode, .DcMode], (s.put n v).up m = s.up m := fun m hm =>
    put_up_ne _ _ _ fun eq => not_limit_of_mode hn (eq ▸ hm)
  exact shtPreset_congr (mode _ (by decide)) (mode _ (by decide)) (mode _ (by decide))

theorem limitStep_of_ne (hn : n ∈ UsrPar.limits) (ne : s.up n ≠ s.saved n)
    (up : u.up = (s.put n (s.saved n)).up) (gbUp : u.gbUp = s.gbUp.set (s.saved n) n) :
    LimitStep n s (shutterMenuSet u) := by
  have preset : shtPreset u.up = shtPreset s.up := up ▸ put_preset hn s _
  obtain ⟨lt, up', gbUp'⟩ | ⟨le, limits, gbUp', sht, -, dc⟩ := shutterMenuSet_cases u
  · refine .back ne ⟨gbUp ▸ lt, ?_, ?_, ?_⟩
    · rw [up', up, upLimits_put hn]
    · rw [gbUp', up', shutterMenu_eq, preset]
    · rw [up', preset]
  · refine .write ne ⟨gbUp ▸ le, limits.trans (gbUp ▸ rfl), gbUp'.trans (gbUp ▸ rfl), sht, ?_⟩
    rw [dc, up]
    exact put_up_ne _ _ _ fun eq => not_limit_of_mode hn (eq ▸ by decide)

theorem cpy_limit (hn : n ∈ UsrPar.limits) (s : UsrPars) : LimitStep n s (cpyOne c s n) := by
  by_cases eq : s.up n = s.saved n
  · exact .skip eq (cpyOne_of_eq eq)
  · have other : n ≠ .Style := fun h => absurd (h ▸ hn) (by decide)
    have unstyled : n ∉ usrParStyleList := by
      simp only [UsrPar.limits, List.mem_cons, List.not_mem_nil, or_false] at hn
      obtain rfl | rfl | rfl := hn <;> decide
    rw [cpyOne_of_ne eq, chg_run other unstyled, run_limit hn, put_up_same]
    exact limitStep_of_ne hn eq rfl rfl

end step

end UsrPars

section restorable

namespace ShtLimits

/-- The deblur limit lies between a longest and the shortest shutter. -/
def Between (l : ShtLimits) (longest : Nat) : Prop := longest ≤ l.deblurMin ∧ l.deblurMin ≤ l.shtMin

/-- Limits that come back where a `CUSTOM` mode is set all through the copy: `ShtMin` and `DeblurMin` past
the old `ShtMax`, then `ShtMax` past them. -/
def Follows (cur sav : ShtLimits) : Prop :=
  (cur.shtMin = sav.shtMin ∧ cur.deblurMin = sav.deblurMin ∨ sav.shtMin < cur.shtMax ∨
      sav.Between cur.shtMax) ∧
    (cur.shtMax = sav.shtMax ∨ sav.shtMin < sav.shtMax ∨ sav.Between sav.shtMax)

/-- With the other two in place, `ShtMax` comes back past the limits of a preset. -/
def Keeps (p cur sav : ShtLimits) : Prop :=
  cur.shtMax = sav.shtMax ∨ p.shtMin < sav.shtMax ∨
    p.shtMin = sav.shtMin ∧ max sav.shtMax (min p.deblurMin p.shtMin) = sav.deblurMin

/-- Limits that come back after all three were written with a preset's `ShtMax` of 0. -/
def Rewrites (sav : ShtLimits) : Prop :=
  sav.deblurMin ≤ sav.shtMin ∧ (sav.shtMax = 0 ∨ sav.shtMin < sav.shtMax ∨ sav.shtMax ≤ sav.deblurMin)

/-- `ShutterMenuSet`'s two comparisons as one clamp. -/
def clamped (g : ShtLimits) : ShtLimits := ⟨g.shtMin, max g.shtMax (min g.deblurMin g.shtMin), g.shtMax⟩

theorem clampDeblur_of_le (g : ShtLimits) (h : g.shtMax ≤ g.shtMin) : g.clampDeblur = g.clamped := by
  unfold clampDeblur clamped
  ext
  · rfl
  · dsimp only
    split <;> split <;> omega
  · rfl

/-- The value one of the limits has. -/
def get (l : ShtLimits) : UsrPar → Nat
  | .ShtMin => l.shtMin
  | .DeblurMin => l.deblurMin
  | _ => l.shtMax

/-- One limit copied, as far as the three limits and the three variables go. -/
inductive Copied (p : Option ShtLimits) (n : UsrPar) (v : Nat) (l g : ShtLimits) : ShtLimits → ShtLimits → Prop
  | skip : l.get n = v → Copied p n v l g l g
  | back : l.get n ≠ v → (g.set v n).shtMin < (g.set v n).shtMax →
      Copied p n v l g (l.set v n) (p.getD (l.set v n))
  | write : l.get n ≠ v → (g.set v n).shtMax ≤ (g.set v n).shtMin →
      Copied p n v l g (g.set v n).clamped (g.set v n).clamped

/-- Limits `cur` that the copy turns into `sav`, starting with `gb` in the three variables. -/
def Restorable (cur sav gb : ShtLimits) : Option ShtLimits → Prop
  | none => cur.Follows sav
  | some p =>
    let sameMin := cur.shtMin = sav.shtMin
    let sameDeblur := cur.deblurMin = sav.deblurMin
    if gb = p then
      if sameMin ∧ sameDeblur then p.Keeps cur sav else (sameMin → p.shtMin = sav.shtMin) ∧ sav.Rewrites
    else if cur.shtMax ≤ sav.shtMin ∨ sameMin ∧ sameDeblur then cur.Follows sav
    else if sameMin ∨ sameDeblur then p.Keeps cur sav
    else p.shtMin = sav.shtMin ∧ sav.Rewrites

section decidable

variable (cur sav p : ShtLimits)

instance (n : Nat) : Decidable (cur.Between n) := inferInstanceAs (Decidable (_ ∧ _))

instance : Decidable (cur.Follows sav) := inferInstanceAs (Decidable (_ ∧ _))

instance : Decidable (p.Keeps cur sav) := inferInstanceAs (Decidable (_ ∨ _))

instance : Decidable sav.Rewrites := inferInstanceAs (Decidable (_ ∧ _))

instance Restorable.decidable (cur sav gb : ShtLimits) : (p : Option ShtLimits) →
    Decidable (cur.Restorable sav gb p)
  | none => inferInstanceAs (Decidable (cur.Follows sav))
  | some p => inferInstanceAs (Decidable (ite (gb = p) (ite _ _ _) (ite _ _ (ite _ _ _))))

end decidable

section three

variable {p : Option ShtLimits} {menu cur sav l1 g1 l2 g2 l3 g3 : ShtLimits}

theorem copied_custom (h1 : Copied none .ShtMin sav.shtMin cur cur l1 g1)
    (h2 : Copied none .DeblurMin sav.deblurMin l1 g1 l2 g2) (h3 : Copied none .ShtMax sav.shtMax l2 g2 l3 g3) :
    l3 = sav ↔ cur.Follows sav := by
  unfold Follows Between
  rw [ShtLimits.ext_iff]
  cases h1 <;> cases h2 <;> cases h3 <;>
    simp only [get, set, clamped, Option.getD_none, and_true, true_and, true_iff] at * <;> grind

/-- From the limits of a preset; what `ShutterMenuSet` would fall back to later is not written any more. -/
theorem copied_menu (zero : menu.shtMax = 0) (h1 : Copied (some menu) .ShtMin sav.shtMin cur menu l1 g1)
    (h2 : Copied p .DeblurMin sav.deblurMin l1 g1 l2 g2) (h3 : Copied q .ShtMax sav.shtMax l2 g2 l3 g3) :
    l3 = sav ↔
      if cur.shtMin = sav.shtMin ∧ cur.deblurMin = sav.deblurMin then menu.Keeps cur sav
      else (cur.shtMin = sav.shtMin → menu.shtMin = sav.shtMin) ∧ sav.Rewrites := by
  unfold Keeps Rewrites
  rw [ShtLimits.ext_iff]
  split
  all_goals
    cases h1 <;> cases h2 <;> cases h3 <;>
      simp only [get, set, clamped, Option.getD_some, and_true, true_and, true_iff] at * <;> grind

/-- From limits that were written, in a mode whose preset stays. -/
theorem copied_written (zero : menu.shtMax = 0) (h1 : Copied (some menu) .ShtMin sav.shtMin cur cur l1 g1)
    (h2 : Copied (some menu) .DeblurMin sav.deblurMin l1 g1 l2 g2)
    (h3 : Copied (some menu) .ShtMax sav.shtMax l2 g2 l3 g3) :
    l3 = sav ↔
      if cur.shtMax ≤ sav.shtMin ∨ cur.shtMin = sav.shtMin ∧ cur.deblurMin = sav.deblurMin then
        cur.Follows sav
      else if cur.shtMin = sav.shtMin ∨ cur.deblurMin = sav.deblurMin then menu.Keeps cur sav
      else menu.shtMin = sav.shtMin ∧ sav.Rewrites := by
  unfold Follows Between Keeps Rewrites
  rw [ShtLimits.ext_iff]
  split_ifs
  all_goals
    cases h1 <;> cases h2 <;> cases h3 <;>
      simp only [get, set, clamped, Option.getD_some, and_true, true_and, true_iff] at * <;> grind

end three

end ShtLimits

namespace UsrPars

/-- `gbUpShtMin`, `gbUpDeblurMin` and `gbUpShtMax` are those of the mode, or were written to the table. -/
def Shuttered (s : UsrPars) : Prop :=
  s.gbUp = shutterMenu s.up ∨ s.gbUp = upLimits s.up ∧ s.up .Iris ≠ upLensMnl

/-- When the copy of the three limits restores them. -/
def LimitsRestorable (s : UsrPars) : Prop :=
  (upLimits s.up).Restorable (upLimits s.saved) s.gbUp (shtPreset s.up)

instance (s : UsrPars) : Decidable s.LimitsRestorable :=
  ShtLimits.Restorable.decidable _ _ _ (shtPreset s.up)

section three

variable {c : UpCfg} {s : UsrPars}

/-- The copies of the three limits. -/
def cpyLimits (c : UpCfg) (s : UsrPars) : UsrPars := UsrPar.limits.foldl (cpyOne c) s

theorem LimitStep.copied (hn : n ∈ UsrPar.limits) (h : LimitStep n s t) :
    (upLimits s.up).Copied (shtPreset s.up) n (s.saved n) s.gbUp (upLimits t.up) t.gbUp := by
  have get : (upLimits s.up).get n = s.up n := by
    simp only [UsrPar.limits, List.mem_cons, List.not_mem_nil, or_false] at hn
    obtain rfl | rfl | rfl := hn <;> rfl
  cases h with
  | skip eq same =>
    subst same
    exact .skip (get.trans eq)
  | back ne b =>
    rw [b.gbUp, b.limits]
    exact .back (get.trans_ne ne) b.lt
  | write ne w =>
    rw [w.gbUp, w.limits, ShtLimits.clampDeblur_of_le _ w.le]
    exact .write (get.trans_ne ne) w.le

/-- A mode without a preset stays so, and so does any mode of an iris lens. -/
theorem LimitStep.preset (h : LimitStep n s t) (iris : t.up .Iris = s.up .Iris) :
    shtPreset t.up = shtPreset s.up ∨ shtPreset t.up = none ∧ s.up .Iris = upLensMnl := by
  cases h with
  | skip _ eq => exact .inl (congrArg _ (congrArg _ eq))
  | back _ b => exact .inl b.preset
  | write _ w =>
    unfold shtPreset
    rw [iris, w.sht, w.dc]
    split
    · exact .inr ⟨rfl, ‹_›⟩
    · exact .inl rfl

theorem cpyLimits_iff (hk : s.saved .Style ≤ 7) (shut : Shuttered s) :
    upLimits (cpyLimits c s).up = upLimits s.saved ↔ LimitsRestorable s := by
  have step1 := cpy_limit (c := c) (n := .ShtMin) (by decide) s
  have iris1 : (cpyOne c s .ShtMin).up .Iris = s.up .Iris := cpyOne_up hk (by decide) (by decide)
  have saved1 := cpyOne_saved (c := c) hk .ShtMin
  unfold cpyLimits UsrPar.limits
  simp only [List.foldl_cons, List.foldl_nil]
  generalize cpyOne c s .ShtMin = t1 at *
  have step2 := cpy_limit (c := c) (n := .DeblurMin) (by decide) t1
  have iris2 : (cpyOne c t1 .DeblurMin).up .Iris = t1.up .Iris :=
    cpyOne_up (saved1 ▸ hk) (by decide) (by decide)
  have saved2 := (cpyOne_saved (c := c) (saved1 ▸ hk) .DeblurMin).trans saved1
  generalize cpyOne c t1 .DeblurMin = t2 at *
  have step3 := cpy_limit (c := c) (n := .ShtMax) (by decide) t2
  generalize cpyOne c t2 .ShtMax = t3 at *
  have h1 := step1.copied (by decide)
  have h2 := step2.copied (by decide)
  have h3 := step3.copied (by decide)
  rw [saved1] at h2
  rw [saved2] at h3
  have preset1 := step1.preset iris1
  have preset2 := step2.preset iris2
  unfold LimitsRestorable
  cases hp : shtPreset s.up with
  | none =>
    have gb : s.gbUp = upLimits s.up := by
      obtain gb | gb := shut
      · rw [gb, shutterMenu_eq, hp]
        rfl
      · exact gb.1
    have none1 : shtPreset t1.up = none := preset1.elim (·.trans hp) And.left
    have none2 : shtPreset t2.up = none := preset2.elim (·.trans none1) And.left
    rw [hp, gb] at h1
    rw [none1] at h2
    rw [none2] at h3
    exact ShtLimits.copied_custom h1 h2 h3
  | some p =>
    unfold ShtLimits.Restorable
    dsimp only
    have zero := shtPreset_shtMax hp
    rw [hp] at h1
    by_cases gb : s.gbUp = p
    · rw [gb] at h1
      rw [if_pos gb]
      exact ShtLimits.copied_menu zero h1 h2 h3
    · obtain menu | ⟨written, iris⟩ := shut
      · exact absurd (menu.trans (by rw [shutterMenu_eq, hp]; rfl)) gb
      · have some1 : shtPreset t1.up = some p :=
          (preset1.resolve_right fun h => iris h.2).trans hp
        have some2 : shtPreset t2.up = some p :=
          (preset2.resolve_right fun h => iris (iris1 ▸ h.2)).trans some1
        rw [written] at h1
        rw [some1] at h2
        rw [some2] at h3
        rw [if_neg gb]
        exact ShtLimits.copied_written zero h1 h2 h3

/-- Nothing before the three limits and nothing after them has a part in it. -/
theorem cpy_limits (hk : s.saved .Style ≤ 7) (shut : Shuttered s) :
    upLimits (usrParList.foldl (cpyOne c) s).up = upLimits s.saved ↔ LimitsRestorable s := by
  have split : usrParList.drop UsrPar.ShtMin.ctorIdx =
      UsrPar.limits ++ usrParList.drop (UsrPar.ShtMax.ctorIdx + 1) := by decide +kernel
  rw [← List.take_append_drop UsrPar.ShtMin.ctorIdx usrParList, split, List.foldl_append, List.foldl_append]
  have saved := foldl_saved (c := c) hk (usrParList.take UsrPar.ShtMin.ctorIdx)
  have spared : ∀ m ∈ UsrPar.ShtMin :: .DeblurMin :: .ShtMax :: [.Iris, .ShtMode, .DcMode],
      Spares (usrParList.take UsrPar.ShtMin.ctorIdx) m := by decide +kernel
  have up := fun m hm => foldl_up (c := c) hk (spared m hm)
  have gbUp := foldl_gbUp (c := c) hk (l := usrParList.take UsrPar.ShtMin.ctorIdx) (by decide +kernel)
  generalize (usrParList.take UsrPar.ShtMin.ctorIdx).foldl (cpyOne c) s = t at saved up gbUp
  have limits : upLimits t.up = upLimits s.up := by
    unfold upLimits
    rw [up _ (by decide), up _ (by decide), up _ (by decide)]
  have preset : shtPreset t.up = shtPreset s.up :=
    shtPreset_congr (up _ (by decide)) (up _ (by decide)) (up _ (by decide))
  have shut' : Shuttered t := by
    unfold Shuttered
    rw [gbUp, shutterMenu_eq, preset, limits, ← shutterMenu_eq, up _ (by decide)]
    exact shut
  have same : LimitsRestorable t ↔ LimitsRestorable s := by
    unfold LimitsRestorable
    rw [gbUp, limits, preset, saved]
  have hk' : t.saved .Style ≤ 7 := saved ▸ hk
  have later : ∀ m ∈ UsrPar.limits, Spares (usrParList.drop (UsrPar.ShtMax.ctorIdx + 1)) m := by
    decide +kernel
  have hk'' : (cpyLimits c t).saved .Style ≤ 7 := foldl_saved (c := c) hk' UsrPar.limits ▸ hk'
  have rest : upLimits ((usrParList.drop (UsrPar.ShtMax.ctorIdx + 1)).foldl (cpyOne c) (cpyLimits c t)).up =
      upLimits (cpyLimits c t).up := by
    unfold upLimits
    rw [foldl_up hk'' (later _ (by decide)), foldl_up hk'' (later _ (by decide)),
      foldl_up hk'' (later _ (by decide))]
  rw [← same, ← cpyLimits_iff hk' shut', ← saved]
  exact Eq.congr_left rest

end three

end UsrPars

end restorable

end En675.Isp
