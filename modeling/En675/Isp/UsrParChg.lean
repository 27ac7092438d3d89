import En675.Isp.UsrPar

/-! What a changed parameter can do to the rest of the table: which entries its handler writes, and what
selecting a style leaves. -/

namespace En675.Isp

open Lib

/-- The entries `UsrParChg` of an entry can write. -/
def UsrPar.touched : UsrPar → List UsrPar
  | .ShtMin | .DeblurMin | .ShtMax => [.ShtMin, .DeblurMin, .ShtMax, .ShtMode]
  | .ISP_FW_Ver => [.ISP_FW_Ver]
  | .ISP_FW_Build_Year | .ISP_FW_Build_MonthDay | .ISP_FW_Build_Time =>
    [.ISP_FW_Build_Year, .ISP_FW_Build_MonthDay, .ISP_FW_Build_Time]
  | .Sensor_ID => [.Sensor_ID]
  | .Sensor_Ctrl => [.Sensor_Ctrl]
  | .Sensor_FPS => [.Sensor_FPS]
  | .Stabilizing => [.ErrChtMax, .ErrChtMin]
  | .DZoom | .DZoomPosH | .DZoomPosV => [.DZoomPosH, .DZoomPosV]
  | .Brightness | .Adnr2D | .ShpBigEdge | .Gamma | .Ace => [.Style]
  | .Style => usrParStyleList
  | _ => []

/-- The entries whose code moves the limits of the shutter. -/
def UsrPar.shutter : List UsrPar := [.ShtMin, .DeblurMin, .ShtMax, .Iris, .DcMode, .ShtMode]

namespace UsrPars

section put

variable (s : UsrPars) (n : UsrPar) (v : Nat)

@[simp] theorem put_tbl : (s.put n v).gbUsrParTbl = Function.update s.gbUsrParTbl n v := rfl
theorem put_up : (s.put n v).up = Function.update s.up n v := rfl
theorem put_up_same : (s.put n v).up n = v := by
  rw [put_up, Function.update_self]

theorem put_up_ne {m : UsrPar} (h : m ≠ n) : (s.put n v).up m = s.up m := by
  rw [put_up, Function.update_of_ne h]

@[simp] theorem put_saved : (s.put n v).gbUsrParTblSaved = s.gbUsrParTblSaved := rfl
@[simp] theorem put_gbUp : (s.put n v).gbUp = s.gbUp := rfl
@[simp] theorem put_bStyleBuf : (s.put n v).bStyleBuf = s.bStyleBuf := rfl
@[simp] theorem put_bStylePrv : (s.put n v).bStylePrv = s.bStylePrv := rfl

theorem put_up_self : s.put n (s.up n) = s := by
  unfold put
  rw [Function.update_eq_self]

end put

/-- Two states that differ in the table and the limits only. -/
structure SameStyle (s t : UsrPars) : Prop where
  saved : t.saved = s.saved
  buf : t.bStyleBuf = s.bStyleBuf
  prv : t.bStylePrv = s.bStylePrv

section run

variable {c : UpCfg} {m n : UsrPar} {s : UsrPars}

theorem shutterMenuSet_same (s : UsrPars) : SameStyle s (shutterMenuSet s) := by
  unfold shutterMenuSet
  split
  · exact ⟨rfl, rfl, rfl⟩
  · exact ⟨rfl, rfl, rfl⟩

theorem run_same (c : UpCfg) (n : UsrPar) (s : UsrPars) : SameStyle s (n.run c s) := by
  unfold UsrPar.run
  split
  case h_1 | h_2 | h_3 =>
    have same := shutterMenuSet_same
    exact ⟨(same _).saved, (same _).buf, (same _).prv⟩
  all_goals exact ⟨rfl, rfl, rfl⟩

theorem shutterMenuSet_up (h : m ∉ UsrPar.touched .ShtMin) : (shutterMenuSet s).up m = s.up m := by
  simp only [UsrPar.touched, List.mem_cons, List.not_mem_nil, or_false, not_or] at h
  unfold shutterMenuSet
  split
  · rfl
  · simp [h]

theorem run_up (h : m ∉ n.touched) : (n.run c s).up m = s.up m := by
  revert h
  unfold UsrPar.run
  split
  case h_1 | h_2 | h_3 => exact fun h => (shutterMenuSet_up h).trans rfl
  all_goals simp +contextual [UsrPar.touched, antiSatStabilizingSet, usrParDateTime, dzoom, shutterMenuGet]

theorem run_gbUp (h : n ∉ UsrPar.shutter) : (n.run c s).gbUp = s.gbUp := by
  revert h
  unfold UsrPar.run
  split <;> simp [UsrPar.shutter, antiSatStabilizingSet, usrParDateTime, dzoom]

end run

section style

variable {c : UpCfg} {m n : UsrPar} {s : UsrPars}

theorem styleVals_of_not_mem (h : n ∉ usrParStyleList) : bStyleVals n = [] := by
  revert h
  unfold bStyleVals
  split
  case h_6 => exact fun _ => rfl
  all_goals exact fun h => absurd (by decide) h

theorem styleVal_of_not_mem (h : n ∉ usrParStyleList) (k : Nat) : styleVal n k = none := by
  unfold styleVal
  rw [styleVals_of_not_mem h, List.getElem?_nil, ite_self]

/-- Each of the seven styles has a value for each of its entries. -/
theorem styleVal_isSome : ∀ n ∈ usrParStyleList, ∀ k < 7, (styleVal n (k + 1)).isSome = true := by
  decide

theorem run_of_mem_style (h : n ∈ usrParStyleList) (s : UsrPars) : n.run c s = s := by
  simp only [usrParStyleList, List.mem_cons, List.not_mem_nil, or_false] at h
  obtain rfl | rfl | rfl | rfl | rfl := h <;> rfl

theorem styleChk_of_not_mem (h : n ∉ usrParStyleList) (s : UsrPars) : s.styleChk n = s := by
  unfold styleChk
  rw [styleVal_of_not_mem h]

theorem styleChk_saved : (s.styleChk n).saved = s.saved := by
  unfold styleChk
  split
  · split <;> rfl
  · rfl

theorem styleChk_gbUp : (s.styleChk n).gbUp = s.gbUp := by
  unfold styleChk
  split
  · split <;> rfl
  · rfl

theorem styleChk_prv : (s.styleChk n).bStylePrv = s.bStylePrv := by
  unfold styleChk
  split
  · split <;> rfl
  · rfl

theorem styleChk_up (h : m ≠ .Style) : (s.styleChk n).up m = s.up m := by
  unfold styleChk
  split
  · split
    · exact Function.update_of_ne h _ _
    · rfl
  · rfl

/-- An entry that has its style's value stays in the style. -/
theorem styleChk_of_styleVal (h : ∀ v, styleVal n s.bStyleBuf = some v → s.up n = v) : s.styleChk n = s := by
  unfold styleChk
  split
  case h_1 v hv => exact if_neg fun ne => ne (h v hv)
  case h_2 => rfl

theorem chgBy_change (n : UsrPar) (run : UsrPars → UsrPars) (s : UsrPars) :
    chgBy .change n run s = (run s).styleChk n := rfl

/-- The value `PREVIOUS` or a style leaves in `n`, out of the remembered ones. -/
def styleOf (prv : UpList) (k : Nat) (n : UsrPar) : Nat :=
  if k = 0 then prv n else (styleVal n k).getD 0

theorem styleTo_eq (hn : n ∈ usrParStyleList) (hk : k ≤ 7) (s : UsrPars) :
    s.styleTo k n = some (styleOf s.bStylePrv k n) := by
  unfold styleTo styleOf
  cases k with
  | zero => rfl
  | succ k =>
    obtain ⟨v, hv⟩ := Option.isSome_iff_exists.1 (styleVal_isSome n hn k hk)
    rw [if_neg k.succ_ne_zero, if_neg k.succ_ne_zero, hv]
    rfl

/-- In the loop of a style each write leaves the style as it is, since the buffer is its own already. -/
theorem styleSet_eq (hn : n ∈ usrParStyleList) (hk : k ≤ 7) (buf : s.bStyleBuf = k) :
    styleSet k (fun n => chgBy .change n (n.run c)) s n = s.put n (styleOf s.bStylePrv k n) := by
  unfold styleSet
  rw [styleTo_eq hn hk]
  dsimp only
  split
  · rw [chgBy_change, run_of_mem_style hn]
    refine styleChk_of_styleVal fun v hv => ?_
    rw [put_bStyleBuf, buf] at hv
    rw [put_up, Function.update_self]
    have pos : k ≠ 0 := fun zero => by rw [zero] at hv; exact nomatch hv
    rw [styleOf, if_neg pos, hv]
    rfl
  · rename_i eq
    rw [← not_not.1 eq, put_up_self]

theorem styleSet_init (hn : n ∈ usrParStyleList) (hk : k ≤ 7) (s : UsrPars) :
    styleSet k (fun _ s => s) s n = s.put n (styleOf s.bStylePrv k n) := by
  unfold styleSet
  rw [styleTo_eq hn hk]
  dsimp only
  split
  · rfl
  · rename_i eq
    rw [← not_not.1 eq, put_up_self]

theorem foldl_styleSet {chg : UsrPar → UsrPars → UsrPars}
    (step : ∀ n ∈ usrParStyleList, ∀ s : UsrPars, s.bStyleBuf = k →
      styleSet k chg s n = s.put n (styleOf s.bStylePrv k n))
    (l : List UsrPar) (hl : ∀ n ∈ l, n ∈ usrParStyleList) (buf : s.bStyleBuf = k) :
    l.foldl (styleSet k chg) s = l.foldl (fun t n => t.put n (styleOf s.bStylePrv k n)) s := by
  induction l generalizing s with
  | nil => rfl
  | cons n l ih =>
    rw [List.foldl_cons, List.foldl_cons, step n (hl n List.mem_cons_self) s buf]
    exact ih (fun m hm => hl m (List.mem_cons_of_mem _ hm)) buf

theorem foldl_put_same (l : List UsrPar) (f : UpList) (s : UsrPars) :
    SameStyle s (l.foldl (fun t n => t.put n (f n)) s) ∧
      (l.foldl (fun t n => t.put n (f n)) s).gbUp = s.gbUp := by
  induction l generalizing s with
  | nil => exact ⟨⟨rfl, rfl, rfl⟩, rfl⟩
  | cons n l ih => exact ⟨⟨(ih _).1.saved, (ih _).1.buf, (ih _).1.prv⟩, (ih _).2⟩

theorem foldl_put_up (l : List UsrPar) (f : UpList) (s : UsrPars) (m : UsrPar) :
    (l.foldl (fun t n => t.put n (f n)) s).up m = if m ∈ l then f m else s.up m := by
  induction l generalizing s with
  | nil => rfl
  | cons n l ih =>
    rw [List.foldl_cons, ih, put_up]
    by_cases hm : m = n
    · subst hm
      rw [Function.update_self, ite_self, if_pos List.mem_cons_self]
    · rw [Function.update_of_ne hm]
      simp [hm]

/-- What selecting a style leaves. -/
structure Selected (k : Nat) (s t : UsrPars) : Prop where
  saved : t.saved = s.saved
  gbUp : t.gbUp = s.gbUp
  buf : t.bStyleBuf = k
  kept : ∀ m ∉ usrParStyleList, t.up m = s.up m
  styled : s.bStyleBuf ≠ k → ∀ m ∈ usrParStyleList,
    t.up m = if s.bStyleBuf = 0 then (styleVal m k).getD 0 else styleOf s.bStylePrv k m
  same : s.bStyleBuf = k → t = s

theorem styleSel_selected (hk : k ≤ 7) (s : UsrPars) : Selected k s (styleSel c .change k s) := by
  unfold styleSel
  by_cases eq : s.bStyleBuf = k
  · rw [if_pos eq]
    exact ⟨rfl, rfl, eq, fun _ _ => rfl, fun ne => absurd eq ne, fun _ => rfl⟩
  · rw [if_neg eq]
    dsimp only
    rw [foldl_styleSet (fun _ hn _ => styleSet_eq hn hk) _ (fun _ hn => hn) rfl]
    split
    case isTrue zero =>
      refine ⟨(foldl_put_same _ _ _).1.saved, (foldl_put_same _ _ _).2, (foldl_put_same _ _ _).1.buf,
        fun m hm => ?_, fun _ m hm => ?_, fun h => absurd h eq⟩
      · rw [foldl_put_up, if_neg hm]
      · rw [foldl_put_up, if_pos hm, if_pos zero, styleOf, if_neg fun k0 => eq (zero.trans k0.symm)]
    case isFalse pos =>
      refine ⟨(foldl_put_same _ _ _).1.saved, (foldl_put_same _ _ _).2, (foldl_put_same _ _ _).1.buf,
        fun m hm => ?_, fun _ m hm => ?_, fun h => absurd h eq⟩
      · rw [foldl_put_up, if_neg hm]
      · rw [foldl_put_up, if_pos hm, if_neg pos]

end style

section change

variable {c : UpCfg} {m n : UsrPar} {s : UsrPars}

theorem chg_of_ne (h : n ≠ .Style) (s : UsrPars) :
    usrParChg c .change n s = (n.run c s).styleChk n := by
  unfold usrParChg
  rw [if_neg h, chgBy_change]

theorem chg_run (hn : n ≠ .Style) (h : n ∉ usrParStyleList) (s : UsrPars) :
    usrParChg c .change n s = n.run c s := by
  rw [chg_of_ne hn, styleChk_of_not_mem h]

theorem chg_style (s : UsrPars) :
    usrParChg c .change .Style s = styleSel c .change (s.up .Style) s := by
  unfold usrParChg
  rw [if_pos rfl, chgBy_change]
  exact styleChk_of_not_mem (by decide) _

theorem chg_saved (hk : n = .Style → s.up .Style ≤ 7) : (usrParChg c .change n s).saved = s.saved := by
  by_cases h : n = .Style
  · subst h
    rw [chg_style]
    exact (styleSel_selected (hk rfl) s).saved
  · rw [chg_of_ne h, styleChk_saved]
    exact (run_same c n s).saved

theorem chg_up (hk : n = .Style → s.up .Style ≤ 7) (h : m ∉ n.touched) :
    (usrParChg c .change n s).up m = s.up m := by
  by_cases hn : n = .Style
  · subst hn
    rw [chg_style]
    exact (styleSel_selected (hk rfl) s).kept m h
  · rw [chg_of_ne hn]
    by_cases styled : n ∈ usrParStyleList
    · rw [run_of_mem_style styled]
      refine styleChk_up fun hm => h ?_
      simp only [usrParStyleList, List.mem_cons, List.not_mem_nil, or_false] at styled
      obtain rfl | rfl | rfl | rfl | rfl := styled <;> exact hm ▸ List.mem_cons_self
    · rw [styleChk_of_not_mem styled]
      exact run_up h

theorem chg_gbUp (hk : n = .Style → s.up .Style ≤ 7) (h : n ∉ UsrPar.shutter) :
    (usrParChg c .change n s).gbUp = s.gbUp := by
  by_cases hn : n = .Style
  · subst hn
    rw [chg_style]
    exact (styleSel_selected (hk rfl) s).gbUp
  · rw [chg_of_ne hn, styleChk_gbUp]
    exact run_gbUp h

/-- Entries without a style leave the style as it is. -/
theorem chg_sameStyle (hn : n ≠ .Style) (h : n ∉ usrParStyleList) (s : UsrPars) :
    SameStyle s (usrParChg c .change n s) := by
  rw [chg_run hn h]
  exact run_same c n s

end change

end UsrPars

end En675.Isp
