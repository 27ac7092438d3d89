import En675.Isp.UsrParSht

/-! `UsrParSave(0)` over every history of edits, saves, cancels and restarts: what the tables keep, and
exactly when leaving the menu restores the saved one. -/

namespace En675.Isp

open Lib

namespace UsrPars

/-- The entries of a style, and those of the zoom. -/
def tabled : List UsrPar := .Style :: usrParStyleList ++ [.DZoom, .DZoomPosH, .DZoomPosV]

/-- What both tables keep between the calls. -/
structure Tabled (c : UpCfg) (s : UsrPars) : Prop where
  buf : s.bStyleBuf = s.up .Style
  style : s.up .Style ≤ 7
  savedStyle : s.saved .Style ≤ 7
  styled : Styled s.up
  savedStyled : Styled s.saved
  zoomed : Zoomed c s.up
  savedZoomed : Zoomed c s.saved

theorem Styled.congr (h : Styled t) (eq : ∀ n ∈ .Style :: usrParStyleList, u n = t n) : Styled u := by
  intro pos n hn
  rw [eq _ List.mem_cons_self] at pos ⊢
  rw [eq n (List.mem_cons_of_mem _ hn)]
  exact h pos n hn

theorem Tabled.congr (h : Tabled c s) (saved : t.saved = s.saved) (buf : t.bStyleBuf = s.bStyleBuf)
    (up : ∀ n ∈ tabled, t.up n = s.up n) : Tabled c t where
  buf := buf.trans (h.buf.trans (up _ (by decide)).symm)
  style := (up _ (by decide)).trans_le h.style
  savedStyle := saved ▸ h.savedStyle
  styled := h.styled.congr fun n hn => up n (List.mem_append_left _ hn)
  savedStyled := saved ▸ h.savedStyled
  zoomed := h.zoomed.congr fun n hn => up n (List.mem_append_right _ hn)
  savedZoomed := saved ▸ h.savedZoomed

section shuttered

variable {c : UpCfg} {n : UsrPar} {s t : UsrPars}

theorem Shuttered.congr (h : Shuttered s) (gbUp : t.gbUp = s.gbUp)
    (up : ∀ m ∈ UsrPar.shutter, t.up m = s.up m) : Shuttered t := by
  unfold Shuttered
  rw [gbUp, shutterMenu_eq, shtPreset_congr (up _ (by decide)) (up _ (by decide)) (up _ (by decide)),
    upLimits, up _ (by decide), up _ (by decide), up _ (by decide), ← upLimits, ← shutterMenu_eq,
    up _ (by decide)]
  exact h

theorem shutterMenuSet_shuttered (s : UsrPars) : Shuttered (shutterMenuSet s) := by
  obtain ⟨-, up, gbUp⟩ | ⟨-, limits, gbUp, sht, -, -⟩ := shutterMenuSet_cases s
  · exact .inl (gbUp.trans (up ▸ rfl))
  · by_cases mnl : (shutterMenuSet s).up .Iris = upLensMnl
    · refine .inl (gbUp.trans (limits.symm.trans ?_))
      rw [shutterMenu_eq, shtPreset, if_pos mnl, sht]
      rfl
    · exact .inr ⟨gbUp.trans limits.symm, mnl⟩

theorem shutter_not_touched : ∀ n ∈ usrParList, n ∉ UsrPar.shutter → ∀ m ∈ UsrPar.shutter, m ∉ n.touched := by
  decide +kernel

/-- An edit keeps the two agreeing, whatever it wrote. -/
theorem edit_shuttered (h : Shuttered s) (hk : n = .Style → v ≤ 7) :
    Shuttered (usrParChg c .change n (s.put n v)) := by
  by_cases hn : n ∈ UsrPar.shutter
  · have other : n ≠ .Style := fun eq => absurd (eq ▸ hn) (by decide)
    have unstyled : n ∉ usrParStyleList := by
      simp only [UsrPar.shutter, List.mem_cons, List.not_mem_nil, or_false] at hn
      obtain rfl | rfl | rfl | rfl | rfl | rfl := hn <;> decide
    rw [chg_run other unstyled]
    simp only [UsrPar.shutter, List.mem_cons, List.not_mem_nil, or_false] at hn
    obtain rfl | rfl | rfl | rfl | rfl | rfl := hn
    iterate 3 exact shutterMenuSet_shuttered _
    iterate 3 exact .inl rfl
  · have le : n = .Style → (s.put n v).up .Style ≤ 7 := by
      rintro rfl
      exact (put_up_same _ _ _).trans_le (hk rfl)
    refine h.congr (chg_gbUp le hn) fun m hm => ?_
    rw [chg_up le (shutter_not_touched n (mem_usrParList n) hn m hm)]
    exact put_up_ne _ _ _ fun eq => hn (eq ▸ hm)

theorem cpy_shuttered (h : Shuttered s) (hk : s.saved .Style ≤ 7) (l : List UsrPar) :
    Shuttered (l.foldl (cpyOne c) s) := by
  induction l generalizing s with
  | nil => exact h
  | cons n l ih =>
    refine ih ?_ (cpyOne_saved (c := c) hk n ▸ hk)
    by_cases eq : s.up n = s.saved n
    · rwa [cpyOne_of_eq eq]
    · rw [cpyOne_of_ne eq]
      exact edit_shuttered h fun eq => eq ▸ hk

end shuttered

section edit

variable {c : UpCfg} {n : UsrPar} {s : UsrPars}

theorem tabled_not_touched : ∀ n ∈ usrParList, n ∉ tabled → ∀ m ∈ tabled, m ∉ n.touched := by
  decide +kernel

theorem edit_style (h : Tabled c s) (hk : k ≤ 7) : Tabled c (usrParChg c .change .Style (s.put .Style k)) := by
  rw [chg_style, put_up_same]
  have sel := styleSel_selected (c := c) hk (s.put .Style k)
  generalize styleSel c .change k (s.put .Style k) = t at sel
  have style : t.up .Style = k := (sel.kept _ (by decide)).trans (put_up_same _ _ _)
  refine ⟨sel.buf.trans style.symm, style.trans_le hk, sel.saved ▸ h.savedStyle, fun pos m hm => ?_,
    sel.saved ▸ h.savedStyled, h.zoomed.congr fun m hm => ?_, sel.saved ▸ h.savedZoomed⟩
  · rw [style] at pos ⊢
    by_cases eq : s.bStyleBuf = k
    · have eq' : s.up .Style = k := h.buf ▸ eq
      rw [sel.same eq, put_up_ne _ _ _ fun same => absurd (same ▸ hm) (by decide), ← eq']
      exact h.styled (eq'.symm ▸ pos) m hm
    · rw [sel.styled eq m hm, styleOf, if_neg pos, ite_self]
      obtain ⟨j, rfl⟩ := Nat.exists_eq_succ_of_ne_zero pos
      obtain ⟨v, hv⟩ := Option.isSome_iff_exists.1 (styleVal_isSome m hm j hk)
      rw [hv]
      rfl
  · have other : m ∉ usrParStyleList ∧ m ≠ .Style := by
      simp only [List.mem_cons, List.not_mem_nil, or_false] at hm
      obtain rfl | rfl | rfl := hm <;> decide
    exact (sel.kept m other.1).trans (put_up_ne _ _ _ other.2)

theorem edit_styled (h : Tabled c s) (hn : n ∈ usrParStyleList) (v : Nat) :
    Tabled c (usrParChg c .change n (s.put n v)) := by
  have other : n ≠ .Style := fun eq => absurd (eq ▸ hn) (by decide)
  have saved := chg_saved (c := c) (s := s.put n v) fun eq => absurd eq other
  have zoomed : ∀ m ∈ [UsrPar.DZoom, .DZoomPosH, .DZoomPosV], (usrParChg c .change n (s.put n v)).up m = s.up m := by
    intro m hm
    have free : ∀ n ∈ usrParStyleList, ∀ m ∈ [UsrPar.DZoom, .DZoomPosH, .DZoomPosV], m ≠ n ∧ m ∉ n.touched := by
      decide
    rw [chg_up (fun eq => absurd eq other) (free n hn m hm).2]
    exact put_up_ne _ _ _ (free n hn m hm).1
  have style : (s.put n v).up .Style = s.up .Style := put_up_ne _ _ _ other.symm
  rw [chg_of_ne other, run_of_mem_style hn] at saved zoomed ⊢
  have ended : ∀ t : UsrPars, t.bStyleBuf = t.up .Style → t.up .Style = 0 → t.saved = s.saved →
      (∀ m ∈ [UsrPar.DZoom, .DZoomPosH, .DZoomPosV], t.up m = s.up m) → Tabled c t :=
    fun t buf zero saved zoomed =>
      ⟨buf, zero ▸ Nat.zero_le 7, saved ▸ h.savedStyle, fun pos => absurd zero pos, saved ▸ h.savedStyled,
        h.zoomed.congr zoomed, saved ▸ h.savedZoomed⟩
  by_cases zero : s.up .Style = 0
  · have same : (s.put n v).styleChk n = s.put n v := by
      refine styleChk_of_styleVal fun w hw => ?_
      rw [put_bStyleBuf, h.buf, zero] at hw
      exact nomatch hw
    rw [same] at saved zoomed ⊢
    exact ended _ (h.buf.trans style.symm) (style.trans zero) saved zoomed
  · by_cases eq : s.up n = v
    · rw [← eq, put_up_self, styleChk_of_styleVal fun w hw => ?_]
      · exact h
      · rw [h.buf, h.styled zero n hn] at hw
        exact Option.some.inj hw
    · have chk : (s.put n v).styleChk n =
          { (s.put n v).put .Style 0 with bStyleBuf := 0, gbStylePreviousOn := true } := by
        unfold styleChk
        rw [put_bStyleBuf, h.buf, h.styled zero n hn]
        dsimp only
        rw [put_up_same, if_pos (Ne.symm eq)]
      rw [chk] at saved zoomed ⊢
      have style0 : ((s.put n v).put .Style 0).up .Style = 0 := put_up_same _ _ _
      exact ended _ style0.symm style0 saved zoomed

theorem edit_zoom (h : Tabled c s) (hn : n ∈ [UsrPar.DZoom, .DZoomPosH, .DZoomPosV]) (ten : n = .DZoom → 10 ≤ v) :
    Tabled c (usrParChg c .change n (s.put n v)) := by
  have free : n ≠ .Style ∧ n ∉ usrParStyleList ∧ ∀ m ∈ .Style :: usrParStyleList, m ≠ n ∧ m ∉ n.touched := by
    simp only [List.mem_cons, List.not_mem_nil, or_false] at hn
    obtain rfl | rfl | rfl := hn <;> decide
  have run : n.run c = dzoom c := by
    simp only [List.mem_cons, List.not_mem_nil, or_false] at hn
    obtain rfl | rfl | rfl := hn <;> rfl
  have zoom : 10 ≤ (s.put n v).up .DZoom := by
    by_cases eq : n = .DZoom
    · exact eq ▸ (put_up_same _ _ _).symm ▸ ten eq
    · rw [put_up_ne _ _ _ (Ne.symm eq)]
      exact h.zoomed.ten
  have same := chg_sameStyle (c := c) free.1 free.2.1 (s.put n v)
  have up : ∀ m ∈ .Style :: usrParStyleList, (usrParChg c .change n (s.put n v)).up m = s.up m := fun m hm =>
    (chg_up (fun eq => absurd eq free.1) (free.2.2 m hm).2).trans (put_up_ne _ _ _ (free.2.2 m hm).1)
  rw [chg_run free.1 free.2.1, run] at same up ⊢
  obtain ⟨eq, posH, posV⟩ := dzoom_up c (s.put n v)
  refine ⟨same.buf.trans (h.buf.trans (up _ List.mem_cons_self).symm), (up _ List.mem_cons_self).trans_le h.style,
    same.saved ▸ h.savedStyle, h.styled.congr up, same.saved ▸ h.savedStyled, ⟨eq ▸ zoom, ?_, ?_⟩,
    same.saved ▸ h.savedZoomed⟩
  · rw [eq, posH]
    exact inZoom_zoomPos zoom c.hwWord _
  · rw [eq, posV]
    exact inZoom_zoomPos zoom c.vwWord _

theorem edit_other (h : Tabled c s) (hn : n ∉ tabled) (v : Nat) :
    Tabled c (usrParChg c .change n (s.put n v)) := by
  have other : n ≠ .Style := fun eq => hn (eq ▸ by decide)
  have unstyled : n ∉ usrParStyleList := fun mem => hn (List.mem_append_left _ (List.mem_cons_of_mem _ mem))
  have same := chg_sameStyle (c := c) other unstyled (s.put n v)
  refine h.congr same.saved same.buf fun m hm => ?_
  rw [chg_up (fun eq => absurd eq other) (tabled_not_touched n (mem_usrParList n) hn m hm)]
  exact put_up_ne _ _ _ fun eq => hn (eq ▸ hm)

theorem edit_tabled (h : Tabled c s) (ten : n = .DZoom → 10 ≤ v) (hk : n = .Style → v ≤ 7) :
    Tabled c (usrParChg c .change n (s.put n v)) := by
  by_cases hn : n ∈ tabled
  · rw [tabled, List.cons_append, List.mem_cons, List.mem_append] at hn
    obtain rfl | styled | zoom := hn
    · exact edit_style h (hk rfl)
    · exact edit_styled h styled v
    · exact edit_zoom h zoom ten
  · exact edit_other h hn v

end edit

section save

variable {c : UpCfg} {s : UsrPars}

theorem styleInit_false (k : Nat) (s : UsrPars) :
    s.styleInit k false = { s with bStyleBuf := k, gbStylePreviousOn := k == 0 } := by
  unfold styleInit
  rw [Bool.and_false]
  rfl

theorem save_tabled (h : Tabled c s) : Tabled c (usrParSave c .change true s) := by
  unfold usrParSave
  rw [styleInit_false]
  exact ⟨rfl, h.style, h.style, h.styled, h.styled, h.zoomed, h.zoomed⟩

theorem cancel_eq (c : UpCfg) (s : UsrPars) :
    (usrParSave c .change false s).up = (usrParList.foldl (cpyOne c) s).up ∧
      (usrParSave c .change false s).saved = (usrParList.foldl (cpyOne c) s).saved ∧
      (usrParSave c .change false s).gbUp = (usrParList.foldl (cpyOne c) s).gbUp ∧
      (usrParSave c .change false s).bStyleBuf = (usrParList.foldl (cpyOne c) s).up .Style := by
  unfold usrParSave usrParCpy
  rw [styleInit_false, if_neg Bool.false_ne_true]
  dsimp only
  generalize usrParList.foldl (cpyOne c) s = t
  exact ⟨rfl, rfl, rfl, rfl⟩

/-- A copy that fails to restore the table leaves one that holds together all the same. -/
theorem cancel_tabled (h : Tabled c s) : Tabled c (usrParSave c .change false s) := by
  obtain ⟨up, saved, -, buf⟩ := cancel_eq c s
  have kept := foldl_saved (c := c) h.savedStyle usrParList
  obtain ⟨style, styled, -⟩ := cpy_style (c := c) h.savedStyle h.buf h.styled h.savedStyled
  have zoomed := h.savedZoomed.congr (cpy_zoom (c := c) h.savedStyle h.savedZoomed)
  generalize usrParSave c .change false s = u at up saved buf ⊢
  generalize usrParList.foldl (cpyOne c) s = t at up saved buf kept style styled zoomed
  rw [kept] at saved
  exact ⟨buf.trans (congrFun up _).symm, (congrFun up _).trans_le (style.trans_le h.savedStyle),
    saved ▸ h.savedStyle, up ▸ styled, saved ▸ h.savedStyled, up ▸ zoomed, saved ▸ h.savedZoomed⟩

end save

section power

variable {c : UpCfg} {n : UsrPar} {s : UsrPars}

theorem initRun_tabled : ∀ n ∈ usrParList, n.initRun = true → n ∈ tabled → n = .Style := by
  decide +kernel

theorem initRun_shutter : ∀ n ∈ usrParList, n.initRun = true → n ∈ UsrPar.shutter → n = .Iris := by
  decide +kernel

theorem boot_chg (h : Tabled c s) (n : UsrPar) :
    Tabled c (usrParChg c .boot n s) ∧ (Shuttered s ∨ n = .Iris → Shuttered (usrParChg c .boot n s)) := by
  unfold usrParChg chgBy
  dsimp only
  by_cases init : n.initRun = true
  · rw [if_pos init]
    by_cases hn : n = .Style
    · have same : styleSel c .boot (s.up .Style) s = s := if_pos h.buf
      subst hn
      rw [if_pos rfl, same]
      exact ⟨h, fun shut => shut.resolve_right nofun⟩
    · rw [if_neg hn]
      have other : n ∉ tabled := fun mem => hn (initRun_tabled n (mem_usrParList n) init mem)
      have same := run_same c n s
      refine ⟨h.congr same.saved same.buf fun m hm =>
        run_up (tabled_not_touched n (mem_usrParList n) other m hm), fun shut => ?_⟩
      by_cases iris : n = .Iris
      · subst iris
        exact .inl rfl
      · have free : n ∉ UsrPar.shutter := fun mem => iris (initRun_shutter n (mem_usrParList n) init mem)
        exact (shut.resolve_right iris).congr (run_gbUp free) fun m hm =>
          run_up (shutter_not_touched n (mem_usrParList n) free m hm)
  · rw [if_neg init]
    refine ⟨h, fun shut => shut.resolve_right ?_⟩
    rintro rfl
    exact init rfl

theorem boot_foldl (h : Tabled c s) (l : List UsrPar) (shut : Shuttered s ∨ .Iris ∈ l) :
    Tabled c (l.foldl (fun s n => usrParChg c .boot n s) s) ∧
      Shuttered (l.foldl (fun s n => usrParChg c .boot n s) s) := by
  induction l generalizing s with
  | nil => exact ⟨h, shut.resolve_right List.not_mem_nil⟩
  | cons n l ih =>
    obtain ⟨tabled, next⟩ := boot_chg h n
    refine ih tabled ?_
    obtain shut | mem := shut
    · exact .inl (next (.inl shut))
    · obtain rfl | mem := List.mem_cons.1 mem
      · exact .inl (next (.inr rfl))
      · exact .inr mem

theorem load_tabled (h : Tabled c s) (u : UsrPars) : Tabled c (appLoadPar c (some s.up) u) := by
  unfold appLoadPar
  dsimp only
  rw [styleInit_false]
  exact ⟨rfl, h.style, h.style, h.styled, h.styled, h.zoomed, h.zoomed⟩

theorem inZoom_half (fits : size < 2 ^ 16) : InZoom size 10 (size >>> 1) := by
  rw [Nat.shiftRight_one]
  refine ⟨?_, ?_, by omega⟩
  · rw [Int.tdiv_eq_ediv_of_nonneg (by omega)]
    omega
  · rw [Int.tdiv_eq_ediv_of_nonneg (by omega)]
    omega

theorem styleInit_init (s : UsrPars) :
    (s.styleInit initStyle true).bStyleBuf = initStyle ∧
      ∀ m, (s.styleInit initStyle true).up m =
        if m ∈ usrParStyleList then (styleVal m initStyle).getD 0 else s.up m := by
  unfold styleInit
  dsimp only
  rw [if_pos (by decide),
    foldl_styleSet (k := initStyle) (fun _ hn s _ => styleSet_init hn (by decide) s) _ (fun _ hn => hn) rfl]
  exact ⟨(foldl_put_same _ _ _).1.buf, fun m => foldl_put_up _ _ _ m⟩

theorem reset_up (c : UpCfg) (s : UsrPars) (hm : m ∈ tabled) :
    (usrParReset c s).up m =
      if m ∈ usrParStyleList then (styleVal m initStyle).getD 0 else usrParDefault c m := by
  have other : m ≠ .Dss ∧ m ≠ .Adnr3D :=
    ⟨fun eq => absurd (eq ▸ hm) (by decide), fun eq => absurd (eq ▸ hm) (by decide)⟩
  exact (put_up_ne _ _ _ other.2).trans ((put_up_ne _ _ _ other.1).trans ((styleInit_init _).2 m))

/-- The reset of the table leaves the buffer of the style that is set first. -/
theorem reset_bStyleBuf (c : UpCfg) (u : UsrPars) : (appLoadPar c none u).bStyleBuf = initStyle := by
  have set := (styleInit_init { u with gbUsrParTbl := usrParDefault c }).1
  unfold appLoadPar usrParReset
  dsimp only
  generalize { u with gbUsrParTbl := usrParDefault c }.styleInit initStyle true = t at set ⊢
  exact set

theorem reset_tabled (c : UpCfg) (u : UsrPars) : Tabled c (appLoadPar c none u) := by
  have up : ∀ m ∈ tabled, (appLoadPar c none u).up m =
      if m ∈ usrParStyleList then (styleVal m initStyle).getD 0 else usrParDefault c m :=
    fun m hm => reset_up c u hm
  have styled : Styled (appLoadPar c none u).up := fun _ n hn => by
    rw [up _ (by decide), up n (List.mem_append_left _ (List.mem_cons_of_mem _ hn)), if_pos hn]
    exact (by decide : ∀ n ∈ usrParStyleList, styleVal n 1 = some ((styleVal n initStyle).getD 0)) n hn
  have zoomed : Zoomed c (appLoadPar c none u).up := by
    constructor
    · rw [up _ (by decide)]
      exact le_rfl
    · rw [up _ (by decide), up _ (by decide)]
      exact inZoom_half c.hwWord
    · rw [up _ (by decide), up _ (by decide)]
      exact inZoom_half c.vwWord
  have style : (appLoadPar c none u).up .Style = 1 := up _ (by decide)
  have buf : (appLoadPar c none u).bStyleBuf = 1 := reset_bStyleBuf c u
  exact ⟨buf.trans style.symm, style.trans_le (by decide), style.trans_le (by decide), styled,
    styled, zoomed, zoomed⟩

end power

section runs

variable {c : UpCfg} {s : UsrPars}

theorem ispInit_settled (h : Tabled c (appLoadPar c mem static)) :
    Tabled c (ispInit c mem) ∧ Shuttered (ispInit c mem) :=
  boot_foldl h usrParList (.inr (mem_usrParList .Iris))

theorem settled_inductive (c : UpCfg) :
    (usrParLts c).Inductive (fun _ e => e.InRange) fun s => Tabled c s ∧ Shuttered s where
  init := fun eq => eq ▸ ispInit_settled (reset_tabled c static)
  step := by
    rintro s e t ⟨tabled, shut⟩ range step
    cases step
    cases e with
    | edit n v =>
      have ten : n = .DZoom → 10 ≤ v := fun eq => (eq ▸ range : (UsrParEvent.edit .DZoom v).InRange).1
      have hk : n = .Style → v ≤ 7 := fun eq => (eq ▸ range : (UsrParEvent.edit .Style v).InRange)
      exact ⟨edit_tabled tabled ten hk, edit_shuttered shut hk⟩
    | save =>
      refine ⟨save_tabled tabled, ?_⟩
      show Shuttered (usrParSave c .change true s)
      unfold usrParSave
      rw [styleInit_false]
      exact shut
    | cancel =>
      have next : s.next c .cancel = usrParSave c .change false s := rfl
      rw [next]
      refine ⟨cancel_tabled tabled, ?_⟩
      have copied := cpy_shuttered (c := c) shut tabled.savedStyle usrParList
      obtain ⟨up, -, gbUp, -⟩ := cancel_eq c s
      generalize usrParSave c .change false s = u at up gbUp ⊢
      generalize usrParList.foldl (cpyOne c) s = t at up gbUp copied
      exact copied.congr gbUp fun m _ => congrFun up m
    | reboot => exact ispInit_settled (load_tabled tabled static)

end runs

section restored

variable {c : UpCfg} {n : UsrPar} {s : UsrPars}

/-- The entries of the binary info, which their code sets. -/
def readOnly : List UsrPar :=
  [.ISP_FW_Ver, .ISP_FW_Build_Year, .ISP_FW_Build_MonthDay, .ISP_FW_Build_Time, .Sensor_ID, .Sensor_Ctrl,
    .Sensor_FPS]

/-- The table in use is the saved one, and the style's buffer is its style. -/
def Restored (s : UsrPars) : Prop :=
  (∀ n ∉ readOnly, s.up n = s.saved n) ∧ s.bStyleBuf = s.up .Style

/-- When leaving the menu restores the saved parameters: the saved limits of `ANTI_SAT` belong to the saved
stabilizing if that changed, the limits of the shutter come back, and no style is left for a `PREVIOUS` that
remembers other values. -/
def Restorable (s : UsrPars) : Prop :=
  (s.up .Stabilizing = s.saved .Stabilizing ∨
      s.saved .ErrChtMax = errChtMax (s.saved .Stabilizing) ∧
        s.saved .ErrChtMin = errChtMin (s.saved .Stabilizing)) ∧
    LimitsRestorable s ∧ ¬Forgets s

/-- The entries that some other entry's code writes. -/
def written : List UsrPar :=
  [.ErrChtMax, .ErrChtMin] ++ UsrPar.limits ++ [.ShtMode, .DZoomPosH, .DZoomPosV, .Style] ++ usrParStyleList ++ readOnly

theorem mem_written : ∀ n ∈ usrParList, ∀ m ∈ n.touched, m ∈ written := by
  decide +kernel

theorem cpy_free (hk : s.saved .Style ≤ 7) (hn : n ∉ written) :
    (usrParList.foldl (cpyOne c) s).up n = s.saved n :=
  foldl_up_mem hk usrParList_nodup (mem_usrParList n) fun m hm touched => hn (mem_written m hm n touched)

/-- The mode that `ShutterMenuSet` changes comes after the limits. -/
theorem cpy_shtMode (hk : s.saved .Style ≤ 7) :
    (usrParList.foldl (cpyOne c) s).up .ShtMode = s.saved .ShtMode := by
  rw [usrParList_split .ShtMode]
  exact foldl_copied hk _ (by decide) (by decide +kernel)

theorem cancel_restores_iff (h : Tabled c s) (shut : Shuttered s) :
    Restored (usrParSave c .change false s) ↔ Restorable s := by
  obtain ⟨up, saved, -, buf⟩ := cancel_eq c s
  have kept := foldl_saved (c := c) h.savedStyle usrParList
  obtain ⟨most, least⟩ := cpy_errCht (c := c) h.savedStyle
  obtain ⟨style, -, styled⟩ := cpy_style (c := c) h.savedStyle h.buf h.styled h.savedStyled
  have zoom := cpy_zoom (c := c) h.savedStyle h.savedZoomed
  have limits := cpy_limits (c := c) h.savedStyle shut
  have free := fun n hn => cpy_free (c := c) (n := n) h.savedStyle hn
  have mode := cpy_shtMode (c := c) h.savedStyle
  generalize usrParSave c .change false s = u at up saved buf ⊢
  generalize usrParList.foldl (cpyOne c) s = t at *
  unfold Restored Restorable
  rw [up, saved, kept, buf, ← styled, ← limits]
  constructor
  · rintro ⟨all, -⟩
    refine ⟨?_, ?_, fun n hn => all n ?_⟩
    · by_cases eq : s.up .Stabilizing = s.saved .Stabilizing
      · exact .inl eq
      · rw [if_neg eq] at most least
        exact .inr ⟨(all _ (by decide)).symm.trans most, (all _ (by decide)).symm.trans least⟩
    · unfold upLimits
      rw [all _ (by decide), all _ (by decide), all _ (by decide)]
    · exact (by decide : ∀ n ∈ usrParStyleList, n ∉ readOnly) n hn
  · rintro ⟨errCht, limits, values⟩
    refine ⟨fun n hn => ?_, rfl⟩
    by_cases other : n ∈ written
    · have stab : t.up .ErrChtMax = s.saved .ErrChtMax ∧ t.up .ErrChtMin = s.saved .ErrChtMin := by
        rw [most, least]
        split
        · exact ⟨rfl, rfl⟩
        · have own := errCht.resolve_left ‹_›
          exact ⟨own.1.symm, own.2.symm⟩
      have three := ShtLimits.mk.inj limits
      simp only [written, UsrPar.limits, List.cons_append, List.nil_append, List.mem_cons,
        List.mem_append] at other
      obtain rfl | rfl | rfl | rfl | rfl | rfl | rfl | rfl | rfl | mem | mem := other
      exacts [stab.1, stab.2, three.1, three.2.1, three.2.2, mode, zoom _ (by decide), zoom _ (by decide),
        style, values n mem, absurd mem hn]
    · exact free n other

instance (s : UsrPars) : Decidable s.Restorable := inferInstanceAs (Decidable (_ ∧ _ ∧ _))

/-- After every history, `UsrParSave(0)` restores the saved parameters exactly if they are restorable. -/
theorem cancel_restores (r : Reach (usrParLts c) (fun _ e => e.InRange) s) :
    Restored (usrParSave c .change false s) ↔ Restorable s :=
  have settled := (settled_inductive c).reach r
  cancel_restores_iff settled.1 settled.2

section runs

/-- A board with a picture of two million pixels. -/
def cfg2M : UpCfg where
  dzHw := 1920
  dzVw := 1080
  hwWord := by decide
  vwWord := by decide
  info := fun _ => 0
  other := fun _ => 0

def runOf (es : List UsrParEvent) : UsrPars := es.foldl (next cfg2M) (ispInit cfg2M none)

/-- Edits of the zoom, the style, a styled entry and the shutter after a save. -/
def edits : List UsrParEvent :=
  [.edit .DZoom 20, .save, .edit .DZoomPosH 40, .edit .Style 2, .edit .Sharpness 3, .edit .Gamma 4, .edit .ShtMin 4]

theorem cancel_restores_edits : Restored (usrParSave cfg2M .change false (runOf edits)) :=
  have start : Reach (usrParLts cfg2M) (fun _ e => e.InRange) (ispInit cfg2M none) := .init rfl
  have allowed : Allowed (fun _ e => e.InRange) (next cfg2M) (ispInit cfg2M none) edits :=
    ⟨(by decide : 10 ≤ 20 ∧ 20 ≤ 640), trivial, trivial, (by decide : 2 ≤ 7), trivial, trivial, trivial, trivial⟩
  (cancel_restores (start.foldl (fun _ _ => rfl) allowed)).2 (by decide +kernel)

/-- A longest shutter raised and taken back leaves the deblur limit raised; the saved limits of `ANTI_SAT` go
with another stabilizing; and a style chosen over equal values goes back to older ones. -/
theorem cancel_loses :
    ((runOf [.edit .ShtMax 5, .cancel]).up .DeblurMin = 5 ∧
        (runOf [.edit .ShtMax 5, .cancel]).saved .DeblurMin = 0) ∧
      ((runOf [.edit .ErrChtMax 20, .save, .edit .Stabilizing 1, .cancel]).up .ErrChtMax = 60 ∧
        (runOf [.edit .ErrChtMax 20, .save, .edit .Stabilizing 1, .cancel]).saved .ErrChtMax = 20) ∧
      (runOf [.edit .Brightness 9, .edit .Brightness 4, .save, .edit .Brightness 7, .edit .Style 1, .cancel]).up
          .Brightness = 7 ∧
        (runOf [.edit .Brightness 9, .edit .Brightness 4, .save, .edit .Brightness 7, .edit .Style 1, .cancel]).saved
          .Brightness = 4 := by
  decide +kernel

end runs

end restored

end UsrPars

end En675.Isp
