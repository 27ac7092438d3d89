import Mathlib.Algebra.Order.Ring.Int
import En675.Isp.UsrParChg

/-! `UsrParCpy` into the table in use, entry by entry: what the entries before and after one of them leave
of its value, and the groups of entries whose handlers write each other. -/

namespace En675.Isp

open Lib

section list

theorem ctorIdx_lt (n : UsrPar) : n.ctorIdx < usrParEa := by
  cases n <;> decide

theorem ctorIdx_ofNat : ∀ i < usrParEa, (UsrPar.ofNat i).ctorIdx = i := by
  decide +kernel

theorem usrParList_length : usrParList.length = usrParEa := by
  rw [usrParList, List.length_map, List.length_range]

theorem usrParList_getElem (i : Nat) (h : i < usrParList.length) : usrParList[i] = .ofNat i := by
  simp only [usrParList, List.getElem_map, List.getElem_range]

theorem mem_usrParList (n : UsrPar) : n ∈ usrParList :=
  List.mem_map.2 ⟨n.ctorIdx, List.mem_range.2 (ctorIdx_lt n), n.ofNat_ctorIdx⟩

theorem usrParList_split (n : UsrPar) :
    usrParList = usrParList.take n.ctorIdx ++ n :: usrParList.drop (n.ctorIdx + 1) := by
  have lt : n.ctorIdx < usrParList.length := usrParList_length ▸ ctorIdx_lt n
  conv_lhs => rw [← List.take_append_drop n.ctorIdx usrParList, List.drop_eq_getElem_cons lt]
  rw [usrParList_getElem, n.ofNat_ctorIdx]

theorem usrParList_nodup : usrParList.Nodup :=
  List.Nodup.map_on (fun i hi j hj eq => by
    rw [← ctorIdx_ofNat i (List.mem_range.1 hi), eq, ctorIdx_ofNat j (List.mem_range.1 hj)])
    List.nodup_range

end list

section zoom

variable {size zoom pos : Nat}

/-- What `CLAMP` leaves in a coordinate. -/
structure InZoom (size zoom pos : Nat) : Prop where
  ge : (size * 5 : Int).tdiv zoom ≤ pos
  le : pos ≤ ((zoom - 5) * size : Int).tdiv zoom
  word : pos < 2 ^ 16

theorem zoomPos_of_inZoom (h : InZoom size zoom pos) : zoomPos size zoom pos = pos := by
  unfold zoomPos
  dsimp only
  rw [if_neg (not_lt.2 h.ge), if_neg (not_lt.2 h.le)]
  have := h.word
  omega

theorem zoom_bounds (ten : 10 ≤ zoom) (size : Nat) :
    0 ≤ (size * 5 : Int).tdiv zoom ∧ (size * 5 : Int).tdiv zoom ≤ ((zoom - 5) * size : Int).tdiv zoom ∧
      ((zoom - 5) * size : Int).tdiv zoom ≤ size := by
  have pos : (0 : Int) < zoom := by omega
  have five : (5 : Int) ≤ zoom - 5 := by omega
  have nonneg : (0 : Int) ≤ size * 5 := by omega
  have le : (size * 5 : Int) ≤ (zoom - 5) * size :=
    (Int.mul_comm _ _).trans_le (Int.mul_le_mul_of_nonneg_right five (Int.natCast_nonneg _))
  rw [Int.tdiv_eq_ediv_of_nonneg nonneg, Int.tdiv_eq_ediv_of_nonneg (nonneg.trans le)]
  refine ⟨Int.ediv_nonneg nonneg pos.le, Int.ediv_le_ediv pos le, Int.ediv_le_of_le_mul pos ?_⟩
  rw [Int.mul_comm]
  exact Int.mul_le_mul_of_nonneg_left (by omega) (Int.natCast_nonneg _)

theorem inZoom_zoomPos (ten : 10 ≤ zoom) (fits : size < 2 ^ 16) (pos : Nat) :
    InZoom size zoom (zoomPos size zoom pos) := by
  obtain ⟨nonneg, le, most⟩ := zoom_bounds ten size
  have word : ∀ x : Int, 0 ≤ x → x ≤ size → ((x % 2 ^ 16).toNat : Int) = x := by omega
  have inside : ∀ x : Int, (size * 5 : Int).tdiv zoom ≤ x → x ≤ ((zoom - 5) * size : Int).tdiv zoom →
      InZoom size zoom (x % 2 ^ 16).toNat := fun x ge le' => by
    have same := word x (nonneg.trans ge) (le'.trans most)
    exact ⟨ge.trans_eq same.symm, same.trans_le le', by omega⟩
  unfold zoomPos
  dsimp only
  split
  · exact inside _ le_rfl le
  · split
    · exact inside _ le le_rfl
    · exact inside _ (not_lt.1 ‹_›) (not_lt.1 ‹_›)

end zoom

namespace UsrPars

section frame

variable {c : UpCfg} {m n : UsrPar} {s : UsrPars}

theorem cpyOne_of_eq (h : s.up n = s.saved n) : cpyOne c s n = s := by
  unfold cpyOne
  rw [if_neg (not_not_intro h)]

theorem cpyOne_of_ne (h : s.up n ≠ s.saved n) :
    cpyOne c s n = usrParChg c .change n (s.put n (s.saved n)) := by
  unfold cpyOne
  rw [if_pos h]

theorem put_style_le (hk : s.saved .Style ≤ 7) : n = .Style → (s.put n (s.saved n)).up .Style ≤ 7 := by
  rintro rfl
  rwa [put_up, Function.update_self]

theorem cpyOne_saved (hk : s.saved .Style ≤ 7) (n : UsrPar) : (cpyOne c s n).saved = s.saved := by
  by_cases h : s.up n = s.saved n
  · rw [cpyOne_of_eq h]
  · rw [cpyOne_of_ne h, chg_saved (put_style_le hk)]
    rfl

theorem cpyOne_up (hk : s.saved .Style ≤ 7) (ne : m ≠ n) (h : m ∉ n.touched) :
    (cpyOne c s n).up m = s.up m := by
  by_cases eq : s.up n = s.saved n
  · rw [cpyOne_of_eq eq]
  · rw [cpyOne_of_ne eq, chg_up (put_style_le hk) h]
    exact Function.update_of_ne ne _ _

theorem cpyOne_up_self (hk : s.saved .Style ≤ 7) (h : n ∉ n.touched) : (cpyOne c s n).up n = s.saved n := by
  by_cases eq : s.up n = s.saved n
  · rw [cpyOne_of_eq eq, eq]
  · rw [cpyOne_of_ne eq, chg_up (put_style_le hk) h]
    exact Function.update_self _ _ _

theorem cpyOne_gbUp (hk : s.saved .Style ≤ 7) (h : n ∉ UsrPar.shutter) :
    (cpyOne c s n).gbUp = s.gbUp := by
  by_cases eq : s.up n = s.saved n
  · rw [cpyOne_of_eq eq]
  · rw [cpyOne_of_ne eq, chg_gbUp (put_style_le hk) h]
    rfl

theorem cpyOne_prv (hn : n ≠ .Style) : (cpyOne c s n).bStylePrv = s.bStylePrv := by
  by_cases eq : s.up n = s.saved n
  · rw [cpyOne_of_eq eq]
  · rw [cpyOne_of_ne eq, chg_of_ne hn, styleChk_prv]
    exact (run_same c n _).prv

theorem cpyOne_sameStyle (hn : n ≠ .Style) (h : n ∉ usrParStyleList) (s : UsrPars) :
    SameStyle s (cpyOne c s n) := by
  by_cases eq : s.up n = s.saved n
  · rw [cpyOne_of_eq eq]
    exact ⟨rfl, rfl, rfl⟩
  · rw [cpyOne_of_ne eq]
    have same := chg_sameStyle (c := c) hn h (s.put n (s.saved n))
    exact ⟨same.saved, same.buf, same.prv⟩

/-- Entries that neither are `m` nor write it. -/
def Spares (l : List UsrPar) (m : UsrPar) : Prop := ∀ n ∈ l, m ≠ n ∧ m ∉ n.touched

instance (l : List UsrPar) (m : UsrPar) : Decidable (Spares l m) :=
  inferInstanceAs (Decidable (∀ n ∈ l, m ≠ n ∧ m ∉ n.touched))

theorem Spares.tail (h : Spares (n :: l) m) : Spares l m := fun k hk => h k (List.mem_cons_of_mem _ hk)

theorem foldl_saved (hk : s.saved .Style ≤ 7) (l : List UsrPar) : (l.foldl (cpyOne c) s).saved = s.saved := by
  induction l generalizing s with
  | nil => rfl
  | cons n l ih =>
    have saved := cpyOne_saved (c := c) hk n
    rw [List.foldl_cons, ih (saved ▸ hk), saved]

theorem foldl_up (hk : s.saved .Style ≤ 7) {l : List UsrPar} (h : Spares l m) :
    (l.foldl (cpyOne c) s).up m = s.up m := by
  induction l generalizing s with
  | nil => rfl
  | cons n l ih =>
    have spared := h n List.mem_cons_self
    rw [List.foldl_cons, ih (cpyOne_saved (c := c) hk n ▸ hk) h.tail, cpyOne_up hk spared.1 spared.2]

theorem foldl_gbUp (hk : s.saved .Style ≤ 7) {l : List UsrPar} (h : ∀ n ∈ l, n ∉ UsrPar.shutter) :
    (l.foldl (cpyOne c) s).gbUp = s.gbUp := by
  induction l generalizing s with
  | nil => rfl
  | cons n l ih =>
    rw [List.foldl_cons, ih (cpyOne_saved (c := c) hk n ▸ hk) fun k hk => h k (List.mem_cons_of_mem _ hk),
      cpyOne_gbUp hk (h n List.mem_cons_self)]

/-- An entry that nothing writes from its own turn on has the saved value at the end. -/
theorem foldl_copied (hk : s.saved .Style ≤ 7) (pre : List UsrPar) {post : List UsrPar}
    (own : m ∉ m.touched) (h : Spares post m) : ((pre ++ m :: post).foldl (cpyOne c) s).up m = s.saved m := by
  have saved := foldl_saved (c := c) hk pre
  have hk' : (pre.foldl (cpyOne c) s).saved .Style ≤ 7 := saved ▸ hk
  rw [List.foldl_append, List.foldl_cons, foldl_up (cpyOne_saved (c := c) hk' m ▸ hk') h,
    cpyOne_up_self hk' own, saved]

/-- The same for an entry that no entry of the list writes. -/
theorem foldl_up_mem (hk : s.saved .Style ≤ 7) {l : List UsrPar} (nodup : l.Nodup) (hm : m ∈ l)
    (h : ∀ n ∈ l, m ∉ n.touched) : (l.foldl (cpyOne c) s).up m = s.saved m := by
  obtain ⟨pre, post, rfl⟩ := List.append_of_mem hm
  refine foldl_copied hk pre (h m hm) fun n hn => ⟨?_, h n (List.mem_append_right _ (List.mem_cons_of_mem _ hn))⟩
  rintro rfl
  exact (List.nodup_cons.1 (List.nodup_append.1 nodup).2.1).1 hn

end frame

section groups

variable {c : UpCfg} {m : UsrPar} {s : UsrPars}

/-- The list up to an entry, and from it on. -/
theorem foldl_usrParList (n : UsrPar) (s : UsrPars) :
    usrParList.foldl (cpyOne c) s =
      (usrParList.drop (n.ctorIdx + 1)).foldl (cpyOne c)
        (cpyOne c ((usrParList.take n.ctorIdx).foldl (cpyOne c) s) n) := by
  conv_lhs => rw [usrParList_split n, List.foldl_append, List.foldl_cons]

theorem cpy_errCht (hk : s.saved .Style ≤ 7) :
    (usrParList.foldl (cpyOne c) s).up .ErrChtMax =
        (if s.up .Stabilizing = s.saved .Stabilizing then s.saved .ErrChtMax
          else errChtMax (s.saved .Stabilizing)) ∧
      (usrParList.foldl (cpyOne c) s).up .ErrChtMin =
        if s.up .Stabilizing = s.saved .Stabilizing then s.saved .ErrChtMin
          else errChtMin (s.saved .Stabilizing) := by
  have nodup : (usrParList.take UsrPar.Stabilizing.ctorIdx).Nodup := usrParList_nodup.take
  rw [foldl_usrParList .Stabilizing]
  have saved := foldl_saved (c := c) hk (usrParList.take UsrPar.Stabilizing.ctorIdx)
  have most := foldl_up_mem (c := c) (m := .ErrChtMax) hk nodup (by decide +kernel) (by decide +kernel)
  have least := foldl_up_mem (c := c) (m := .ErrChtMin) hk nodup (by decide +kernel) (by decide +kernel)
  have own : ((usrParList.take UsrPar.Stabilizing.ctorIdx).foldl (cpyOne c) s).up .Stabilizing =
      s.up .Stabilizing := foldl_up hk (by decide +kernel)
  generalize (usrParList.take UsrPar.Stabilizing.ctorIdx).foldl (cpyOne c) s = t at saved most least own
  have hk' : t.saved .Style ≤ 7 := saved ▸ hk
  have hk'' : (cpyOne c t .Stabilizing).saved .Style ≤ 7 := cpyOne_saved hk' .Stabilizing ▸ hk'
  rw [foldl_up (m := .ErrChtMax) hk'' (by decide +kernel), foldl_up (m := .ErrChtMin) hk'' (by decide +kernel),
    ← own, ← saved]
  by_cases eq : t.up .Stabilizing = t.saved .Stabilizing
  · rw [cpyOne_of_eq eq, if_pos eq, if_pos eq, saved]
    exact ⟨most, least⟩
  · rw [cpyOne_of_ne eq, if_neg eq, if_neg eq, chg_run (by decide) (by decide)]
    unfold UsrPar.run antiSatStabilizingSet
    dsimp only
    rw [put_up_same, put_up_ne _ _ _ (by decide), put_up_same, put_up_same]
    exact ⟨rfl, rfl⟩

/-- The centre of the zoom lies in the image. -/
structure Zoomed (c : UpCfg) (t : UpList) : Prop where
  ten : 10 ≤ t .DZoom
  posH : InZoom c.dzHw (t .DZoom) (t .DZoomPosH)
  posV : InZoom c.dzVw (t .DZoom) (t .DZoomPosV)

theorem dzoom_up (c : UpCfg) (s : UsrPars) :
    (dzoom c s).up .DZoom = s.up .DZoom ∧
      (dzoom c s).up .DZoomPosH = zoomPos c.dzHw (s.up .DZoom) (s.up .DZoomPosH) ∧
      (dzoom c s).up .DZoomPosV = zoomPos c.dzVw (s.up .DZoom) (s.up .DZoomPosV) := by
  unfold dzoom
  rw [put_up_ne _ _ _ (by decide), put_up_ne _ _ _ (by decide), put_up_ne _ _ _ (by decide), put_up_same,
    put_up_same]
  exact ⟨rfl, rfl, rfl⟩

theorem Zoomed.congr (h : Zoomed c t) (eq : ∀ n ∈ [UsrPar.DZoom, .DZoomPosH, .DZoomPosV], u n = t n) :
    Zoomed c u := by
  constructor
  · rw [eq _ (by decide)]
    exact h.ten
  · rw [eq _ (by decide), eq _ (by decide)]
    exact h.posH
  · rw [eq _ (by decide), eq _ (by decide)]
    exact h.posV

/-- A centre copied after its zoom stays as it is. -/
theorem cpy_zoom (hk : s.saved .Style ≤ 7) (zoomed : Zoomed c s.saved) :
    ∀ n ∈ [UsrPar.DZoom, .DZoomPosH, .DZoomPosV], (usrParList.foldl (cpyOne c) s).up n = s.saved n := by
  have split : usrParList.drop (UsrPar.DZoom.ctorIdx + 1) =
      .DZoomPosH :: .DZoomPosV :: usrParList.drop (UsrPar.DZoomPosV.ctorIdx + 1) := by decide +kernel
  rw [foldl_usrParList .DZoom, split, List.foldl_cons, List.foldl_cons]
  have saved := foldl_saved (c := c) hk (usrParList.take UsrPar.DZoom.ctorIdx)
  generalize (usrParList.take UsrPar.DZoom.ctorIdx).foldl (cpyOne c) s = t at saved
  have hk0 : t.saved .Style ≤ 7 := saved ▸ hk
  have zoom : (cpyOne c t .DZoom).up .DZoom = s.saved .DZoom :=
    (cpyOne_up_self hk0 (by decide)).trans (congrFun saved _)
  have saved1 := (cpyOne_saved (c := c) hk0 .DZoom).trans saved
  generalize cpyOne c t .DZoom = t1 at zoom saved1
  have hk1 : t1.saved .Style ≤ 7 := saved1 ▸ hk
  have posH : (cpyOne c t1 .DZoomPosH).up .DZoomPosH = s.saved .DZoomPosH := by
    by_cases eq : t1.up .DZoomPosH = t1.saved .DZoomPosH
    · rw [cpyOne_of_eq eq, eq, saved1]
    · rw [cpyOne_of_ne eq, chg_run (by decide) (by decide)]
      refine (dzoom_up c _).2.1.trans ?_
      rw [put_up_ne _ _ _ (by decide), put_up_same, zoom, saved1]
      exact zoomPos_of_inZoom zoomed.posH
  have zoom2 : (cpyOne c t1 .DZoomPosH).up .DZoom = s.saved .DZoom :=
    (cpyOne_up hk1 (by decide) (by decide)).trans zoom
  have saved2 := (cpyOne_saved (c := c) hk1 .DZoomPosH).trans saved1
  generalize cpyOne c t1 .DZoomPosH = t2 at posH zoom2 saved2
  have hk2 : t2.saved .Style ≤ 7 := saved2 ▸ hk
  have both : (cpyOne c t2 .DZoomPosV).up .DZoomPosH = s.saved .DZoomPosH ∧
      (cpyOne c t2 .DZoomPosV).up .DZoomPosV = s.saved .DZoomPosV := by
    by_cases eq : t2.up .DZoomPosV = t2.saved .DZoomPosV
    · rw [cpyOne_of_eq eq, eq, saved2]
      exact ⟨posH, rfl⟩
    · rw [cpyOne_of_ne eq, chg_run (by decide) (by decide)]
      refine ⟨(dzoom_up c _).2.1.trans ?_, (dzoom_up c _).2.2.trans ?_⟩
      · rw [put_up_ne _ _ _ (by decide), put_up_ne _ _ _ (by decide), zoom2, posH]
        exact zoomPos_of_inZoom zoomed.posH
      · rw [put_up_ne _ _ _ (by decide), put_up_same, zoom2, saved2]
        exact zoomPos_of_inZoom zoomed.posV
  have zoom3 : (cpyOne c t2 .DZoomPosV).up .DZoom = s.saved .DZoom :=
    (cpyOne_up hk2 (by decide) (by decide)).trans zoom2
  have hk3 : (cpyOne c t2 .DZoomPosV).saved .Style ≤ 7 := cpyOne_saved hk2 .DZoomPosV ▸ hk2
  have spared : ∀ n ∈ [UsrPar.DZoom, .DZoomPosH, .DZoomPosV],
      Spares (usrParList.drop (UsrPar.DZoomPosV.ctorIdx + 1)) n := by decide +kernel
  intro n hn
  rw [foldl_up hk3 (spared n hn)]
  simp only [List.mem_cons, List.not_mem_nil, or_false] at hn
  obtain rfl | rfl | rfl := hn
  exacts [zoom3, both.1, both.2]

end groups

section style

variable {c : UpCfg} {n : UsrPar} {s : UsrPars}

/-- Outside `PREVIOUS` the entries of a style have its values. -/
def Styled (t : UpList) : Prop :=
  t .Style ≠ 0 → ∀ n ∈ usrParStyleList, styleVal n (t .Style) = some (t n)

theorem cpyOne_style (hn : n ∈ usrParStyleList) (ne : s.up n ≠ s.saved n) (buf : s.bStyleBuf = s.up .Style)
    (styled : s.up .Style ≠ 0 → styleVal n (s.up .Style) = some (s.up n)) :
    (cpyOne c s n).bStyleBuf = 0 ∧ (cpyOne c s n).up .Style = 0 := by
  have other : n ≠ .Style := fun h => absurd (h ▸ hn) (by decide)
  rw [cpyOne_of_ne ne, chg_of_ne other, run_of_mem_style hn]
  unfold styleChk
  rw [put_bStyleBuf, buf]
  by_cases zero : s.up .Style = 0
  · have : styleVal n 0 = none := rfl
    rw [zero, this]
    exact ⟨buf.trans zero, (put_up_ne _ _ _ other.symm).trans zero⟩
  · rw [styled zero]
    dsimp only
    rw [put_up_same, if_pos ne.symm]
    refine ⟨rfl, ?_⟩
    exact put_up_same (s.put n (s.saved n)) .Style 0

/-- No code but that of `Style` writes a styled entry. -/
theorem eq_style_of_touched : ∀ n ∈ usrParList, ∀ m ∈ usrParStyleList, m ∈ n.touched → n = .Style := by
  decide +kernel

theorem style_not_touched : ∀ n ∈ usrParList, .Style ∈ n.touched → n ∈ usrParStyleList := by
  decide +kernel

/-- The copy of a styled entry with another value ends the style for the rest of the copy. -/
theorem foldl_style (hk : s.saved .Style ≤ 7) {l : List UsrPar} (nodup : l.Nodup) (hs : .Style ∉ l)
    (buf : s.bStyleBuf = s.up .Style)
    (styled : s.up .Style ≠ 0 → ∀ n ∈ l, n ∈ usrParStyleList → styleVal n (s.up .Style) = some (s.up n)) :
    (l.foldl (cpyOne c) s).bStyleBuf = (l.foldl (cpyOne c) s).up .Style ∧
      (l.foldl (cpyOne c) s).bStylePrv = s.bStylePrv ∧
      (l.foldl (cpyOne c) s).up .Style =
        if ∃ n ∈ l, n ∈ usrParStyleList ∧ s.up n ≠ s.saved n then 0 else s.up .Style := by
  induction l generalizing s with
  | nil => exact ⟨buf, rfl, (if_neg fun ⟨_, hn, _⟩ => absurd hn List.not_mem_nil).symm⟩
  | cons n l ih =>
    obtain ⟨fresh, nodup⟩ := List.nodup_cons.1 nodup
    have other : n ≠ .Style := fun h => hs (h ▸ List.mem_cons_self)
    have saved := cpyOne_saved (c := c) hk n
    have rest : .Style ∉ l := fun h => hs (List.mem_cons_of_mem _ h)
    rw [List.foldl_cons]
    by_cases ends : n ∈ usrParStyleList ∧ s.up n ≠ s.saved n
    · obtain ⟨buf0, style0⟩ := cpyOne_style (c := c) ends.1 ends.2 buf
        fun pos => styled pos n List.mem_cons_self ends.1
      have next := ih (saved ▸ hk) nodup rest (buf0.trans style0.symm) fun pos => absurd style0 pos
      refine ⟨next.1, next.2.1.trans (cpyOne_prv other), ?_⟩
      rw [next.2.2, style0, ite_self, if_pos ⟨n, List.mem_cons_self, ends⟩]
    · have same : SameStyle s (cpyOne c s n) := by
        by_cases hn : n ∈ usrParStyleList
        · rw [cpyOne_of_eq (not_not.1 fun ne => ends ⟨hn, ne⟩)]
          exact ⟨rfl, rfl, rfl⟩
        · exact cpyOne_sameStyle other hn s
      have style : (cpyOne c s n).up .Style = s.up .Style := by
        by_cases hn : n ∈ usrParStyleList
        · rw [cpyOne_of_eq (not_not.1 fun ne => ends ⟨hn, ne⟩)]
        · exact cpyOne_up hk other.symm fun h => hn (style_not_touched n (mem_usrParList n) h)
      have later : ∀ m ∈ l, m ∈ usrParStyleList → (cpyOne c s n).up m = s.up m := fun m hm hs =>
        cpyOne_up hk (fun eq => fresh (eq ▸ hm))
          fun h => other (eq_style_of_touched n (mem_usrParList n) m hs h)
      have next := ih (saved ▸ hk) nodup rest ((same.buf.trans buf).trans style.symm) fun pos m hm hs => by
        rw [style, later m hm hs]
        exact styled (style ▸ pos) m (List.mem_cons_of_mem _ hm) hs
      refine ⟨next.1, next.2.1.trans same.prv, ?_⟩
      rw [next.2.2, style, saved]
      refine if_congr ⟨?_, ?_⟩ rfl rfl
      · rintro ⟨m, hm, hs, ne⟩
        exact ⟨m, List.mem_cons_of_mem _ hm, hs, later m hm hs ▸ ne⟩
      · rintro ⟨m, hm, ofStyle, ne⟩
        obtain rfl | hm := List.mem_cons.1 hm
        · exact absurd ⟨ofStyle, ne⟩ ends
        · exact ⟨m, hm, ofStyle, (later m hm ofStyle).symm ▸ ne⟩

/-- Going back to a saved `PREVIOUS` out of a style whose values were saved leaves the remembered values. -/
def Forgets (s : UsrPars) : Prop :=
  s.saved .Style = 0 ∧ s.up .Style ≠ 0 ∧ (∀ n ∈ usrParStyleList, s.up n = s.saved n) ∧
    ∃ n ∈ usrParStyleList, s.bStylePrv n ≠ s.saved n

instance (s : UsrPars) : Decidable s.Forgets :=
  inferInstanceAs (Decidable (_ ∧ _ ∧ _ ∧ _))

theorem cpy_style (hk : s.saved .Style ≤ 7) (buf : s.bStyleBuf = s.up .Style) (styled : Styled s.up)
    (savedStyled : Styled s.saved) :
    (usrParList.foldl (cpyOne c) s).up .Style = s.saved .Style ∧
      Styled (usrParList.foldl (cpyOne c) s).up ∧
      ((∀ n ∈ usrParStyleList, (usrParList.foldl (cpyOne c) s).up n = s.saved n) ↔ ¬s.Forgets) := by
  have last : usrParList.drop (UsrPar.Style.ctorIdx + 1) = [] := by decide +kernel
  have nodup : (usrParList.take UsrPar.Style.ctorIdx).Nodup := usrParList_nodup.take
  have mem : ∀ n ∈ usrParStyleList, n ∈ usrParList.take UsrPar.Style.ctorIdx := by decide +kernel
  have free : ∀ n ∈ usrParStyleList, ∀ m ∈ usrParList.take UsrPar.Style.ctorIdx, n ∉ m.touched := by
    decide +kernel
  have before := foldl_style (c := c) hk nodup (by decide +kernel) buf fun pos n _ => styled pos n
  have copied := fun n hn => foldl_up_mem (c := c) (m := n) hk nodup (mem n hn) (free n hn)
  have saved := foldl_saved (c := c) hk (usrParList.take UsrPar.Style.ctorIdx)
  have differs : (∃ n ∈ usrParList.take UsrPar.Style.ctorIdx, n ∈ usrParStyleList ∧ s.up n ≠ s.saved n) ↔
      ¬∀ n ∈ usrParStyleList, s.up n = s.saved n := by
    rw [not_forall]
    exact ⟨fun ⟨n, _, hn, ne⟩ => ⟨n, fun all => ne (all hn)⟩,
      fun ⟨n, ne⟩ => have ⟨hn, ne⟩ := Classical.not_imp.1 ne; ⟨n, mem n hn, hn, ne⟩⟩
  rw [foldl_usrParList .Style, last, List.foldl_nil]
  rw [if_congr differs rfl rfl] at before
  generalize (usrParList.take UsrPar.Style.ctorIdx).foldl (cpyOne c) s = t at before copied saved
  obtain ⟨tbuf, tprv, tstyle⟩ := before
  have hk' : t.saved .Style ≤ 7 := saved ▸ hk
  by_cases eq : t.up .Style = t.saved .Style
  · rw [cpyOne_of_eq eq]
    refine ⟨eq.trans (congrFun saved _), fun pos n hn => ?_, fun _ => ?_, fun _ => copied⟩
    · rw [eq, saved, copied n hn]
      exact savedStyled (saved ▸ eq ▸ pos) n hn
    · rintro ⟨zero, pos, all, -⟩
      rw [if_neg (not_not_intro all), eq, saved, zero] at tstyle
      exact pos tstyle.symm
  · have set : (t.put .Style (t.saved .Style)).up .Style = s.saved .Style :=
      (put_up_same _ _ _).trans (congrFun saved _)
    rw [cpyOne_of_ne eq, chg_style, set]
    have selected := styleSel_selected (c := c) hk (t.put .Style (t.saved .Style))
    generalize styleSel c .change (s.saved .Style) (t.put .Style (t.saved .Style)) = u at selected
    have style : u.up .Style = s.saved .Style := (selected.kept _ (by decide)).trans set
    have ne : t.bStyleBuf ≠ s.saved .Style := tbuf.trans_ne (saved ▸ eq)
    have values := selected.styled ne
    rw [put_bStyleBuf, put_bStylePrv, tprv] at values
    have restores : s.saved .Style ≠ 0 → ∀ n ∈ usrParStyleList, u.up n = s.saved n := fun pos n hn => by
      rw [values n hn, styleOf, if_neg pos, savedStyled pos n hn, ite_self]
      rfl
    refine ⟨style, fun pos n hn => ?_, ?_⟩
    · rw [style] at pos
      rw [style, restores pos n hn]
      exact savedStyled pos n hn
    · by_cases zero : s.saved .Style = 0
      · have pos : t.bStyleBuf ≠ 0 := zero ▸ ne
        have kept : ∀ n ∈ usrParStyleList, s.up n = s.saved n :=
          by_contra fun diff => pos (tbuf.trans (tstyle.trans (if_pos diff)))
        rw [if_neg (not_not_intro kept)] at tstyle
        have prv : ∀ n ∈ usrParStyleList, u.up n = s.bStylePrv n := fun n hn => by
          rw [values n hn, if_neg pos, styleOf, if_pos zero]
        constructor
        · rintro all ⟨-, -, -, n, hn, ne⟩
          exact ne ((prv n hn).symm.trans (all n hn))
        · intro forgets n hn
          rw [prv n hn]
          exact by_contra fun ne => forgets ⟨zero, tstyle ▸ tbuf ▸ pos, kept, n, hn, ne⟩
      · exact ⟨fun _ forgets => zero forgets.1, fun _ => restores zero⟩

end style

end UsrPars

end En675.Isp
