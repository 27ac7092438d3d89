import Mathlib.Data.List.Induction
import En675.Isp.UsrParRestore

/-! The style over every history of the menu: what its buffer says of the styled entries, and what the style
`PREVIOUS` goes back to. -/

namespace En675.Isp

namespace UsrPars

/-- The style in the table is the one of the buffer, and the entries have its values. -/
structure InStyle (s : UsrPars) : Prop where
  buf : s.bStyleBuf = s.up .Style
  vals : ∀ {n v}, styleVal n s.bStyleBuf = some v → s.up n = v

/-- Two states with the same style. -/
structure Kept (s t : UsrPars) : Prop where
  buf : t.bStyleBuf = s.bStyleBuf
  on : t.gbStylePreviousOn = s.gbStylePreviousOn
  prv : t.bStylePrv = s.bStylePrv

/-- The same styled entries, too. -/
structure SameLook (s t : UsrPars) : Prop extends Kept s t where
  up : ∀ m ∈ .Style :: usrParStyleList, t.up m = s.up m

theorem mem_of_styleVal (h : styleVal n k = some v) : n ∈ usrParStyleList := by
  by_contra hn
  rw [styleVal_of_not_mem hn] at h
  cases h

theorem pos_of_styleVal (h : styleVal n k = some v) : k ≠ 0 := by
  rintro rfl
  cases h

theorem SameLook.trans (h : SameLook s t) (k : SameLook t u) : SameLook s u where
  buf := k.buf.trans h.buf
  on := k.on.trans h.on
  prv := k.prv.trans h.prv
  up m hm := (k.up m hm).trans (h.up m hm)

theorem InStyle.congr (h : InStyle s) (look : SameLook s t) : InStyle t where
  buf := look.buf.trans (h.buf.trans (look.up _ List.mem_cons_self).symm)
  vals hv := by
    rw [look.buf] at hv
    exact (look.up _ (List.mem_cons_of_mem _ (mem_of_styleVal hv))).trans (h.vals hv)

section edit

variable {c : UpCfg} {m n : UsrPar} {s : UsrPars} {k v : Nat}

theorem shutterMenuSet_on (s : UsrPars) : (shutterMenuSet s).gbStylePreviousOn = s.gbStylePreviousOn := by
  unfold shutterMenuSet
  split <;> rfl

theorem run_on (c : UpCfg) (n : UsrPar) (s : UsrPars) : (n.run c s).gbStylePreviousOn = s.gbStylePreviousOn := by
  unfold UsrPar.run
  split
  case h_1 | h_2 | h_3 => exact shutterMenuSet_on _
  all_goals rfl

theorem put_look (hn : n ∉ .Style :: usrParStyleList) (s : UsrPars) (v : Nat) : SameLook s (s.put n v) where
  buf := rfl
  on := rfl
  prv := rfl
  up _ hm := put_up_ne _ _ _ fun same => hn (same ▸ hm)

theorem run_look (hn : n ∉ .Style :: usrParStyleList) (s : UsrPars) : SameLook s (n.run c s) where
  buf := (run_same c n s).buf
  on := run_on c n s
  prv := (run_same c n s).prv
  up m hm := by
    refine run_up fun touched => hn ?_
    obtain rfl | styled := List.mem_cons.1 hm
    · exact List.mem_cons_of_mem _ (style_not_touched n (mem_usrParList n) touched)
    · exact eq_style_of_touched n (mem_usrParList n) m styled touched ▸ List.mem_cons_self

/-- While the buffer has the style that is being set, a write is all that setting an entry does. -/
theorem styleSet_write (hn : n ∈ usrParStyleList) (buf : s.bStyleBuf = k) :
    styleSet k (fun n => chgBy .change n (n.run c)) s n = s.put n ((s.styleTo k n).getD (s.up n)) := by
  unfold styleSet
  split
  case h_1 v hv =>
    rw [hv, Option.getD_some]
    split
    · dsimp only
      rw [chgBy_change, run_of_mem_style hn]
      refine styleChk_of_styleVal fun w hw => ?_
      rw [put_bStyleBuf, buf] at hw
      rw [styleTo, if_neg (pos_of_styleVal hw), hw] at hv
      rw [put_up_same, Option.some.inj hv]
    · rename_i same
      rw [← not_not.1 same, put_up_self]
  case h_2 hv => rw [hv, Option.getD_none, put_up_self]

/-- What a style leaves when it is set. -/
structure StyleIsSet (k : Nat) (l : List UsrPar) (s t : UsrPars) : Prop where
  buf : t.bStyleBuf = k
  on : t.gbStylePreviousOn = s.gbStylePreviousOn
  prv : t.bStylePrv = s.bStylePrv
  up : ∀ m, t.up m = if m ∈ l then (s.styleTo k m).getD (s.up m) else s.up m

theorem styleSet_foldl (l : List UsrPar) (hl : ∀ n ∈ l, n ∈ usrParStyleList) (buf : s.bStyleBuf = k) :
    StyleIsSet k l s (l.foldl (styleSet k fun n => chgBy .change n (n.run c)) s) := by
  induction l generalizing s with
  | nil => exact ⟨buf, rfl, rfl, fun _ => rfl⟩
  | cons n l ih =>
    rw [List.foldl_cons, styleSet_write (hl n List.mem_cons_self) buf]
    have set := ih (s := s.put n ((s.styleTo k n).getD (s.up n)))
      (fun m hm => hl m (List.mem_cons_of_mem _ hm)) buf
    refine ⟨set.buf, set.on, set.prv, fun m => (set.up m).trans ?_⟩
    rw [show (s.put n ((s.styleTo k n).getD (s.up n))).styleTo k m = s.styleTo k m from rfl]
    by_cases same : m = n
    · subst same
      rw [put_up_same, if_pos List.mem_cons_self]
      cases s.styleTo k m <;> simp
    · rw [put_up_ne _ _ _ same]
      simp [same]

/-- A style is remembered where it leaves 0, and set. -/
theorem styleSel_set (ne : s.bStyleBuf ≠ k) :
    StyleIsSet k usrParStyleList (if s.bStyleBuf = 0 then { s with bStylePrv := s.stylePrv } else s)
      (styleSel c .change k s) := by
  unfold styleSel
  rw [if_neg ne]
  have set := styleSet_foldl (c := c) (k := k) usrParStyleList (fun _ hn => hn)
    (s := { (if s.bStyleBuf = 0 then { s with bStylePrv := s.stylePrv } else s) with bStyleBuf := k }) rfl
  exact ⟨set.buf, set.on, set.prv, set.up⟩

/-- A selected style is the one in the buffer already, or it is set. -/
theorem select_cases (h : InStyle s) (k : Nat) :
    s.bStyleBuf = k ∧ usrParChg c .change .Style (s.put .Style k) = s ∨
      s.bStyleBuf ≠ k ∧ StyleIsSet k usrParStyleList
        (if s.bStyleBuf = 0 then { s.put .Style k with bStylePrv := s.stylePrv } else s.put .Style k)
        (usrParChg c .change .Style (s.put .Style k)) := by
  rw [chg_style, put_up_same]
  by_cases eq : s.bStyleBuf = k
  · refine .inl ⟨eq, ?_⟩
    rw [← eq, h.buf, put_up_self]
    exact if_pos h.buf
  · have prv : (s.put .Style k).stylePrv = s.stylePrv := by
      funext m
      unfold stylePrv
      split
      · rename_i hm
        exact put_up_ne _ _ _ fun same => absurd (same ▸ hm) (by decide)
      · rfl
    exact .inr ⟨eq, prv ▸ styleSel_set (s := s.put .Style k) eq⟩

/-- An entry whose change leaves a style on leaves it alone. -/
theorem styleChk_of_buf (h : (s.styleChk n).bStyleBuf ≠ 0) : s.styleChk n = s := by
  unfold styleChk at h ⊢
  split
  · rename_i v hv
    split
    · rename_i ne
      rw [hv] at h
      exact absurd (congrArg bStyleBuf (if_pos ne)) h
    · rfl
  · rfl

theorem put_inStyle (h : InStyle s) (hn : n ≠ .Style) (v : Nat) : InStyle ((s.put n v).styleChk n) := by
  have style : (s.put n v).up .Style = s.up .Style := put_up_ne _ _ _ hn.symm
  unfold styleChk
  split
  case h_1 w hw =>
    split
    · exact ⟨(put_up_same (s.put n v) .Style 0).symm, fun hv => absurd rfl (pos_of_styleVal hv)⟩
    · rename_i same
      refine ⟨h.buf.trans style.symm, fun {m v'} hv => ?_⟩
      by_cases eq : m = n
      · subst eq
        rw [← Option.some.inj (hw.symm.trans hv)]
        exact not_not.1 same
      · exact (put_up_ne _ _ _ eq).trans (h.vals hv)
  case h_2 hw =>
    refine ⟨h.buf.trans style.symm, fun {m v'} hv => ?_⟩
    by_cases eq : m = n
    · subst eq
      exact nomatch hw.symm.trans hv
    · exact (put_up_ne _ _ _ eq).trans (h.vals hv)

theorem select_inStyle (h : InStyle s) (k : Nat) : InStyle (usrParChg c .change .Style (s.put .Style k)) := by
  obtain ⟨-, same⟩ | ⟨-, set⟩ := select_cases (c := c) h k
  · exact same.symm ▸ h
  · refine ⟨?_, fun {n v} hv => ?_⟩
    · rw [set.buf, set.up, if_neg (by decide), apply_ite up, ite_self, put_up_same]
    · rw [set.buf] at hv
      rw [set.up, if_pos (mem_of_styleVal hv), styleTo, if_neg (pos_of_styleVal hv), hv]
      rfl

/-- Every write that `UsrParChg` follows. -/
theorem edit_inStyle (h : InStyle s) (n : UsrPar) (v : Nat) : InStyle (usrParChg c .change n (s.put n v)) := by
  by_cases hn : n = .Style
  · subst hn
    exact select_inStyle h v
  · rw [chg_of_ne hn]
    by_cases styled : n ∈ usrParStyleList
    · rw [run_of_mem_style styled]
      exact put_inStyle h hn v
    · have other : n ∉ .Style :: usrParStyleList := fun mem => (List.mem_cons.1 mem).elim hn styled
      rw [styleChk_of_not_mem styled]
      exact h.congr ((put_look other s v).trans (run_look other _))

/-- A style that is still on was not touched by the write. -/
theorem edit_kept (hn : n ≠ .Style) (s : UsrPars) (v : Nat)
    (buf : (usrParChg c .change n (s.put n v)).bStyleBuf ≠ 0) : Kept s (usrParChg c .change n (s.put n v)) := by
  rw [chg_of_ne hn] at buf ⊢
  rw [styleChk_of_buf buf]
  have same := run_same c n (s.put n v)
  exact ⟨same.buf, run_on c n _, same.prv⟩

theorem select_previous (h : InStyle s) (k : Nat)
    (on : (usrParChg c .change .Style (s.put .Style k)).gbStylePreviousOn = true)
    (buf : (usrParChg c .change .Style (s.put .Style k)).bStyleBuf ≠ 0) :
    s.bStyleBuf = 0 ∧
        (∀ n ∈ usrParStyleList, (usrParChg c .change .Style (s.put .Style k)).bStylePrv n = s.up n) ∨
      s.bStyleBuf ≠ 0 ∧ s.gbStylePreviousOn = true ∧
        (usrParChg c .change .Style (s.put .Style k)).bStylePrv = s.bStylePrv := by
  obtain ⟨-, same⟩ | ⟨-, set⟩ := select_cases (c := c) h k
  · rw [same] at on buf ⊢
    exact .inr ⟨buf, on, rfl⟩
  · by_cases zero : s.bStyleBuf = 0
    · refine .inl ⟨zero, fun n hn => ?_⟩
      rw [set.prv, if_pos zero]
      exact if_pos hn
    · rw [if_neg zero] at set
      exact .inr ⟨zero, set.on ▸ on, set.prv⟩

end edit

section history

variable {c : UpCfg} {s : UsrPars}

theorem cpy_inStyle (h : InStyle s) (l : List UsrPar) : InStyle (l.foldl (cpyOne c) s) := by
  induction l generalizing s with
  | nil => exact h
  | cons n l ih =>
    rw [List.foldl_cons]
    refine ih ?_
    unfold cpyOne
    split
    · exact edit_inStyle h n _
    · exact h

/-- What `UsrParStyle(UP(Style), 1, 0)` leaves: `PREVIOUS` can be selected if it is. -/
structure Entered (s : UsrPars) : Prop extends InStyle s where
  on : s.gbStylePreviousOn = (s.bStyleBuf == 0)

theorem Entered.zero (h : Entered s) (on : s.gbStylePreviousOn = true) : s.bStyleBuf = 0 :=
  eq_of_beq (h.on.symm.trans on)

theorem init_entered (h : InStyle s) : Entered (s.styleInit (s.up .Style) false) := by
  rw [styleInit_false]
  exact ⟨⟨rfl, fun hv => h.vals (h.buf ▸ hv)⟩, rfl⟩

theorem save_entered (h : InStyle s) (anSaveOn : Bool) : Entered (usrParSave c .change anSaveOn s) := by
  cases anSaveOn with
  | true =>
    unfold usrParSave
    rw [if_pos rfl]
    exact init_entered ⟨h.buf, h.vals⟩
  | false =>
    have kept := cpy_inStyle (c := c) h usrParList
    unfold usrParSave usrParCpy
    rw [if_neg Bool.false_ne_true]
    dsimp only
    generalize usrParList.foldl (cpyOne c) s = t at kept ⊢
    exact init_entered kept

theorem initRun_style : ∀ n ∈ usrParList, n.initRun = true → n ∉ usrParStyleList := by
  decide +kernel

theorem boot_look (h : InStyle s) (n : UsrPar) : SameLook s (usrParChg c .boot n s) := by
  unfold usrParChg chgBy
  dsimp only
  split
  · rename_i init
    by_cases hn : n = .Style
    · have same : styleSel c .boot (s.up .Style) s = s := if_pos h.buf
      rw [if_pos hn, same]
      exact ⟨⟨rfl, rfl, rfl⟩, fun _ _ => rfl⟩
    · rw [if_neg hn]
      have unstyled := initRun_style n (mem_usrParList n) init
      exact run_look (fun mem => (List.mem_cons.1 mem).elim hn unstyled) s
  · exact ⟨⟨rfl, rfl, rfl⟩, fun _ _ => rfl⟩

theorem boot_foldl_look (h : InStyle s) (l : List UsrPar) :
    SameLook s (l.foldl (fun s n => usrParChg c .boot n s) s) := by
  induction l generalizing s with
  | nil => exact ⟨⟨rfl, rfl, rfl⟩, fun _ _ => rfl⟩
  | cons n l ih =>
    have look := boot_look (c := c) h n
    exact look.trans (ih (h.congr look))

theorem boot_entered (h : Entered (appLoadPar c mem static)) : Entered (ispInit c mem) := by
  have look := boot_foldl_look (c := c) h.toInStyle usrParList
  refine ⟨h.toInStyle.congr look, ?_⟩
  rw [ispInit, initUsrParChgAll, look.on, look.buf, h.on]

theorem load_entered (h : InStyle s) : Entered (ispInit c (some s.up)) := by
  refine boot_entered ?_
  unfold appLoadPar
  dsimp only
  rw [styleInit_false]
  exact ⟨⟨rfl, fun hv => h.vals (h.buf ▸ hv)⟩, rfl⟩

theorem Tabled.inStyle (h : Tabled c s) : InStyle s where
  buf := h.buf
  vals {n v} hv := by
    rw [h.buf] at hv
    exact Option.some.inj ((h.styled (pos_of_styleVal hv) n (mem_of_styleVal hv)).symm.trans hv)

theorem styleSet_on (l : List UsrPar) (k : Nat) (s : UsrPars) :
    (l.foldl (styleSet k fun _ s => s) s).gbStylePreviousOn = s.gbStylePreviousOn := by
  induction l generalizing s with
  | nil => rfl
  | cons n l ih =>
    rw [List.foldl_cons, ih]
    unfold styleSet
    split
    · split <;> rfl
    · rfl

theorem reset_on (c : UpCfg) (s : UsrPars) : (appLoadPar c none s).gbStylePreviousOn = (initStyle == 0) := by
  have set : ({ s with gbUsrParTbl := usrParDefault c }.styleInit initStyle true).gbStylePreviousOn =
      (initStyle == 0) := by
    unfold styleInit
    dsimp only
    rw [if_pos (by decide)]
    exact styleSet_on ..
  unfold appLoadPar usrParReset
  dsimp only
  generalize { s with gbUsrParTbl := usrParDefault c }.styleInit initStyle true = t at set ⊢
  exact set

theorem reset_entered (c : UpCfg) : Entered (ispInit c none) := by
  refine boot_entered ⟨(reset_tabled c static).inStyle, ?_⟩
  rw [reset_on, reset_bStyleBuf]

theorem next_inStyle (h : InStyle s) (e : UsrParEvent) : InStyle (s.next c e) := by
  cases e with
  | edit n v => exact edit_inStyle h n v
  | save => exact (save_entered (c := c) h true).toInStyle
  | cancel => exact (save_entered (c := c) h false).toInStyle
  | reboot => exact (load_entered h).toInStyle

/-- The state after a history of the menu. -/
def afterAll (c : UpCfg) (es : List UsrParEvent) : UsrPars := es.foldl (next c) (ispInit c none)

theorem afterAll_nil : afterAll c [] = ispInit c none := by
  rw [afterAll, List.foldl_nil]

theorem afterAll_append (es : List UsrParEvent) (e : UsrParEvent) : afterAll c (es ++ [e]) = (afterAll c es).next c e := by
  rw [afterAll, List.foldl_append]
  rfl

theorem afterAll_inStyle (es : List UsrParEvent) : InStyle (afterAll c es) := by
  induction es using List.reverseRecOn with
  | nil => exact afterAll_nil (c := c) ▸ (reset_entered c).toInStyle
  | append_singleton es e ih => exact afterAll_append (c := c) es e ▸ next_inStyle ih e

/-- With a style on and `PREVIOUS` to go back to, what is remembered is what the style replaced, now or
before. -/
theorem next_previous (h : InStyle s) (e : UsrParEvent) (on : (s.next c e).gbStylePreviousOn = true)
    (buf : (s.next c e).bStyleBuf ≠ 0) :
    s.bStyleBuf = 0 ∧ (∀ n ∈ usrParStyleList, (s.next c e).bStylePrv n = s.up n) ∨
      s.bStyleBuf ≠ 0 ∧ s.gbStylePreviousOn = true ∧ (s.next c e).bStylePrv = s.bStylePrv := by
  cases e with
  | save => exact absurd ((save_entered (c := c) h true).zero on) buf
  | cancel => exact absurd ((save_entered (c := c) h false).zero on) buf
  | reboot => exact absurd ((load_entered h).zero on) buf
  | edit n v =>
    obtain rfl | hn := eq_or_ne n .Style
    · exact select_previous h v on buf
    · have kept := edit_kept (c := c) hn s v buf
      exact .inr ⟨kept.buf ▸ buf, kept.on ▸ on, kept.prv⟩

/-- `PREVIOUS` remembers the entries as they were when the style last left it. -/
theorem previous_left (es : List UsrParEvent) (on : (afterAll c es).gbStylePreviousOn = true)
    (buf : (afterAll c es).bStyleBuf ≠ 0) :
    ∃ before e later, es = before ++ e :: later ∧ (afterAll c before).up .Style = 0 ∧
      (∀ l, l <+: later → (afterAll c (before ++ e :: l)).up .Style ≠ 0) ∧
      ∀ n ∈ usrParStyleList, (afterAll c es).bStylePrv n = (afterAll c before).up n := by
  induction es using List.reverseRecOn with
  | nil =>
    rw [afterAll_nil] at on buf
    exact absurd ((reset_entered c).zero on) buf
  | append_singleton es e ih =>
    have here := afterAll_inStyle (c := c) es
    have style := (afterAll_inStyle (c := c) (es ++ [e])).buf ▸ buf
    rw [afterAll_append] at on buf style ⊢
    obtain ⟨zero, prv⟩ | ⟨pos, on', prv⟩ := next_previous here e on buf
    · refine ⟨es, e, [], rfl, here.buf ▸ zero, fun l hl => ?_, prv⟩
      rw [List.prefix_nil.1 hl, afterAll_append]
      exact style
    · obtain ⟨before, e', later, rfl, left, since, prv'⟩ := ih on' pos
      refine ⟨before, e', later ++ [e], by simp, left, fun l hl => ?_, fun n hn => prv ▸ prv' n hn⟩
      obtain rfl | hl := List.prefix_concat_iff.1 hl
      · rw [← List.cons_append, ← List.append_assoc, afterAll_append]
        exact style
      · exact since l hl

/-- After every history of the menu the style is the one of its buffer, a style that is on has its values,
and `PREVIOUS` brings back what the entries were when it was last left. -/
theorem previous_restores (c : UpCfg) (es : List UsrParEvent) :
    (afterAll c es).up .Style = (afterAll c es).bStyleBuf ∧
    ((afterAll c es).bStyleBuf ≠ 0 →
      ∀ n ∈ usrParStyleList, ∀ v, styleVal n (afterAll c es).bStyleBuf = some v → (afterAll c es).up n = v) ∧
    ((afterAll c es).gbStylePreviousOn = true → (afterAll c es).bStyleBuf ≠ 0 →
      ∃ before e later, es = before ++ e :: later ∧ (afterAll c before).up .Style = 0 ∧
        (∀ l, l <+: later → (afterAll c (before ++ e :: l)).up .Style ≠ 0) ∧
        ∀ n ∈ usrParStyleList, (afterAll c (es ++ [.edit .Style 0])).up n = (afterAll c before).up n) := by
  have here := afterAll_inStyle (c := c) es
  refine ⟨here.buf.symm, fun _ n _ v hv => here.vals hv, fun on buf => ?_⟩
  obtain ⟨before, e, later, split, left, since, prv⟩ := previous_left es on buf
  refine ⟨before, e, later, split, left, since, fun n hn => ?_⟩
  obtain ⟨zero, -⟩ | ⟨-, set⟩ := select_cases (c := c) here 0
  · exact absurd zero buf
  · rw [if_neg buf] at set
    rw [afterAll_append]
    refine (set.up n).trans ?_
    rw [if_pos hn]
    exact prv n hn

example : (afterAll cfg2M [.edit .Style 2, .edit .Gamma 9, .edit .Style 1, .edit .Style 0]).up .Gamma = 9 := by
  decide +kernel

end history

end UsrPars

end En675.Isp
