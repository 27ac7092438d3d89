import Mathlib.Combinatorics.SimpleGraph.Connectivity.Connected
import Mathlib.Order.Bounds.Basic
import Mathlib.SetTheory.Cardinal.Finite
import En675.Isp.ImdLabels

/-! The labels are the connected components of the set cells, and the boxes are theirs. -/

namespace En675.Isp

open Lib Relation

section graph

variable {hw vw : Nat} {word : Nat → Nat → BitVec 32}

/-- The set cells. -/
def ImdSet (hw vw : Nat) (word : Nat → Nat → BitVec 32) : Type :=
  {c : Nat × Nat // c.1 < vw ∧ c.2 < hw ∧ imdCell word c.1 c.2 = true}

/-- Neighbours share an edge, horizontally or vertically. -/
def imdGraph (hw vw : Nat) (word : Nat → Nat → BitVec 32) : SimpleGraph (ImdSet hw vw word) where
  Adj a b :=
    a.1.1 = b.1.1 ∧ (a.1.2 + 1 = b.1.2 ∨ b.1.2 + 1 = a.1.2) ∨
      a.1.2 = b.1.2 ∧ (a.1.1 + 1 = b.1.1 ∨ b.1.1 + 1 = a.1.1)
  symm := ⟨fun a b h => by omega⟩
  loopless := ⟨fun a h => by omega⟩

/-- The place of a cell in `IMD_IMG`. -/
def imdIx (hw : Nat) (c : Nat × Nat) : Nat := c.1 * hw + c.2

theorem imdIx_inj {c d : Nat × Nat} (hc : c.2 < hw) (hd : d.2 < hw) (same : imdIx hw c = imdIx hw d) : c = d := by
  have pos : 0 < hw := (Nat.zero_le _).trans_lt hc
  have line {c : Nat × Nat} (hc : c.2 < hw) : imdIx hw c / hw = c.1 := by
    rw [imdIx, Nat.mul_comm, Nat.mul_add_div pos, Nat.div_eq_of_lt hc, Nat.add_zero]
  have column {c : Nat × Nat} (hc : c.2 < hw) : imdIx hw c % hw = c.2 := by
    rw [imdIx, Nat.mul_comm, Nat.mul_add_mod_self_left, Nat.mod_eq_of_lt hc]
  exact Prod.ext ((line hc).symm.trans ((congrArg (· / hw) same).trans (line hd)))
    ((column hc).symm.trans ((congrArg (· % hw) same).trans (column hd)))

theorem imdIx_mod {c : Nat × Nat} (hc : c.2 < hw) : imdIx hw c % hw = c.2 := by
  rw [imdIx, Nat.mul_comm, Nat.mul_add_mod_self_left, Nat.mod_eq_of_lt hc]

theorem near_iff {c d : Nat × Nat} (hc : c.2 < hw) (hd : d.2 < hw) :
    Imd.Near hw (imdIx hw c) (imdIx hw d) ↔ c.1 = d.1 ∧ c.2 + 1 = d.2 ∨ c.2 = d.2 ∧ c.1 + 1 = d.1 := by
  unfold Imd.Near
  rw [imdIx_mod hd]
  constructor
  · rintro (⟨next, inner⟩ | below)
    · have same : imdIx hw c = imdIx hw (d.1, d.2 - 1) := by
        unfold imdIx at next ⊢
        dsimp only
        omega
      have at_ := imdIx_inj hc (show (d.1, d.2 - 1).2 < hw by dsimp only; omega) same
      rw [at_]
      dsimp only
      omega
    · have same : imdIx hw (c.1 + 1, c.2) = imdIx hw d := by
        unfold imdIx at below ⊢
        dsimp only
        rw [Nat.add_one_mul]
        omega
      have at_ := imdIx_inj (show (c.1 + 1, c.2).2 < hw from hc) hd same
      exact .inr (at_ ▸ ⟨rfl, rfl⟩)
  · rintro (⟨line, next⟩ | ⟨column, below⟩)
    · refine .inl ⟨?_, by omega⟩
      rw [imdIx, imdIx, ← line, ← next, Nat.add_assoc]
    · refine .inr ?_
      rw [imdIx, imdIx, ← column, ← below, Nat.add_one_mul]
      omega

theorem adj_iff (a b : ImdSet hw vw word) :
    (imdGraph hw vw word).Adj a b ↔
      Imd.Near hw (imdIx hw a.1) (imdIx hw b.1) ∨ Imd.Near hw (imdIx hw b.1) (imdIx hw a.1) := by
  rw [near_iff a.2.2.1 b.2.2.1, near_iff b.2.2.1 a.2.2.1]
  change _ ∧ _ ∨ _ ∧ _ ↔ _
  omega

theorem imdIx_lt {c : Nat × Nat} (h1 : c.1 < vw) (h2 : c.2 < hw) : imdIx hw c < vw * hw := by
  have lines := Nat.mul_le_mul_right hw (Nat.succ_le_of_lt h1)
  rw [Nat.succ_mul] at lines
  unfold imdIx
  omega

theorem mem_seen (a : ImdSet hw vw word) : imdIx hw a.1 ∈ Imd.Seen (Imd.imdBit hw word) (vw * hw) :=
  ⟨imdIx_lt a.2.1 a.2.2.1, (Imd.imdBit_eq a.2.2.1 word a.1.1).trans a.2.2.2⟩

theorem exists_cell (one : 0 < hw) (h : m ∈ Imd.Seen (Imd.imdBit hw word) (vw * hw)) :
    ∃ a : ImdSet hw vw word, imdIx hw a.1 = m :=
  ⟨⟨(m / hw, m % hw), (Nat.div_lt_iff_lt_mul one).2 h.1, Nat.mod_lt m one, h.2⟩, Nat.div_add_mod' m hw⟩

/-- Paths of cells are paths in the order of the pass. -/
theorem reachable_iff (one : 0 < hw) (a b : ImdSet hw vw word) :
    (imdGraph hw vw word).Reachable a b ↔
      EqvGen (Within (Imd.Near hw) (Imd.Seen (Imd.imdBit hw word) (vw * hw))) (imdIx hw a.1) (imdIx hw b.1) := by
  constructor
  · rintro ⟨path⟩
    induction path with
    | nil => exact .refl _
    | cons edge _ ih =>
      refine .trans _ _ _ ?_ ih
      rcases (adj_iff _ _).1 edge with near | near
      · exact .rel _ _ ⟨mem_seen _, mem_seen _, near⟩
      · exact .symm _ _ (.rel _ _ ⟨mem_seen _, mem_seen _, near⟩)
  · intro path
    generalize hx : imdIx hw a.1 = x at path
    generalize hy : imdIx hw b.1 = y at path
    induction path generalizing a b with
    | rel x y edge =>
      subst hx hy
      exact SimpleGraph.Adj.reachable ((adj_iff a b).2 (.inl edge.2.2))
    | refl x =>
      have same : a = b := Subtype.ext (imdIx_inj a.2.2.1 b.2.2.1 (hx.trans hy.symm))
      rw [same]
    | symm x y _ ih => exact (ih b a hy hx).symm
    | trans x y z first _ ih ih' =>
      obtain ⟨c, hc⟩ := exists_cell one ((eqvGen_mem first).1 (hx ▸ mem_seen a))
      exact (ih a c hx hc).trans (ih' c b hc hy)

end graph

section labels

variable {hw vw : Nat} {word : Nat → Nat → BitVec 32}

namespace Imd

theorem Safe.label_eq (h : Safe hw n s) (m : Nat) : s.label m = rank s.equ (s.img m) := by
  rw [label, h.flat.compact]
  exact if_pos (h.lt m)

theorem Safe.k_eq (h : Safe hw n s) : s.k + 1 = Nat.count (IsRoot s.equ) s.iLabelValue := by
  have first : Nat.count (IsRoot s.equ) 0 < Nat.count (IsRoot s.equ) s.iLabelValue :=
    Nat.count_strict_mono (p := IsRoot s.equ) (Nat.le_zero.1 (h.flat.le 0)) h.one_le
  rw [k, h.flat.compact]
  omega

theorem Safe.label_le (h : Safe hw n s) (m : Nat) : s.label m ≤ s.k := by
  have lt := h.flat.rank_lt (h.lt m)
  have count := h.k_eq
  rw [h.label_eq]
  omega

theorem Safe.label_pos (h : Safe hw n s) (hm : 0 < s.img m) : 0 < s.label m := by
  rw [h.label_eq]
  exact h.flat.rank_pos hm

theorem Safe.k_lt (h : Safe hw n s) : s.k < imdLutSize := by
  have count := h.k_eq
  have le : Nat.count (IsRoot s.equ) s.iLabelValue ≤ s.iLabelValue := Nat.count_le _
  have table := h.le
  omega

end Imd

/-- The labels behind the compaction are the components. -/
structure Components (hw vw : Nat) (word : Nat → Nat → BitVec 32) (label : Nat → Nat) (k : Nat) : Prop where
  same : ∀ a b : ImdSet hw vw word,
    label (imdIx hw a.1) = label (imdIx hw b.1) ↔ (imdGraph hw vw word).Reachable a b
  pos : ∀ a : ImdSet hw vw word, 0 < label (imdIx hw a.1)
  le : ∀ a : ImdSet hw vw word, label (imdIx hw a.1) ≤ k
  used : ∀ m, 0 < m → m ≤ k → ∃ a : ImdSet hw vw word, label (imdIx hw a.1) = m
  card : k = Nat.card (imdGraph hw vw word).ConnectedComponent

theorem Components.of_labels {label : Nat → Nat} {k : Nat}
    (same : ∀ a b : ImdSet hw vw word,
      label (imdIx hw a.1) = label (imdIx hw b.1) ↔ (imdGraph hw vw word).Reachable a b)
    (pos : ∀ a : ImdSet hw vw word, 0 < label (imdIx hw a.1)) (le : ∀ a : ImdSet hw vw word, label (imdIx hw a.1) ≤ k)
    (used : ∀ m, 0 < m → m ≤ k → ∃ a : ImdSet hw vw word, label (imdIx hw a.1) = m) :
    Components hw vw word label k where
  same := same
  pos := pos
  le := le
  used := used
  card := by
    let number (a : ImdSet hw vw word) : Fin k :=
      ⟨label (imdIx hw a.1) - 1, by have pos := pos a; have le := le a; omega⟩
    have number_iff (a b : ImdSet hw vw word) : number a = number b ↔ (imdGraph hw vw word).Reachable a b := by
      rw [← same, Fin.mk.injEq]
      have pos_a := pos a
      have pos_b := pos b
      omega
    let f : (imdGraph hw vw word).ConnectedComponent → Fin k :=
      SimpleGraph.ConnectedComponent.lift number fun a b path _ => (number_iff a b).2 path.reachable
    have inj : Function.Injective f := by
      intro x y
      induction x using SimpleGraph.ConnectedComponent.ind with
      | h a =>
        induction y using SimpleGraph.ConnectedComponent.ind with
        | h b => exact fun eq => SimpleGraph.ConnectedComponent.sound ((number_iff a b).1 eq)
    have surj : Function.Surjective f := by
      intro m
      obtain ⟨a, ha⟩ := used (m + 1) (Nat.succ_pos _) m.isLt
      refine ⟨(imdGraph hw vw word).connectedComponentMk a, Fin.ext ?_⟩
      change label (imdIx hw a.1) - 1 = m
      omega
    rw [Nat.card_eq_of_bijective f ⟨inj, surj⟩, Nat.card_eq_fintype_card, Fintype.card_fin]

theorem scan_components (one : 0 < hw) (le : hw ≤ 128) (pos : 0 < vw) (room : Imd.Roomy hw vw word) :
    Components hw vw word (Imd.scan hw vw word).label (Imd.scan hw vw word).k := by
  obtain ⟨safe, labelled⟩ := Imd.scan_labelled one le pos le_rfl room
  have seen (a : ImdSet hw vw word) := mem_seen a
  refine .of_labels (fun a b => ?_) (fun a => ?_) (fun a => safe.label_le _) fun m m_pos hm => ?_
  · rw [safe.label_eq, safe.label_eq, safe.flat.rank_eq_iff, reachable_iff one]
    exact labelled.classes _ (seen a) _ (seen b)
  · exact safe.label_pos (labelled.pos _ (seen a).1 (seen a).2)
  · have count := safe.k_eq
    have below : m < Nat.count (IsRoot (Imd.scan hw vw word).equ) (Imd.scan hw vw word).iLabelValue := by omega
    obtain ⟨x, hx, root, same⟩ := exists_rank below
    have x_pos : 0 < x := by
      rcases Nat.eq_zero_or_pos x with rfl | x_pos
      · rw [rank, root, Nat.count_zero] at same
        exact absurd same m_pos.ne
      · exact x_pos
    obtain ⟨y, hy, set_, at_⟩ := labelled.handed x x_pos hx
    obtain ⟨a, ha⟩ := exists_cell one ⟨hy, set_⟩
    exact ⟨a, by rw [ha, safe.label_eq, at_, same]⟩

end labels

section extent

variable {α : Type} {cells : Set α} {f : α → Nat} {c : α}

/-- The least value so far. -/
structure LowOf (cells : Set α) (f : α → Nat) (top x : Nat) : Prop where
  le : ∀ c ∈ cells, x ≤ f c
  mem : x = top ∨ ∃ c ∈ cells, x = f c

/-- The end behind the greatest value so far. -/
structure HighOf (cells : Set α) (f : α → Nat) (x : Nat) : Prop where
  lt : ∀ c ∈ cells, f c < x
  mem : x = 0 ∨ ∃ c ∈ cells, x = f c + 1

theorem lowOf_empty (f : α → Nat) (top : Nat) : LowOf ∅ f top top :=
  ⟨fun _ hc => absurd hc (Set.notMem_empty _), .inl rfl⟩

theorem highOf_empty (f : α → Nat) : HighOf ∅ f 0 := ⟨fun _ hc => absurd hc (Set.notMem_empty _), .inl rfl⟩

theorem LowOf.insert (h : LowOf cells f top x) (c : α) : LowOf (insert c cells) f top (if f c < x then f c else x) where
  le d hd := by
    rcases hd with rfl | hd
    · split <;> omega
    · have le := h.le d hd
      split <;> omega
  mem := by
    split
    · exact .inr ⟨c, .inl rfl, rfl⟩
    · exact h.mem.imp id fun ⟨d, hd, at_⟩ => ⟨d, .inr hd, at_⟩

theorem HighOf.insert (h : HighOf cells f x) (c : α) : HighOf (insert c cells) f (if x < f c + 1 then f c + 1 else x) where
  lt d hd := by
    rcases hd with rfl | hd
    · split <;> omega
    · have lt := h.lt d hd
      split <;> omega
  mem := by
    split
    · exact .inr ⟨c, .inl rfl, rfl⟩
    · exact h.mem.imp id fun ⟨d, hd, at_⟩ => ⟨d, .inr hd, at_⟩

theorem LowOf.isLeast (h : LowOf cells f top x) (some_ : cells.Nonempty) (below : ∀ c ∈ cells, f c < top) :
    IsLeast (f '' cells) x := by
  obtain ⟨c, hc⟩ := some_
  refine ⟨?_, ?_⟩
  · rcases h.mem with rfl | ⟨d, hd, rfl⟩
    · exact absurd (h.le c hc) (not_le.2 (below c hc))
    · exact ⟨d, hd, rfl⟩
  · rintro _ ⟨d, hd, rfl⟩
    exact h.le d hd

theorem HighOf.isGreatest (h : HighOf cells f x) (some_ : cells.Nonempty) :
    IsGreatest ((fun c => f c + 1) '' cells) x := by
  obtain ⟨c, hc⟩ := some_
  refine ⟨?_, ?_⟩
  · rcases h.mem with rfl | ⟨d, hd, rfl⟩
    · exact absurd (h.lt c hc) (Nat.not_lt_zero _)
    · exact ⟨d, hd, rfl⟩
  · rintro _ ⟨d, hd, rfl⟩
    exact h.lt d hd

end extent

section boxes

variable {hw vw det : Nat} {s : Imd} {cells : Set (Nat × Nat)}

/-- The box of the cells so far. -/
structure Boxed (hw vw : Nat) (cells : Set (Nat × Nat)) (r : BRect) : Prop where
  sx : LowOf cells Prod.snd (hw + 1) r.sx
  ex : HighOf cells Prod.snd r.ex
  sy : LowOf cells Prod.fst (vw + 1) r.sy
  ey : HighOf cells Prod.fst r.ey

/-- The least half-open box around the cells. -/
structure IsBox (cells : Set (Nat × Nat)) (r : BRect) : Prop where
  sx : IsLeast (Prod.snd '' cells) r.sx
  ex : IsGreatest ((fun c => c.2 + 1) '' cells) r.ex
  sy : IsLeast (Prod.fst '' cells) r.sy
  ey : IsGreatest ((fun c => c.1 + 1) '' cells) r.ey

theorem boxed_fresh (hx : hw ≤ 128) (hy : vw ≤ 254) : Boxed hw vw ∅ (.fresh hw vw) := by
  have sx : (BRect.fresh hw vw).sx = hw + 1 := Nat.mod_eq_of_lt (by omega)
  have sy : (BRect.fresh hw vw).sy = vw + 1 := Nat.mod_eq_of_lt (by omega)
  exact ⟨sx ▸ lowOf_empty _ _, highOf_empty _, sy ▸ lowOf_empty _ _, highOf_empty _⟩

theorem Boxed.widen (h : Boxed hw vw cells r) {c : Nat × Nat} (hx : c.2 < 128) (hy : c.1 < 254) :
    Boxed hw vw (insert c cells) (r.widen c.1 c.2) := by
  have j : c.2 % 2 ^ 8 = c.2 := Nat.mod_eq_of_lt (by omega)
  have j' : (c.2 + 1) % 2 ^ 8 = c.2 + 1 := Nat.mod_eq_of_lt (by omega)
  have i : c.1 % 2 ^ 8 = c.1 := Nat.mod_eq_of_lt (by omega)
  have i' : (c.1 + 1) % 2 ^ 8 = c.1 + 1 := Nat.mod_eq_of_lt (by omega)
  unfold BRect.widen
  rw [j, j', i, i']
  exact ⟨h.sx.insert c, h.ex.insert c, h.sy.insert c, h.ey.insert c⟩

theorem Boxed.isBox (h : Boxed hw vw cells r) (some_ : cells.Nonempty) (inside : ∀ c ∈ cells, c.1 < vw ∧ c.2 < hw) :
    IsBox cells r where
  sx := h.sx.isLeast some_ fun c hc => (inside c hc).2.trans (Nat.lt_succ_self hw)
  ex := h.ex.isGreatest some_
  sy := h.sy.isLeast some_ fun c hc => (inside c hc).1.trans (Nat.lt_succ_self vw)
  ey := h.ey.isGreatest some_

/-- The cells of a list with the label of box `m`. -/
def InBox (hw : Nat) (s : Imd) (l : List (Nat × Nat)) (m : Nat) : Set (Nat × Nat) :=
  {c | c ∈ l ∧ s.img (imdIx hw c) ≠ 0 ∧ s.label (imdIx hw c) = m + 1}

namespace ImdBoxes

theorem boxed_visits (safe : Imd.Safe hw n s) (hx : hw ≤ 128) (hy : vw ≤ 254) (old : Nat → BRect)
    (l : List (Nat × Nat)) (inside : ∀ c ∈ l, c.1 < vw ∧ c.2 < hw) (hm : m < min s.k det) :
    Boxed hw vw (InBox hw s l m) ((l.foldl (visit det hw s) (start hw vw det s old)).bRectIMD m) := by
  induction l using List.reverseRecOn with
  | nil =>
    have none_ : InBox hw s [] m = ∅ := Set.eq_empty_of_forall_notMem fun c hc => List.not_mem_nil hc.1
    have first : (start hw vw det s old).bRectIMD m = .fresh hw vw := if_pos hm
    rw [none_, List.foldl_nil, first]
    exact boxed_fresh hx hy
  | append_singleton l c ih =>
    have ih := ih fun d hd => inside d (List.mem_append_left [c] hd)
    have mem {d : Nat × Nat} : d ∈ l ++ [c] ↔ d = c ∨ d ∈ l := by
      rw [List.mem_append, List.mem_singleton, or_comm]
    have skip (other : s.img (imdIx hw c) ≠ 0 → s.label (imdIx hw c) ≠ m + 1) :
        InBox hw s (l ++ [c]) m = InBox hw s l m := by
      ext d
      refine ⟨fun hd => ⟨(mem.1 hd.1).resolve_left ?_, hd.2⟩, fun hd => ⟨mem.2 (.inr hd.1), hd.2⟩⟩
      rintro rfl
      exact other hd.2.1 hd.2.2
    rw [List.foldl_append, List.foldl_cons, List.foldl_nil]
    unfold visit
    dsimp only
    split
    · rename_i unset
      rw [skip fun set_ => absurd unset set_]
      exact ih
    · rename_i set_
      have pos := safe.label_pos (Nat.pos_of_ne_zero set_)
      have le := safe.label_le (c.1 * hw + c.2)
      have table := safe.k_lt
      have size : imdLutSize = 255 := rfl
      have nLabel : (s.label (c.1 * hw + c.2) + (2 ^ 32 - 1)) % 2 ^ 32 = s.label (c.1 * hw + c.2) - 1 := by
        omega
      rw [nLabel]
      split
      · rename_i beyond
        rw [skip fun _ at_ => by unfold imdIx at at_; omega]
        exact ih
      · by_cases at_ : s.label (c.1 * hw + c.2) - 1 = m
        · have added : InBox hw s (l ++ [c]) m = insert c (InBox hw s l m) := by
            ext d
            constructor
            · intro hd
              exact (mem.1 hd.1).imp id fun hl => ⟨hl, hd.2⟩
            · rintro (rfl | hd)
              · exact ⟨mem.2 (.inl rfl), set_, by unfold imdIx; omega⟩
              · exact ⟨mem.2 (.inr hd.1), hd.2⟩
          obtain ⟨line, column⟩ := inside c (mem.2 (.inl rfl))
          dsimp only
          rw [at_, Function.update_self, added]
          exact ih.widen (by omega) (by omega)
        · rw [skip fun _ same => by unfold imdIx at same; omega]
          dsimp only
          rw [Function.update_of_ne (Ne.symm at_)]
          exact ih

/-- Of every bitmap. -/
theorem used_visits (safe : Imd.Safe hw n s) (old : Nat → BRect) (l : List (Nat × Nat)) :
    (∀ x ∈ (l.foldl (visit det hw s) (start hw vw det s old)).used, x < imdLutSize) ∧
      ∀ x ∈ (l.foldl (visit det hw s) (start hw vw det s old)).usedBox, x < det := by
  induction l using List.reverseRecOn with
  | nil =>
    refine ⟨fun x hx => absurd hx List.not_mem_nil, fun x hx => ?_⟩
    have lt := List.mem_range.1 hx
    omega
  | append_singleton l c ih =>
    have img := (safe.lt (c.1 * hw + c.2)).trans_le safe.le
    rw [List.foldl_append, List.foldl_cons, List.foldl_nil]
    unfold visit
    dsimp only
    generalize (s.label (c.1 * hw + c.2) + (2 ^ 32 - 1)) % 2 ^ 32 = nLabel
    split
    · exact ih
    · have used : ∀ x ∈ (l.foldl (visit det hw s) (start hw vw det s old)).used ++ [s.img (c.1 * hw + c.2)],
          x < imdLutSize := by
        intro x hx
        rcases List.mem_append.1 hx with hx | hx
        · exact ih.1 x hx
        · obtain rfl := List.mem_singleton.1 hx
          exact img
      split
      · exact ⟨used, ih.2⟩
      · rename_i below
        refine ⟨used, fun x hx => ?_⟩
        rcases List.mem_append.1 hx with hx | hx
        · exact ih.2 x hx
        · obtain rfl := List.mem_singleton.1 hx
          exact not_le.1 below

end ImdBoxes

end boxes

section call

variable {hw vw det : Nat} {word : Nat → Nat → BitVec 32}

theorem mem_cells : c ∈ ImdBoxes.cells hw vw ↔ c.1 < vw ∧ c.2 < hw := by
  unfold ImdBoxes.cells
  rw [List.mem_flatMap]
  constructor
  · rintro ⟨i, hi, hc⟩
    obtain ⟨j, hj, rfl⟩ := List.mem_map.1 hc
    exact ⟨List.mem_range.1 hi, List.mem_range.1 hj⟩
  · rintro ⟨hi, hj⟩
    exact ⟨c.1, List.mem_range.2 hi, List.mem_map.2 ⟨c.2, List.mem_range.2 hj, rfl⟩⟩

/-- The set cells with a label. -/
def LabelCells (hw vw : Nat) (word : Nat → Nat → BitVec 32) (label : Nat → Nat) (m : Nat) : Set (Nat × Nat) :=
  {c | (c.1 < vw ∧ c.2 < hw ∧ imdCell word c.1 c.2 = true) ∧ label (imdIx hw c) = m}

theorem inBox_cells (one : 0 < hw) (le : hw ≤ 128) (pos : 0 < vw) (room : Imd.Roomy hw vw word) (m : Nat) :
    InBox hw (Imd.scan hw vw word) (ImdBoxes.cells hw vw) m =
      LabelCells hw vw word (Imd.scan hw vw word).label (m + 1) := by
  obtain ⟨-, labelled⟩ := Imd.scan_labelled one le pos le_rfl room
  ext c
  constructor
  · rintro ⟨hc, set_, at_⟩
    obtain ⟨line, column⟩ := mem_cells.1 hc
    have bit := (labelled.set_iff (imdIx_lt line column)).1 (Nat.pos_of_ne_zero set_)
    exact ⟨⟨line, column, (Imd.imdBit_eq column word c.1).symm.trans bit⟩, at_⟩
  · rintro ⟨⟨line, column, set_⟩, at_⟩
    have bit := (Imd.imdBit_eq column word c.1).trans set_
    exact ⟨mem_cells.2 ⟨line, column⟩, (labelled.pos _ (imdIx_lt line column) bit).ne', at_⟩

theorem compacted_used (safe : Imd.Safe hw n s) : ∀ x ∈ s.compacted.used, x < imdLutSize := by
  intro x hx
  rcases List.mem_append.1 hx with hx | hx
  · exact safe.used x hx
  · obtain ⟨y, hy, hx⟩ := List.mem_flatMap.1 hx
    have lt := (List.mem_range.1 hy).trans_le safe.le
    rcases List.mem_cons.1 hx with rfl | hx
    · exact lt
    · obtain rfl := List.mem_singleton.1 hx
      exact (safe.flat.le y).trans_lt lt

section run

variable (hw vw det : Nat) (word : Nat → Nat → BitVec 32) (fps : Nat) (th : ImdTh) (w : ImdWatch) (old : Nat → BRect)

@[simp] theorem libIMD_imd : (libIMD hw vw det fps th word w old).imd = (Imd.scan hw vw word).compacted := by
  unfold libIMD
  dsimp only
  split <;> rfl

@[simp] theorem libIMD_k : (libIMD hw vw det fps th word w old).k = (Imd.scan hw vw word).k := by
  unfold libIMD
  dsimp only
  split <;> rfl

theorem libIMD_boxes :
    (libIMD hw vw det fps th word w old).boxes = ⟨old, [], []⟩ ∧
        ((libIMD hw vw det fps th word w old).k = 0 ∨
          (libIMD hw vw det fps th word w old).watch.gbIMD_Update ≠ 0) ∨
      (libIMD hw vw det fps th word w old).boxes = (Imd.scan hw vw word).boxes hw vw det old := by
  unfold libIMD
  dsimp only
  split
  · rename_i stops
    exact .inl ⟨rfl, stops⟩
  · exact .inr rfl

end run

/-- What a call makes of a bitmap that leaves a label for each set cell, and which entries it uses with
any bitmap. -/
theorem motion_labels (one : 0 < hw) (le : hw ≤ 128) (pos : 0 < vw) (fps : Nat) (th : ImdTh) (w : ImdWatch)
    (old : Nat → BRect) :
    let r := libIMD hw vw det fps th word w old
    let label m := r.imd.equ (r.imd.img m)
    (Imd.Roomy hw vw word →
      Components hw vw word label r.k ∧
        (vw ≤ 254 → r.watch.gbIMD_Update = 0 → ∀ m < min r.k det,
          IsBox (LabelCells hw vw word label (m + 1)) (r.boxes.bRectIMD m))) ∧
      (∀ x ∈ r.imd.used ++ r.boxes.used, x < imdLutSize) ∧ ∀ x ∈ r.boxes.usedBox, x < det := by
  intro r label
  have safe : Imd.Safe hw (vw * hw) (Imd.scan hw vw word) := Imd.scan_safe one le pos
  have label_eq : label = (Imd.scan hw vw word).label := by
    unfold label
    rw [libIMD_imd]
    rfl
  have uses : (∀ x ∈ r.boxes.used, x < imdLutSize) ∧ ∀ x ∈ r.boxes.usedBox, x < det := by
    rcases libIMD_boxes hw vw det word fps th w old with ⟨stops, -⟩ | visits
    · rw [stops]
      exact ⟨fun x hx => absurd hx List.not_mem_nil, fun x hx => absurd hx List.not_mem_nil⟩
    · rw [visits]
      exact ImdBoxes.used_visits safe old _
  refine ⟨fun room => ?_, fun x hx => ?_, uses.2⟩
  · rw [label_eq, libIMD_k]
    have components := scan_components one le pos room
    refine ⟨components, fun tall quiet m hm => ?_⟩
    have visits : r.boxes = (Imd.scan hw vw word).boxes hw vw det old := by
      rcases libIMD_boxes hw vw det word fps th w old with ⟨-, none_ | update⟩ | visits
      · rw [libIMD_k] at none_
        omega
      · exact absurd quiet update
      · exact visits
    have boxed := ImdBoxes.boxed_visits safe le tall old (ImdBoxes.cells hw vw) (fun c hc => mem_cells.1 hc) hm
    rw [inBox_cells one le pos room] at boxed
    rw [visits]
    refine boxed.isBox ?_ fun c hc => ⟨hc.1.1, hc.1.2.1⟩
    obtain ⟨a, ha⟩ := components.used (m + 1) (Nat.succ_pos m) (by omega)
    exact ⟨a.1, a.2, ha⟩
  · rcases List.mem_append.1 hx with hx | hx
    · rw [libIMD_imd] at hx
      exact compacted_used safe x hx
    · exact uses.1 x hx

section examples

def someTh : ImdTh := ⟨8, 80, -40, 60, -30, 0⟩

/-- A first call. -/
def firstRun (hw vw : Nat) (th : ImdTh) (word : Nat → Nat → BitVec 32) : ImdRun :=
  libIMD hw vw 50 10 th word ⟨0, 0, 0⟩ fun _ => ⟨0, 0, 0, 0⟩

/-- Two cells of the only line. -/
def twoCells (_ k : Nat) : BitVec 32 := if k = 0 then 0xa0000000#32 else 0#32

theorem motion_labels_two :
    IsBox (LabelCells 3 1 twoCells
      (fun m => (firstRun 3 1 someTh twoCells).imd.equ ((firstRun 3 1 someTh twoCells).imd.img m)) 1)
      ((firstRun 3 1 someTh twoCells).boxes.bRectIMD 0) ∧
    IsBox (LabelCells 3 1 twoCells
      (fun m => (firstRun 3 1 someTh twoCells).imd.equ ((firstRun 3 1 someTh twoCells).imd.img m)) 2)
      ((firstRun 3 1 someTh twoCells).boxes.bRectIMD 1) :=
  have room : Imd.Roomy 3 1 twoCells := fun i j pos hi => absurd (Nat.lt_one_iff.1 hi) pos.ne'
  have count : (firstRun 3 1 someTh twoCells).k = 2 := by decide +kernel
  have box :=
    (motion_labels (by decide) (by decide) (by decide) 10 someTh ⟨0, 0, 0⟩ fun _ => ⟨0, 0, 0, 0⟩).1 room
  have all := box.2 (by decide) (by decide +kernel)
  ⟨all 0 (lt_min (count ▸ by decide) (by decide)), all 1 (lt_min (count ▸ by decide) (by decide))⟩

/-- Every other cell of a column, and the last two. -/
def fullColumn (i k : Nat) : BitVec 32 := if (i % 2 = 0 ∨ i = 507) ∧ k = 0 then 0x80000000#32 else 0#32

/-- One cell, in the second line. -/
def secondLine (i k : Nat) : BitVec 32 := if i = 1 ∧ k = 0 then 0x80000000#32 else 0#32

/-- With the last label given out a cell is lost; a change of the brightness keeps the old boxes; and a
byte does not hold one more than the height of 255 lines. -/
theorem labelling_limits :
    ((firstRun 1 508 someTh fullColumn).imd.iLabelValue - 1 = 254 ∧ imdCell fullColumn 506 0 = true ∧
        imdCell fullColumn 507 0 = true ∧
        (firstRun 1 508 someTh fullColumn).imd.equ ((firstRun 1 508 someTh fullColumn).imd.img 506) ≠
          (firstRun 1 508 someTh fullColumn).imd.equ ((firstRun 1 508 someTh fullColumn).imd.img 507)) ∧
      ((firstRun 1 2 { someTh with giErr1d := 100 } secondLine).k = 1 ∧ imdCell secondLine 1 0 = true ∧
        ((firstRun 1 2 { someTh with giErr1d := 100 } secondLine).boxes.bRectIMD 0).ey = 0) ∧
      (firstRun 1 255 someTh secondLine).k = 1 ∧ imdCell secondLine 0 0 = false ∧
        ((firstRun 1 255 someTh secondLine).boxes.bRectIMD 0).sy = 0 := by
  decide +kernel

end examples

end call

end En675.Isp
