import Mathlib.Order.Bounds.Basic
import En675.Lib.Components

/-! Elements gathered into groups by comparing them two at a time.  A group is known by its least member and by
the least upper bound of its members; two groups whose bounds touch become one.  The order of the comparisons
is a parameter. -/

universe u

namespace Lib

section place

variable {β : Type u} (P : Nat → Prop) [DecidablePred P] (v a : Nat → β)

def placeRound (s : (Nat → β) × Nat) (k : Nat) : (Nat → β) × Nat :=
  if P k then (Function.update s.1 s.2 (v k), s.2 + 1) else s

/-- The values `v` of those of the first `n` that `P` keeps, laid down in a row. -/
def place (n : Nat) : (Nat → β) × Nat := (List.range n).foldl (placeRound P v) (a, 0)

theorem place_succ (n : Nat) : place P v a (n + 1) = placeRound P v (place P v a n) n := by
  rw [place, List.range_succ, List.foldl_append]
  rfl

@[simp] theorem place_snd (n : Nat) : (place P v a n).2 = Nat.count P n := by
  induction n with
  | zero => rfl
  | succ n ih =>
    rw [place_succ, placeRound, Nat.count_succ]
    split
    · rw [ih]
    · rw [ih, Nat.add_zero]

theorem place_beyond (n : Nat) (h : Nat.count P n ≤ m) : (place P v a n).1 m = a m := by
  induction n with
  | zero => rfl
  | succ n ih =>
    rw [Nat.count_succ] at h
    rw [place_succ, placeRound]
    split
    · rename_i keeps
      rw [if_pos keeps] at h
      have other : m ≠ (place P v a n).2 := by
        rw [place_snd]
        exact (Nat.lt_of_succ_le h).ne'
      exact (Function.update_of_ne other _ _).trans (ih (Nat.le_of_succ_le h))
    · exact ih ((Nat.le_add_right _ _).trans h)

theorem place_count (n : Nat) (hk : k < n) (keeps : P k) : (place P v a n).1 (Nat.count P k) = v k := by
  induction n with
  | zero => exact absurd hk (Nat.not_lt_zero k)
  | succ n ih =>
    rw [place_succ, placeRound]
    rcases Nat.lt_succ_iff_lt_or_eq.1 hk with below | rfl
    · have earlier : Nat.count P k < Nat.count P n := Nat.count_strict_mono keeps below
      split
      · have other : Nat.count P k ≠ (place P v a n).2 := by
          rw [place_snd]
          exact earlier.ne
        exact (Function.update_of_ne other _ _).trans (ih below)
      · exact ih below
    · rw [if_pos keeps, place_snd]
      exact Function.update_self _ _ _

/-- Where the row is in order, it is the list of the values that are kept. -/
theorem map_range_count (f : Nat → β) (n : Nat) (h : ∀ k < n, P k → f (Nat.count P k) = v k) :
    (List.range (Nat.count P n)).map f = ((List.range n).filter fun k => P k).map v := by
  induction n with
  | zero => rfl
  | succ n ih =>
    have front := ih fun k hk => h k (hk.trans (Nat.lt_succ_self n))
    rw [List.range_succ, List.filter_append, List.map_append, ← front, Nat.count_succ, List.filter_singleton]
    split
    · rename_i keeps
      rw [List.range_succ, List.map_append, List.map_singleton, h n (Nat.lt_succ_self n) keeps, decide_eq_true keeps]
      rfl
    · rename_i drops
      rw [decide_eq_false drops]
      exact (List.append_nil _).symm

end place

section squeeze

variable {β : Type u} (P : Nat → Prop) [DecidablePred P] (a : Nat → β)

def squeezeRound (s : (Nat → β) × Nat) (k : Nat) : (Nat → β) × Nat :=
  if P k then (Function.update s.1 s.2 (s.1 k), s.2 + 1) else s

/-- The entries of the first `n` that `P` keeps are moved down, in place. -/
def squeeze (n : Nat) : (Nat → β) × Nat := (List.range n).foldl (squeezeRound P) (a, 0)

theorem squeeze_succ (n : Nat) : squeeze P a (n + 1) = squeezeRound P (squeeze P a n) n := by
  rw [squeeze, List.range_succ, List.foldl_append]
  rfl

/-- An entry is still there when its turn comes. -/
theorem squeeze_eq (n : Nat) : squeeze P a n = place P a a n := by
  induction n with
  | zero => rfl
  | succ n ih =>
    rw [squeeze_succ, ih, place_succ, squeezeRound, placeRound, place_beyond P a a n (Nat.count_le P)]

@[simp] theorem squeeze_snd (n : Nat) : (squeeze P a n).2 = Nat.count P n := by rw [squeeze_eq, place_snd]

theorem squeeze_count (n : Nat) (hk : k < n) (keeps : P k) : (squeeze P a n).1 (Nat.count P k) = a k := by
  rw [squeeze_eq]
  exact place_count P a a n hk keeps

theorem squeeze_all (n : Nat) (all : ∀ k < n, P k) : squeeze P a n = (a, n) := by
  induction n with
  | zero => rfl
  | succ n ih =>
    rw [squeeze_eq, place_succ, ← squeeze_eq, ih fun k hk => all k (hk.trans (Nat.lt_succ_self n)), placeRound,
      if_pos (all n (Nat.lt_succ_self n)), Function.update_eq_self]

theorem exists_of_squeeze {e : Nat → Nat} {a : Nat → β} (h : m < (squeeze (IsRoot e) a n).2) :
    ∃ x < n, rank e x = m := by
  rw [squeeze_snd] at h
  obtain ⟨x, hx, -, same⟩ := exists_rank h
  exact ⟨x, hx, same⟩

end squeeze

structure Gather (β : Type u) where
  rep : Nat → Nat
  box : Nat → β

namespace Gather

section

variable {β : Type u} {g : Gather β}

/-- The bound of the group of `x`. -/
def hull (g : Gather β) (x : Nat) : β := g.box (g.rep x)

/-- `x` is in one of the groups of `i` and `j`. -/
def Either (g : Gather β) (i j x : Nat) : Prop := g.rep x = g.rep i ∨ g.rep x = g.rep j

instance (g : Gather β) (i j x : Nat) : Decidable (g.Either i j x) := inferInstanceAs (Decidable (_ ∨ _))

theorem Either.congr (same : g.rep x = g.rep y) : g.Either i j x ↔ g.Either i j y := by
  rw [Either, Either, same]

end

section compare

variable {β : Type u} [SemilatticeSup β] {touch : β → β → Prop} [DecidableRel touch] {n i j : Nat}
  {rt : Nat → β} {g : Gather β}

def Joins (touch : β → β → Prop) (g : Gather β) (i j : Nat) : Prop :=
  g.rep i ≠ g.rep j ∧ touch (g.hull i) (g.hull j)

instance : Decidable (g.Joins touch i j) := inferInstanceAs (Decidable (_ ∧ _))

/-- The group of `hi` goes to that of `lo`. -/
def join (n : Nat) (g : Gather β) (hi lo : Nat) : Gather β :=
  ⟨relabel n hi lo g.rep, Function.update g.box lo (g.box lo ⊔ g.box hi)⟩

def compare (touch : β → β → Prop) [DecidableRel touch] (n : Nat) (g : Gather β) (i j : Nat) : Gather β :=
  if g.Joins touch i j then g.join n (Nat.max (g.rep i) (g.rep j)) (Nat.min (g.rep i) (g.rep j)) else g

theorem compare_of_not (h : ¬g.Joins touch i j) : g.compare touch n i j = g := if_neg h

/-- The first `n` elements `rt` are in groups. -/
structure Grouped (n : Nat) (rt : Nat → β) (g : Gather β) : Prop where
  le : ∀ x < n, g.rep x ≤ x
  idem : ∀ x < n, g.rep (g.rep x) = g.rep x
  lub : ∀ x < n, IsLUB (Set.image rt {k | k < n ∧ g.rep k = g.rep x}) (g.hull x)

theorem grouped_single (h : ∀ x < n, g.rep x = x) : Grouped n g.box g where
  le x hx := (h x hx).le
  idem x hx := by rw [h x hx, h x hx]
  lub x hx := by
    have only : {k | k < n ∧ g.rep k = g.rep x} = {x} := by
      ext k
      constructor
      · rintro ⟨hk, same⟩
        exact (h k hk).symm.trans (same.trans (h x hx))
      · rintro rfl
        exact ⟨hx, rfl⟩
    rw [only, Set.image_singleton, hull, h x hx]
    exact isLUB_singleton

theorem Grouped.rep_lt (h : Grouped n rt g) (hx : x < n) : g.rep x < n := (h.le x hx).trans_lt hx

theorem compare_rep (joins : g.Joins touch i j) (hx : x < n) :
    (g.compare touch n i j).rep x =
      if g.rep x = Nat.max (g.rep i) (g.rep j) then Nat.min (g.rep i) (g.rep j) else g.rep x := by
  rw [compare, if_pos joins]
  exact if_congr (and_iff_right hx) rfl rfl

/-- Just the two groups become one. -/
theorem compare_same (joins : g.Joins touch i j) (hx : x < n) (hy : y < n) :
    (g.compare touch n i j).rep x = (g.compare touch n i j).rep y ↔
      g.rep x = g.rep y ∨ g.Either i j x ∧ g.Either i j y := by
  rw [compare_rep joins hx, compare_rep joins hy]
  have apart := joins.1
  unfold Either
  change (ite (_ = max _ _) (min _ _) _ = ite (_ = max _ _) (min _ _) _) ↔ _
  grind

theorem compare_hull (joins : g.Joins touch i j) (hx : x < n) :
    (g.compare touch n i j).hull x = if g.Either i j x then g.hull i ⊔ g.hull j else g.hull x := by
  have apart := joins.1
  rw [hull, compare_rep joins hx, compare, if_pos joins, join]
  dsimp only
  rcases Nat.lt_or_gt_of_ne apart with lt | lt
  · have least : Nat.min (g.rep i) (g.rep j) = g.rep i := Nat.min_eq_left lt.le
    have most : Nat.max (g.rep i) (g.rep j) = g.rep j := Nat.max_eq_right lt.le
    rw [least, most]
    by_cases at_j : g.rep x = g.rep j
    · rw [if_pos at_j, Function.update_self, if_pos (.inr at_j)]
      rfl
    · rw [if_neg at_j]
      by_cases at_i : g.rep x = g.rep i
      · rw [at_i, Function.update_self, if_pos (.inl at_i)]
        rfl
      · rw [Function.update_of_ne at_i, if_neg (show ¬g.Either i j x from not_or.2 ⟨at_i, at_j⟩)]
        rfl
  · have least : Nat.min (g.rep i) (g.rep j) = g.rep j := Nat.min_eq_right lt.le
    have most : Nat.max (g.rep i) (g.rep j) = g.rep i := Nat.max_eq_left lt.le
    rw [least, most]
    by_cases at_i : g.rep x = g.rep i
    · rw [if_pos at_i, Function.update_self, if_pos (.inl at_i), sup_comm]
      rfl
    · rw [if_neg at_i]
      by_cases at_j : g.rep x = g.rep j
      · rw [at_j, Function.update_self, if_pos (.inr at_j), sup_comm]
        rfl
      · rw [Function.update_of_ne at_j, if_neg (show ¬g.Either i j x from not_or.2 ⟨at_i, at_j⟩)]
        rfl

theorem Grouped.compare (h : Grouped n rt g) (hi : i < n) (hj : j < n) : Grouped n rt (g.compare touch n i j) := by
  by_cases joins : g.Joins touch i j
  case neg => rwa [compare_of_not joins]
  have least : (Nat.min (g.rep i) (g.rep j) = g.rep i ∨ Nat.min (g.rep i) (g.rep j) = g.rep j) ∧
      Nat.min (g.rep i) (g.rep j) < Nat.max (g.rep i) (g.rep j) := by
    have apart := joins.1
    change (min _ _ = _ ∨ min _ _ = _) ∧ min _ _ < max _ _
    omega
  have root : g.rep (Nat.min (g.rep i) (g.rep j)) = Nat.min (g.rep i) (g.rep j) := by
    rcases least.1 with at_ | at_
    · rw [at_, h.idem i hi]
    · rw [at_, h.idem j hj]
  have low : Nat.min (g.rep i) (g.rep j) < n := (Nat.min_le_left _ _).trans_lt (h.rep_lt hi)
  constructor
  case le =>
    intro x hx
    rw [compare_rep joins hx]
    split
    · rename_i most
      exact least.2.le.trans (most.symm.le.trans (h.le x hx))
    · exact h.le x hx
  case idem =>
    intro x hx
    rw [compare_rep joins hx]
    split
    · rw [compare_rep joins low, root, if_neg least.2.ne]
    · rename_i other
      rw [compare_rep joins (h.rep_lt hx), h.idem x hx, if_neg other]
  case lub =>
    intro x hx
    rw [compare_hull joins hx]
    by_cases at_ : g.Either i j x
    · have both : {k | k < n ∧ (g.compare touch n i j).rep k = (g.compare touch n i j).rep x} =
          {k | k < n ∧ g.rep k = g.rep i} ∪ {k | k < n ∧ g.rep k = g.rep j} := by
        ext k
        change (k < n ∧ _) ↔ (k < n ∧ _) ∨ (k < n ∧ _)
        rw [← and_or_left]
        refine and_congr_right fun hk => ?_
        rw [compare_same joins hk hx]
        constructor
        · rintro (same | ⟨here, -⟩)
          · exact (Either.congr same).2 at_
          · exact here
        · exact fun here => .inr ⟨here, at_⟩
      rw [if_pos at_, both, Set.image_union]
      exact (h.lub i hi).union (h.lub j hj)
    · have old : {k | k < n ∧ (g.compare touch n i j).rep k = (g.compare touch n i j).rep x} =
          {k | k < n ∧ g.rep k = g.rep x} := by
        ext k
        refine and_congr_right fun hk => ?_
        rw [compare_same joins hk hx]
        exact or_iff_left fun both => at_ both.2
      rw [if_neg at_, old]
      exact h.lub x hx

end compare

section run

variable {β : Type u} [SemilatticeSup β] (touch : β → β → Prop) [DecidableRel touch] (n : Nat) (p : Nat → Nat × Nat)
  (g : Gather β)

/-- The first `t` comparisons of the schedule `p`. -/
def after : Nat → Gather β
  | 0 => g
  | t + 1 => (after t).compare touch n (p t).1 (p t).2

/-- The comparison joins. -/
def JoinsAt (t : Nat) : Prop := (g.after touch n p t).Joins touch (p t).1 (p t).2

/-- Comparison `t` makes a group that touches another one, and that none of the others up to `last` joins
again. -/
structure Strands (last t : Nat) : Prop where
  joins : g.JoinsAt touch n p t
  beside : ∃ y < n, (g.after touch n p (t + 1)).rep y ≠ (g.after touch n p (t + 1)).rep (p t).1 ∧
    touch ((g.after touch n p (t + 1)).hull (p t).1) ((g.after touch n p (t + 1)).hull y)
  done : ∀ u, t < u → u < last → g.JoinsAt touch n p u → ¬(g.after touch n p u).Either (p u).1 (p u).2 (p t).1

variable {touch n p g} {last t x y : Nat}

/-- One comparison takes nothing from a bound. -/
theorem step_grows (touch : β → β → Prop) [DecidableRel touch] (p : Nat → Nat × Nat) (g : Gather β) (t : Nat)
    (hx : x < n) : (g.after touch n p t).hull x ≤ (g.after touch n p (t + 1)).hull x := by
  rw [after]
  by_cases joins : (g.after touch n p t).Joins touch (p t).1 (p t).2
  · rw [compare_hull joins hx]
    split
    · rename_i at_
      rcases at_ with at_ | at_
      · exact (congrArg (g.after touch n p t).box at_).le.trans le_sup_left
      · exact (congrArg (g.after touch n p t).box at_).le.trans le_sup_right
    · exact le_rfl
  · rw [compare_of_not joins]

/-- A comparison that leaves the group of `x` alone. -/
theorem step_still (hx : x < n)
    (alone : g.JoinsAt touch n p t → ¬(g.after touch n p t).Either (p t).1 (p t).2 x) :
    (g.after touch n p (t + 1)).hull x = (g.after touch n p t).hull x ∧
      ∀ y < n, (g.after touch n p (t + 1)).rep y = (g.after touch n p (t + 1)).rep x ↔
        (g.after touch n p t).rep y = (g.after touch n p t).rep x := by
  rw [after]
  by_cases joins : (g.after touch n p t).Joins touch (p t).1 (p t).2
  · refine ⟨?_, fun y hy => ?_⟩
    · rw [compare_hull joins hx, if_neg (alone joins)]
    · rw [compare_same joins hy hx]
      exact or_iff_left fun both => alone joins both.2
  · rw [compare_of_not joins]
    exact ⟨rfl, fun _ _ => Iff.rfl⟩

theorem grouped_after {rt : Nat → β} (start : Grouped n rt g) (within : ∀ u < last, (p u).1 < n ∧ (p u).2 < n) :
    ∀ t ≤ last, Grouped n rt (g.after touch n p t)
  | 0, _ => start
  | t + 1, h => (grouped_after start within t (Nat.le_of_succ_le h)).compare (within t h).1 (within t h).2

/-- A group that is not joined again goes on touching what it touches. -/
theorem touch_stays (mono : ∀ a b c, b ≤ c → touch a b → touch a c) (hx : x < n) (hy : y < n) (le : t ≤ last)
    (alone : ∀ u, t ≤ u → u < last → g.JoinsAt touch n p u → ¬(g.after touch n p u).Either (p u).1 (p u).2 x)
    (h : (g.after touch n p t).Joins touch x y) : (g.after touch n p last).Joins touch x y := by
  induction last, le using Nat.le_induction with
  | base => exact h
  | succ last le ih =>
    obtain ⟨apart, meets⟩ := ih fun u first below => alone u first (below.trans (Nat.lt_succ_self last))
    obtain ⟨same, members⟩ := step_still hx (alone last le (Nat.lt_succ_self last))
    refine ⟨fun one => apart ((members y hy).1 one.symm).symm, ?_⟩
    rw [same]
    exact mono _ _ _ (step_grows touch p g last hy) meets

theorem strands_new (hp : (p t).1 < n) (hx : x < n) (hy : y < n) (joins : g.JoinsAt touch n p t)
    (at_ : (g.after touch n p t).Either (p t).1 (p t).2 x) (h : (g.after touch n p (t + 1)).Joins touch x y) :
    Strands touch n p g (t + 1) t ∧ (g.after touch n p (t + 1)).rep (p t).1 = (g.after touch n p (t + 1)).rep x := by
  have same : (g.after touch n p (t + 1)).rep (p t).1 = (g.after touch n p (t + 1)).rep x :=
    (compare_same joins hp hx).2 (.inr ⟨.inl rfl, at_⟩)
  have hull_eq : (g.after touch n p (t + 1)).hull (p t).1 = (g.after touch n p (t + 1)).hull x :=
    congrArg (g.after touch n p (t + 1)).box same
  refine ⟨⟨joins, ⟨y, hy, ?_, ?_⟩, fun u later first => absurd later (by omega)⟩, same⟩
  · rw [same]
    exact h.1.symm
  · rw [hull_eq]
    exact h.2

/-- Where two groups come to touch behind `t`, the last comparison that joined one of them left them so. -/
theorem exists_last (symm : ∀ a b, touch a b → touch b a) (hx : x < n) (hy : y < n) (le : t ≤ last)
    (within : ∀ u, t ≤ u → u < last → (p u).1 < n) (first : ¬(g.after touch n p t).Joins touch x y)
    (h : (g.after touch n p last).Joins touch x y) :
    ∃ u, t ≤ u ∧ u < last ∧ Strands touch n p g last u ∧
      ((g.after touch n p last).rep (p u).1 = (g.after touch n p last).rep x ∨
        (g.after touch n p last).rep (p u).1 = (g.after touch n p last).rep y) := by
  induction last, le using Nat.le_induction with
  | base => exact absurd h first
  | succ last le ih =>
    have hp := within last le (Nat.lt_succ_self last)
    by_cases of_x : g.JoinsAt touch n p last ∧ (g.after touch n p last).Either (p last).1 (p last).2 x
    · obtain ⟨strands, same⟩ := strands_new hp hx hy of_x.1 of_x.2 h
      exact ⟨last, le, Nat.lt_succ_self last, strands, .inl same⟩
    by_cases of_y : g.JoinsAt touch n p last ∧ (g.after touch n p last).Either (p last).1 (p last).2 y
    · obtain ⟨strands, same⟩ := strands_new hp hy hx of_y.1 of_y.2 ⟨h.1.symm, symm _ _ h.2⟩
      exact ⟨last, le, Nat.lt_succ_self last, strands, .inr same⟩
    -- neither group changes here, so the last join of one of them is earlier
    have alone_x := not_and.1 of_x
    have alone_y := not_and.1 of_y
    obtain ⟨hull_x, members_x⟩ := step_still hx alone_x
    obtain ⟨hull_y, members_y⟩ := step_still hy alone_y
    have before : (g.after touch n p last).Joins touch x y := by
      refine ⟨fun one => h.1 ((members_x y hy).2 one.symm).symm, ?_⟩
      rw [← hull_x, ← hull_y]
      exact h.2
    obtain ⟨u, from_, below, strands, one⟩ :=
      ih (fun u from_ below => within u from_ (below.trans (Nat.lt_succ_self last))) before
    have hu := within u from_ (below.trans (Nat.lt_succ_self last))
    refine ⟨u, from_, below.trans (Nat.lt_succ_self last), ⟨strands.joins, strands.beside, fun v later within_ => ?_⟩, ?_⟩
    · rcases Nat.lt_succ_iff_lt_or_eq.1 within_ with earlier | rfl
      · exact strands.done v later earlier
      · rcases one with one | one
        · exact fun joins at_ => alone_x joins ((Either.congr one).1 at_)
        · exact fun joins at_ => alone_y joins ((Either.congr one).1 at_)
    · exact one.imp (members_x _ hu).2 (members_y _ hu).2

/-- Where every two elements are compared, two groups touch at the end just when a join left one of them
touching another for good. -/
theorem exists_touch_iff (symm : ∀ a b, touch a b → touch b a) (mono : ∀ a b c, b ≤ c → touch a b → touch a c)
    (within : ∀ u < last, (p u).1 < n ∧ (p u).2 < n) (every : ∀ x < n, ∀ y < n, x ≠ y → ∃ u < last, p u = (x, y)) :
    (∃ x < n, ∃ y < n, (g.after touch n p last).Joins touch x y) ↔ ∃ t < last, Strands touch n p g last t := by
  constructor
  · rintro ⟨x, hx, y, hy, joins⟩
    obtain ⟨u, below, at_⟩ := every x hx y hy fun same => joins.1 (same ▸ rfl)
    have behind : ¬(g.after touch n p (u + 1)).Joins touch x y := by
      rw [after, at_]
      by_cases now : (g.after touch n p u).Joins touch x y
      · exact fun later => later.1 ((compare_same now hx hy).2 (.inr ⟨.inl rfl, .inr rfl⟩))
      · rwa [compare_of_not now]
    obtain ⟨t, -, t_below, strands, -⟩ :=
      exists_last symm hx hy (Nat.succ_le_of_lt below) (fun v _ hv => (within v hv).1) behind joins
    exact ⟨t, t_below, strands⟩
  · rintro ⟨t, below, joins, ⟨y, hy, apart, meets⟩, done⟩
    have hx := (within t below).1
    refine ⟨(p t).1, hx, y, hy, touch_stays mono hx hy (Nat.succ_le_of_lt below) ?_ ⟨apart.symm, meets⟩⟩
    exact fun u later within_ => done u later within_

/-- What is left touching is compared with the group no more. -/
theorem Strands.passed (symm : ∀ a b, touch a b → touch b a) (mono : ∀ a b c, b ≤ c → touch a b → touch a c)
    (within : ∀ u < last, (p u).1 < n ∧ (p u).2 < n) (h : Strands touch n p g last t) (ht : t < last)
    (joins : (g.after touch n p (t + 1)).Joins touch (p t).1 y) (hx : x < n) (hy : y < n)
    (same : (g.after touch n p (t + 1)).rep x = (g.after touch n p (t + 1)).rep (p t).1) (later : t < u)
    (below : u < last) : p u ≠ (x, y) ∧ p u ≠ (y, x) := by
  have hp := (within t ht).1
  have alone (v : Nat) (from_ : t + 1 ≤ v) (to_ : v < u) := h.done v from_ (to_.trans below)
  have still : (g.after touch n p u).Joins touch (p t).1 y := touch_stays mono hp hy later alone joins
  have member : (g.after touch n p u).rep x = (g.after touch n p u).rep (p t).1 := by
    clear still
    induction u, later using Nat.le_induction with
    | base => exact same
    | succ u later ih =>
      have inner := alone u later (Nat.lt_succ_self u)
      exact ((step_still hp inner).2 x hx).2
        (ih ((Nat.lt_succ_self u).trans below) fun v from_ to_ => alone v from_ (to_.trans (Nat.lt_succ_self u)))
  have now : (g.after touch n p u).Joins touch x y := by
    refine ⟨fun one => still.1 (member.symm.trans one), ?_⟩
    rw [hull, member]
    exact still.2
  constructor
  · intro at_
    refine h.done u later below ?_ ?_
    · rw [JoinsAt, at_]
      exact now
    · rw [at_]
      exact .inl member.symm
  · intro at_
    refine h.done u later below ?_ ?_
    · rw [JoinsAt, at_]
      exact ⟨now.1.symm, symm _ _ now.2⟩
    · rw [at_]
      exact .inr member.symm

/-- Where nothing touches, nothing is joined. -/
theorem after_of_apart (within : ∀ u < last, (p u).1 < n ∧ (p u).2 < n)
    (apart : ∀ x < n, ∀ y < n, ¬g.Joins touch x y) : ∀ t ≤ last, g.after touch n p t = g
  | 0, _ => rfl
  | t + 1, h => by
    have below := within t h
    rw [after, after_of_apart within apart t (Nat.le_of_succ_le h),
      compare_of_not (apart _ below.1 _ below.2)]

end run

section bounds

variable {β : Type u} [SemilatticeSup β] {n : Nat} {rt : Nat → β} {g : Gather β}

/-- The first `c` of `out` are the bounds of groups, which `group` numbers. -/
structure Bounds (n : Nat) (rt out : Nat → β) (c : Nat) (group : Nat → Nat) : Prop where
  count : c ≤ n
  into : ∀ k < n, group k < c
  onto : ∀ m < c, ∃ k < n, group k = m
  lub : ∀ m < c, IsLUB (Set.image rt {k | k < n ∧ group k = m}) (out m)

namespace Grouped

variable (h : Grouped n rt g)

include h

theorem rank_eq_iff (hx : x < n) (hy : y < n) : rank g.rep x = rank g.rep y ↔ g.rep x = g.rep y :=
  ⟨fun same => Nat.count_injective (p := IsRoot g.rep) (h.idem x hx) (h.idem y hy) same,
    fun same => by rw [rank, rank, same]⟩

theorem squeeze_rank (hx : x < n) : (squeeze (IsRoot g.rep) g.box n).1 (rank g.rep x) = g.hull x :=
  squeeze_count (IsRoot g.rep) g.box n (h.rep_lt hx) (h.idem x hx)

theorem rank_lt (hx : x < n) : rank g.rep x < (squeeze (IsRoot g.rep) g.box n).2 := by
  rw [squeeze_snd]
  exact Nat.count_strict_mono (p := IsRoot g.rep) (h.idem x hx) (h.rep_lt hx)

theorem bounds :
    Bounds n rt (squeeze (IsRoot g.rep) g.box n).1 (squeeze (IsRoot g.rep) g.box n).2 (rank g.rep) where
  count := by
    rw [squeeze_snd]
    exact Nat.count_le _
  into k hk := h.rank_lt hk
  onto m hm := exists_of_squeeze hm
  lub m hm := by
    obtain ⟨x, hx, rfl⟩ := exists_of_squeeze hm
    have members : {k | k < n ∧ rank g.rep k = rank g.rep x} = {k | k < n ∧ g.rep k = g.rep x} :=
      Set.ext fun k => and_congr_right fun hk => h.rank_eq_iff hk hx
    rw [members, h.squeeze_rank hx]
    exact h.lub x hx

end Grouped

end bounds

end Gather

end Lib
