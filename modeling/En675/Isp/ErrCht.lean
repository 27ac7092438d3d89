import En675.Lib.Recent
import En675.Isp.UsrPar

/-! The window of error signs (`ErrChtInit`, `ErrChtChg`, `ErrChtSet`, `ErrChtGet`), where a `char` is unsigned. -/

namespace En675.Isp

open Lib

/-- What a `char` keeps of a number. -/
def toChar (n : Int) : Nat := (n % 256).toNat

/-- The globals, the `static` of `ErrChtSet` and the two parameters. -/
structure ErrCht where
  gcErrSign : Nat → Nat
  gbErrSingPosIn : Nat
  gcErrSignAccu : Nat
  bErrChtSiz : Nat
  errChtMax : Nat
  errChtMin : Nat

namespace ErrCht

variable (s : ErrCht)

def init (acInit : Nat) : ErrCht :=
  { s with
    gcErrSign := fun _ => acInit
    gbErrSingPosIn := 0
    gcErrSignAccu := toChar (acInit * s.errChtMax) }

def bErrSignPosOut : Nat :=
  (if s.gbErrSingPosIn < s.errChtMax then errChtSiz + s.gbErrSingPosIn else s.gbErrSingPosIn) - s.errChtMax

def chg : ErrCht :=
  { s with
    gcErrSignAccu := (List.range s.errChtMax).foldl (fun accu j =>
      let bErrSignPos := s.bErrSignPosOut + j
      let bErrSignPos := if errChtSiz ≤ bErrSignPos then bErrSignPos - errChtSiz else bErrSignPos
      toChar (accu + s.gcErrSign bErrSignPos)) 0 }

/-- Without a result where it divides by zero. -/
def get (aiErr : Int) : Option Int :=
  -- the exclusive or is zero where both are the same
  if aiErr >>> (31 : Nat) ≠ (s.gcErrSignAccu >>> 7 : Nat) then some 0
  -- `ABS` of a `char` that is never negative
  else if s.gcErrSignAccu < s.errChtMin then some 0
  else if (s.errChtMax - s.errChtMin + 1 : Int) = 0 then none
  else some (aiErr.tdiv (s.errChtMax - s.errChtMin + 1))

/-- The sign of an error, as it is put to a `char`. -/
def sign (aiErr aiMargin : Int) : Int := if aiErr < -aiMargin then -1 else if aiMargin < aiErr then 1 else 0

/-- `ErrChtSet` before it adds the sign. -/
def recount : ErrCht :=
  if s.bErrChtSiz ≠ s.errChtMax then chg { s with bErrChtSiz := s.errChtMax } else s

/-- The rest of it. -/
def add (cErrSignNew : Nat) : ErrCht :=
  { s with
    gcErrSignAccu := toChar (s.gcErrSignAccu + (cErrSignNew - s.gcErrSign s.bErrSignPosOut : Int))
    gcErrSign := Function.update s.gcErrSign s.gbErrSingPosIn cErrSignNew
    gbErrSingPosIn := if s.gbErrSingPosIn + 1 = errChtSiz then 0 else s.gbErrSingPosIn + 1 }

def set (aiErr aiMargin : Int) : ErrCht := s.recount.add (toChar (sign aiErr aiMargin))

end ErrCht

/-- The calls, and a change of the parameters. -/
inductive ErrOp
  | init (acInit : Int)
  | set (aiErr aiMargin : Int)
  | get (aiErr : Int)
  | par (errChtMax errChtMin : Nat)

def ErrOp.Valid : ErrOp → Prop
  | init c => c = -1 ∨ c = 0 ∨ c = 1
  | set aiErr aiMargin => -2 ^ 31 ≤ aiErr ∧ aiErr < 2 ^ 31 ∧ 0 ≤ aiMargin ∧ aiMargin < 2 ^ 31
  | get aiErr => -2 ^ 31 ≤ aiErr ∧ aiErr < 2 ^ 31
  | par siz cut => 1 ≤ siz ∧ siz ≤ errChtSiz ∧ 1 ≤ cut ∧ cut ≤ errChtSiz

/-- The program, with the signs that were recorded, the newest first, and what an `ErrChtInit` since the last
`ErrChtSet` has filled them with under which `ErrChtMax`. -/
structure Signs where
  cht : ErrCht
  signs : List Int
  filled : Option (Int × Nat)

namespace Signs

def start (siz cut : Nat) : Signs where
  cht := ⟨fun _ => 0, 0, 0, 0xff, siz, cut⟩
  signs := List.replicate errChtSiz 0
  filled := none

def step (w : Signs) : ErrOp → Signs
  | .init c =>
    { cht := w.cht.init (toChar c)
      signs := List.replicate errChtSiz c
      filled := some (c, w.cht.errChtMax) }
  | .set aiErr aiMargin =>
    { cht := w.cht.set aiErr aiMargin
      signs := ErrCht.sign aiErr aiMargin :: w.signs
      filled := none }
  | .get _ => w
  | .par siz cut => { w with cht := { w.cht with errChtMax := siz, errChtMin := cut } }

/-- The sum of the last `ErrChtMax` signs. -/
def sum (w : Signs) : Int := (w.signs.take w.cht.errChtMax).sum

/-- What is expected of a call. -/
def Holds (w : Signs) : ErrOp → Prop
  | .set aiErr aiMargin =>
    let t := w.step (.set aiErr aiMargin)
    (t.cht.gcErrSignAccu : Int) = t.sum ∧ -(t.cht.errChtMax : Int) ≤ t.cht.gcErrSignAccu ∧
      t.cht.gcErrSignAccu ≤ t.cht.errChtMax
  | .get aiErr =>
    ∃ r, w.cht.get aiErr = some r ∧
      (r ≠ 0 → (0 < (w.cht.gcErrSignAccu : Int) ∧ 0 < aiErr ∨ (w.cht.gcErrSignAccu : Int) < 0 ∧ aiErr < 0) ∧
        w.cht.errChtMin ≤ (w.cht.gcErrSignAccu : Int).natAbs)
  | _ => True

/-- The last `ErrChtInit` since an `ErrChtSet` has counted under another `ErrChtMax`, which was then put back. -/
def Stale (w : Signs) : Prop :=
  ∃ c siz, w.filled = some (c, siz) ∧ c ≠ 0 ∧ siz ≠ w.cht.errChtMax ∧ w.cht.bErrChtSiz = w.cht.errChtMax

/-- A call that does what is expected of it. -/
def Clear (w : Signs) : ErrOp → Prop
  | .set aiErr aiMargin =>
    ¬w.Stale ∧ 0 ≤ ((ErrCht.sign aiErr aiMargin :: w.signs).take w.cht.errChtMax).sum
  | .get aiErr =>
    ¬(0 ≤ aiErr ∧ w.cht.errChtMin = w.cht.errChtMax + 1 ∧ w.cht.errChtMin ≤ w.cht.gcErrSignAccu ∧
      w.cht.gcErrSignAccu < 128)
  | _ => True

end Signs

section char

variable {m n : Int}

theorem toChar_cast (n : Int) : (toChar n : Int) = n % 256 := Int.toNat_of_nonneg (Int.emod_nonneg n (by decide))

theorem toChar_congr (h : m % 256 = n % 256) : toChar m = toChar n := by
  unfold toChar
  rw [h]

theorem foldl_toChar (l : List Int) (n : Int) :
    (l.map toChar).foldl (fun (a c : Nat) => toChar (a + c)) (toChar n) = toChar (n + l.sum) := by
  induction l generalizing n with
  | nil => rw [List.sum_nil, Int.add_zero, List.map_nil, List.foldl_nil]
  | cons c l ih =>
    have one : toChar (toChar n + toChar c) = toChar (n + c) := by
      apply toChar_congr
      rw [toChar_cast, toChar_cast]
      omega
    rw [List.map_cons, List.foldl_cons, one, ih, List.sum_cons, Int.add_assoc]

end char

/-- A recorded sign. -/
def IsSign (c : Int) : Prop := -1 ≤ c ∧ c ≤ 1

theorem IsSign.cases {c : Int} (h : IsSign c) : c = -1 ∨ c = 0 ∨ c = 1 := by
  unfold IsSign at h
  omega

theorem sign_isSign (aiErr aiMargin : Int) : IsSign (ErrCht.sign aiErr aiMargin) := by
  unfold ErrCht.sign IsSign
  split
  · omega
  · split <;> omega

theorem sum_bounds {l : List Int} (h : ∀ c ∈ l, IsSign c) : -(l.length : Int) ≤ l.sum ∧ l.sum ≤ l.length := by
  induction l with
  | nil => decide
  | cons c l ih =>
    have first : IsSign c := h c List.mem_cons_self
    have rest := ih fun c hc => h c (List.mem_cons_of_mem _ hc)
    unfold IsSign at first
    rw [List.sum_cons, List.length_cons]
    omega

namespace Signs

variable {w : Signs}

/-- How far the count of the last `ErrChtInit` is off, where nothing counts again. -/
def off (w : Signs) : Int :=
  match w.filled with
  | some (c, siz) => if w.cht.bErrChtSiz = w.cht.errChtMax then c * siz - c * w.cht.errChtMax else 0
  | none => 0

/-- What the accumulated sign is before the window is counted again. -/
def Counted (w : Signs) : Prop :=
  match w.filled with
  | some (c, siz) =>
    w.signs = List.replicate errChtSiz c ∧ IsSign c ∧ siz ≤ errChtSiz ∧
      w.cht.gcErrSignAccu = toChar (c * siz)
  | none =>
    errChtSiz < w.cht.bErrChtSiz ∨ w.cht.gcErrSignAccu = toChar (w.signs.take w.cht.bErrChtSiz).sum

structure Inv (w : Signs) : Prop where
  ring : Recent errChtSiz w.cht.gcErrSign w.cht.gbErrSingPosIn (w.signs.map toChar)
  isSign : ∀ c ∈ w.signs, IsSign c
  siz : 1 ≤ w.cht.errChtMax ∧ w.cht.errChtMax ≤ errChtSiz
  cut : 1 ≤ w.cht.errChtMin
  counted : w.Counted

/-- The window counted from the ring. -/
theorem chg_accu (s : ErrCht) (signs : List Int) (le : s.errChtMax ≤ errChtSiz)
    (ring : Recent errChtSiz s.gcErrSign s.gbErrSingPosIn (signs.map toChar)) :
    s.chg.gcErrSignAccu = toChar (signs.take s.errChtMax).sum := by
  have window := ring.window le
  have zero : (0 : Nat) = toChar 0 := rfl
  have fold : s.chg.gcErrSignAccu =
      ((List.range s.errChtMax).map fun j =>
        s.gcErrSign (wrap errChtSiz (firstCell errChtSiz s.gbErrSingPosIn s.errChtMax + j))).foldl
          (fun (a c : Nat) => toChar (a + c)) (toChar 0) := by
    rw [List.foldl_map]
    rfl
  rw [fold, window, ← List.map_take, ← List.map_reverse, foldl_toChar, Int.zero_add, List.sum_reverse_int]

theorem recount_max (s : ErrCht) : s.recount.errChtMax = s.errChtMax := by
  unfold ErrCht.recount
  split <;> rfl

theorem recount_min (s : ErrCht) : s.recount.errChtMin = s.errChtMin := by
  unfold ErrCht.recount
  split <;> rfl

theorem recount_siz (s : ErrCht) : s.recount.bErrChtSiz = s.errChtMax := by
  unfold ErrCht.recount
  split
  · rfl
  · rename_i same
    exact not_not.1 same

/-- Before the sign is added, the accumulated sign is right but for what it is off. -/
theorem Inv.recount (i : w.Inv) : w.cht.recount.gcErrSignAccu = toChar (w.sum + w.off) := by
  have counted := i.counted
  unfold ErrCht.recount
  by_cases same : w.cht.bErrChtSiz = w.cht.errChtMax
  · rw [if_neg (not_not.2 same)]
    unfold Counted at counted
    unfold off sum
    split at counted
    · rename_i c siz filled
      obtain ⟨signs, -, -, accu⟩ := counted
      rw [accu, signs, List.take_replicate, Nat.min_eq_left i.siz.2, if_pos same]
      have all : (List.replicate w.cht.errChtMax c).sum = c * w.cht.errChtMax := by
        rw [List.sum_replicate_int, Int.mul_comm]
      rw [all]
      exact congrArg _ (by omega)
    · have right := counted.resolve_left (by rw [same]; exact Nat.not_lt.2 i.siz.2)
      rw [right, same, Int.add_zero]
  · rw [if_pos same]
    have zero : w.off = 0 := by
      unfold off
      split
      · exact if_neg same
      · rfl
    rw [zero, Int.add_zero]
    exact chg_accu _ w.signs i.siz.2 i.ring

theorem recount_ring (s : ErrCht) :
    s.recount.gcErrSign = s.gcErrSign ∧ s.recount.gbErrSingPosIn = s.gbErrSingPosIn := by
  unfold ErrCht.recount
  split <;> exact ⟨rfl, rfl⟩

/-- The sum with the next sign. -/
def sumWith (w : Signs) (c : Int) : Int := ((c :: w.signs).take w.cht.errChtMax).sum

/-- The sign that leaves the window is the one that the code takes off. -/
theorem Inv.sumWith (i : w.Inv) (c : Int) :
    ∃ old : Int, w.cht.gcErrSign (firstCell errChtSiz w.cht.gbErrSingPosIn w.cht.errChtMax) = toChar old ∧
      w.sumWith c = w.sum + c - old := by
  obtain ⟨m, hm⟩ := Nat.exists_eq_succ_of_ne_zero (Nat.ne_of_gt i.siz.1)
  have first := i.ring.first i.siz.1 i.siz.2
  rw [hm, Nat.succ_sub_one, List.getElem?_map, Option.map_eq_some_iff] at first
  obtain ⟨old, at_, cell⟩ := first
  refine ⟨old, ?_, ?_⟩
  · rw [hm]
    exact cell.symm
  · unfold Signs.sumWith sum
    rw [hm, List.take_succ_cons, List.sum_cons, List.take_succ, at_, Option.toList_some, List.sum_append_int,
      List.sum_singleton]
    omega

theorem Inv.set_accu (i : w.Inv) (aiErr aiMargin : Int) :
    (w.cht.set aiErr aiMargin).gcErrSignAccu =
      toChar (w.sumWith (ErrCht.sign aiErr aiMargin) + w.off) := by
  obtain ⟨old, cell, sum⟩ := i.sumWith (ErrCht.sign aiErr aiMargin)
  obtain ⟨ring, pos⟩ := recount_ring w.cht
  have out : w.cht.recount.bErrSignPosOut = firstCell errChtSiz w.cht.gbErrSingPosIn w.cht.errChtMax := by
    unfold ErrCht.bErrSignPosOut firstCell
    rw [pos, recount_max]
  unfold ErrCht.set ErrCht.add
  dsimp only
  rw [out, ring, cell, i.recount, sum]
  apply toChar_congr
  rw [toChar_cast, toChar_cast, toChar_cast]
  omega

/-- What the count is off is one byte's worth at most, and nothing unless it is stale. -/
theorem Inv.off (i : w.Inv) : -255 ≤ w.off ∧ w.off ≤ 255 ∧ (w.off = 0 ↔ ¬w.Stale) := by
  have siz := i.siz
  have counted := i.counted
  unfold Counted at counted
  unfold Signs.off Stale
  unfold errChtSiz at siz
  split at counted
  · rename_i c n filled
    obtain ⟨-, isSign, le, -⟩ := counted
    unfold errChtSiz at le
    rw [filled]
    have stale : (∃ c' m, some (c, n) = some (c', m) ∧ c' ≠ 0 ∧ m ≠ w.cht.errChtMax ∧
        w.cht.bErrChtSiz = w.cht.errChtMax) ↔
          c ≠ 0 ∧ n ≠ w.cht.errChtMax ∧ w.cht.bErrChtSiz = w.cht.errChtMax := by
      constructor
      · rintro ⟨c', m, eq, rest⟩
        cases eq
        exact rest
      · intro rest
        exact ⟨c, n, rfl, rest⟩
    rw [stale]
    rcases isSign.cases with rfl | rfl | rfl
    · split <;> omega
    · split <;> omega
    · split <;> omega
  · rename_i filled
    rw [filled]
    refine ⟨by decide, by decide, fun _ => ?_, fun _ => rfl⟩
    rintro ⟨c, n, eq, -⟩
    cases eq

theorem Inv.sumWith_bounds (i : w.Inv) {c : Int} (h : IsSign c) :
    -(w.cht.errChtMax : Int) ≤ w.sumWith c ∧ w.sumWith c ≤ w.cht.errChtMax := by
  have all : ∀ x ∈ (c :: w.signs).take w.cht.errChtMax, IsSign x := by
    intro x hx
    rcases List.mem_cons.1 (List.mem_of_mem_take hx) with rfl | hx
    · exact h
    · exact i.isSign x hx
  have bounds := sum_bounds all
  have short : ((c :: w.signs).take w.cht.errChtMax).length ≤ w.cht.errChtMax := by
    rw [List.length_take]
    exact Nat.min_le_left _ _
  unfold Signs.sumWith
  omega

theorem set_max (s : ErrCht) (aiErr aiMargin : Int) : (s.set aiErr aiMargin).errChtMax = s.errChtMax :=
  recount_max s

theorem Inv.set_iff (i : w.Inv) (aiErr aiMargin : Int) :
    w.Holds (.set aiErr aiMargin) ↔ w.Clear (.set aiErr aiMargin) := by
  obtain ⟨lo, hi, off⟩ := i.off
  have siz := i.siz.2
  have bounds := i.sumWith_bounds (sign_isSign aiErr aiMargin)
  have accu := congrArg (Nat.cast (R := Int)) (i.set_accu aiErr aiMargin)
  rw [toChar_cast] at accu
  change ((w.cht.set aiErr aiMargin).gcErrSignAccu : Int) =
      (List.take (w.cht.set aiErr aiMargin).errChtMax (ErrCht.sign aiErr aiMargin :: w.signs)).sum ∧
    -((w.cht.set aiErr aiMargin).errChtMax : Int) ≤ (w.cht.set aiErr aiMargin).gcErrSignAccu ∧
      (w.cht.set aiErr aiMargin).gcErrSignAccu ≤ (w.cht.set aiErr aiMargin).errChtMax ↔
    ¬w.Stale ∧ 0 ≤ w.sumWith (ErrCht.sign aiErr aiMargin)
  rw [set_max, accu, ← off]
  change (_ = w.sumWith _ ∧ _) ↔ _
  unfold errChtSiz at siz
  omega

/-- `ErrChtGet` gets to its division only with an error and a count that are not negative, and a count from
`ErrChtMin` on. -/
theorem get_cases (s : ErrCht) {aiErr : Int} (h : -2 ^ 31 ≤ aiErr ∧ aiErr < 2 ^ 31) :
    s.get aiErr = some 0 ∧ ¬(0 ≤ aiErr ∧ s.errChtMin ≤ s.gcErrSignAccu ∧ s.gcErrSignAccu < 128) ∨
      (0 ≤ aiErr ∧ s.errChtMin ≤ s.gcErrSignAccu ∧ s.gcErrSignAccu < 128) ∧
        s.get aiErr = if (s.errChtMax - s.errChtMin + 1 : Int) = 0 then none
          else some (aiErr.tdiv (s.errChtMax - s.errChtMin + 1)) := by
  unfold ErrCht.get
  rw [Int.shiftRight_eq_div_pow, Nat.shiftRight_eq_div_pow]
  by_cases signs : aiErr / (2 ^ 31 : Nat) ≠ (s.gcErrSignAccu / 2 ^ 7 : Nat)
  · rw [if_pos signs]
    exact .inl ⟨rfl, by omega⟩
  · rw [if_neg signs]
    by_cases less : s.gcErrSignAccu < s.errChtMin
    · rw [if_pos less]
      exact .inl ⟨rfl, by omega⟩
    · rw [if_neg less]
      exact .inr ⟨by omega, rfl⟩

theorem Inv.get_iff (i : w.Inv) {aiErr : Int} (h : -2 ^ 31 ≤ aiErr ∧ aiErr < 2 ^ 31) :
    w.Holds (.get aiErr) ↔ w.Clear (.get aiErr) := by
  have cut := i.cut
  simp only [Holds, Clear]
  rcases get_cases w.cht h with ⟨get, not⟩ | ⟨reached, get⟩
  · rw [get]
    exact ⟨fun _ ⟨h1, _, h2⟩ => not ⟨h1, h2⟩, fun _ => ⟨0, rfl, fun ne => absurd rfl ne⟩⟩
  · rw [get]
    by_cases zero : (w.cht.errChtMax - w.cht.errChtMin + 1 : Int) = 0
    · rw [if_pos zero]
      constructor
      · rintro ⟨r, hr, -⟩
        cases hr
      · intro clear
        exact absurd ⟨reached.1, by omega, reached.2⟩ clear
    · rw [if_neg zero]
      refine ⟨fun _ ⟨_, same, _⟩ => zero (by omega), fun _ => ⟨_, rfl, fun ne => ⟨.inl ⟨by omega, ?_⟩, by omega⟩⟩⟩
      have some_error : aiErr ≠ 0 := fun none => ne (by rw [none, Int.zero_tdiv])
      omega

/-- A call that does what is expected keeps the count. -/
theorem Inv.step (i : w.Inv) (op : ErrOp) (valid : op.Valid) (clear : w.Clear op) : (w.step op).Inv := by
  cases op with
  | init c =>
    have isSign : IsSign c := by
      unfold ErrOp.Valid at valid
      unfold IsSign
      omega
    exact
      { ring := by
          change Recent errChtSiz _ 0 ((List.replicate errChtSiz c).map toChar)
          rw [List.map_replicate]
          exact Recent.fill (by decide) fun _ => rfl
        isSign := fun x hx => (List.eq_of_mem_replicate hx) ▸ isSign
        siz := i.siz
        cut := i.cut
        counted := by
          refine ⟨rfl, isSign, i.siz.2, ?_⟩
          change toChar (toChar c * w.cht.errChtMax) = _
          apply toChar_congr
          rw [toChar_cast, Int.mul_emod, Int.emod_emod, ← Int.mul_emod] }
  | set aiErr aiMargin =>
    obtain ⟨-, -, off⟩ := i.off
    obtain ⟨ring, pos⟩ := recount_ring w.cht
    exact
      { ring := by
          change Recent errChtSiz (Function.update w.cht.recount.gcErrSign w.cht.recount.gbErrSingPosIn _)
            (if w.cht.recount.gbErrSingPosIn + 1 = errChtSiz then 0 else w.cht.recount.gbErrSingPosIn + 1)
            (toChar _ :: w.signs.map toChar)
          rw [ring, pos]
          exact i.ring.push _
        isSign := by
          intro x hx
          rcases List.mem_cons.1 hx with rfl | hx
          · exact sign_isSign _ _
          · exact i.isSign x hx
        siz := (set_max w.cht aiErr aiMargin).symm ▸ i.siz
        cut := (recount_min w.cht).symm ▸ i.cut
        counted := by
          refine .inr ?_
          change (w.cht.set aiErr aiMargin).gcErrSignAccu = toChar (List.take w.cht.recount.bErrChtSiz _).sum
          rw [i.set_accu, off.2 clear.1, Int.add_zero, recount_siz]
          rfl }
  | get aiErr => exact i
  | par siz cut =>
    unfold ErrOp.Valid at valid
    exact ⟨i.ring, i.isSign, ⟨valid.1, valid.2.1⟩, valid.2.2.1, i.counted⟩

theorem start_inv {siz cut : Nat} (h : 1 ≤ siz ∧ siz ≤ errChtSiz) (hc : 1 ≤ cut) : (start siz cut).Inv where
  ring := by
    change Recent errChtSiz _ 0 ((List.replicate errChtSiz 0).map toChar)
    rw [List.map_replicate]
    exact Recent.fill (by decide) fun _ => rfl
  isSign x hx := (List.eq_of_mem_replicate hx) ▸ ⟨by decide, by decide⟩
  siz := h
  cut := hc
  counted := .inl (show 60 < 0xff by decide)

theorem Inv.iff (i : w.Inv) (op : ErrOp) (valid : op.Valid) : w.Holds op ↔ w.Clear op := by
  cases op with
  | init c => exact Iff.rfl
  | set aiErr aiMargin => exact i.set_iff aiErr aiMargin
  | get aiErr => exact i.get_iff valid
  | par siz cut => exact Iff.rfl

end Signs

/-- In every run the calls do what is expected of them where they all meet the condition, and only there. -/
theorem errCht_iff (siz cut : Nat) (h : (ErrOp.par siz cut).Valid) (ops : List ErrOp)
    (valid : ∀ op ∈ ops, op.Valid) :
    Allowed Signs.Holds Signs.step (Signs.start siz cut) ops ↔
      Allowed Signs.Clear Signs.step (Signs.start siz cut) ops :=
  allowed_iff (fun _ op i v => i.iff op v) (fun _ op i v clear => i.step op v clear)
    (Signs.start_inv ⟨h.1, h.2.1⟩ h.2.2.1) valid

theorem errCht_iff_up :
    Allowed Signs.Holds Signs.step (Signs.start 60 40) [.set 9 3, .get 9] ↔
      Allowed Signs.Clear Signs.step (Signs.start 60 40) [.set 9 3, .get 9] :=
  errCht_iff 60 40 ⟨by decide, by decide, by decide, by decide⟩ [.set 9 3, .get 9] (by
    intro op hop
    rcases List.mem_cons.1 hop with rfl | hop
    · exact ⟨by decide, by decide, by decide, by decide⟩
    · rw [List.mem_singleton.1 hop]
      exact ⟨by decide, by decide⟩)

/-- The first error below the target is counted as `255`. -/
theorem errCht_unsigned :
    ¬∀ ops : List ErrOp, (∀ op ∈ ops, op.Valid) →
      Allowed Signs.Holds Signs.step (Signs.start 60 40) ops := by
  intro h
  have one : ∀ op ∈ [ErrOp.set (-9) 3], op.Valid := by
    intro op hop
    rw [List.mem_singleton.1 hop]
    exact ⟨by decide, by decide, by decide, by decide⟩
  obtain ⟨⟨sum, -⟩, -⟩ := h [.set (-9) 3] one
  exact absurd sum (by decide +kernel)

end En675.Isp
