import En675.Lib.Bisect
import Mathlib.Algebra.Ring.Int.Defs
import Mathlib.Algebra.Ring.Nat

/-! `floorSqrt`: a bisection that squares its midpoint in 32 bits. -/

namespace En675.Dev

open Lib

/-- The body of the `while`, in which every sum and product is a `UINT`. -/
def sqrtRound (x : Nat) (s : Span) : Round Span :=
  let mid := (s.start + s.stop) % 2 ^ 32 / 2
  if mid * mid % 2 ^ 32 = x then .stop { s with ans := mid }
  else if mid * mid % 2 ^ 32 < x then .next { s with start := (mid + 1) % 2 ^ 32, ans := mid }
  else .next { s with stop := (mid + 2 ^ 32 - 1) % 2 ^ 32 }

def sqrtSpan (x : Nat) : Span := { start := 1, stop := x / 2, ans := 0 }

/-- `floorSqrt`, which runs its loop at most `n` rounds. -/
def floorSqrt (n x : Nat) : Option Nat :=
  if x = 0 ∨ x = 1 then some x
  else (whileDo Span.isOpen (sqrtRound x) n (sqrtSpan x)).map Span.ans

/-- The comparison of the code. -/
def squareMod (x m : Nat) : Ordering := compare (m * m % 2 ^ 32) x

/-- The comparison that is meant. -/
def square (x m : Nat) : Ordering := compare (m * m) x

section square

variable {x m : Nat}

theorem square_tells (x : Nat) : Tells (square x) fun m => m * m ≤ x :=
  { lt := fun h => Nat.le_of_lt (Nat.compare_eq_lt.1 h)
    eq := by
      intro m h
      have same : m * m = x := Nat.compare_eq_eq.1 h
      refine ⟨Nat.le_of_eq same, Nat.not_le.2 ?_⟩
      exact same ▸ Nat.mul_self_lt_mul_self (Nat.lt_succ_self m)
    gt := fun h => Nat.not_le.2 (Nat.compare_eq_gt.1 h) }

theorem square_small (h : m < 2 ^ 16) : squareMod x m = square x m := by
  have lt : m * m < 2 ^ 32 := Nat.lt_of_lt_of_le (Nat.mul_self_lt_mul_self h) (by decide)
  unfold squareMod square
  rw [Nat.mod_eq_of_lt lt]

/-- A square that needs more than 32 bits is more than any `x`. -/
theorem lt_square (hx : x < 2 ^ 32) (h : 2 ^ 16 ≤ m) : x < m * m :=
  Nat.lt_of_lt_of_le hx (Nat.mul_self_le_mul_self h)

theorem square_large (hx : x < 2 ^ 32) (h : 2 ^ 16 ≤ m) :
    squareMod x m = square x m ↔ x < m * m % 2 ^ 32 := by
  have gt : square x m = .gt := Nat.compare_eq_gt.2 (lt_square hx h)
  rw [gt]
  exact Nat.compare_eq_gt

end square

section run

variable {x n : Nat} {s t : Span}

/-- No sum of the code wraps. -/
theorem sqrtRound_eq (o : s.isOpen = true) (pos : 0 < s.start) (le : s.stop < 2 ^ 31) :
    sqrtRound x s = halve (squareMod x) s := by
  have lo := Span.start_le_mid o
  have hi := Span.mid_le_stop o
  have open' := Span.isOpen_iff.1 o
  have sum : (s.start + s.stop) % 2 ^ 32 / 2 = s.mid := by
    unfold Span.mid
    rw [Nat.mod_eq_of_lt (by omega)]
  have next : (s.mid + 1) % 2 ^ 32 = s.mid + 1 := Nat.mod_eq_of_lt (by omega)
  have prev : (s.mid + 2 ^ 32 - 1) % 2 ^ 32 = s.mid - 1 := by omega
  unfold sqrtRound
  simp only [sum, next, prev]
  cases h : squareMod x s.mid with
  | eq => rw [halve_eq h, if_pos (Nat.compare_eq_eq.1 h)]
  | lt =>
    have lt : s.mid * s.mid % 2 ^ 32 < x := Nat.compare_eq_lt.1 h
    rw [halve_lt h, if_neg (Nat.ne_of_lt lt), if_pos lt]
  | gt =>
    have gt : x < s.mid * s.mid % 2 ^ 32 := Nat.compare_eq_gt.1 h
    rw [halve_gt h, if_neg (Nat.ne_of_gt gt), if_neg (Nat.not_lt.2 (Nat.le_of_lt gt))]

/-- The loop of the code is the bisection by its comparison. -/
theorem sqrtRun_eq (hx : x < 2 ^ 32) :
    whileDo Span.isOpen (sqrtRound x) n (sqrtSpan x) =
      whileDo Span.isOpen (halve (squareMod x)) n (sqrtSpan x) := by
  have rule : Keeps Span.isOpen (halve (squareMod x)) (fun s => 0 < s.start ∧ s.stop < 2 ^ 31) fun _ => True :=
    { exit := fun _ _ => trivial
      next := by
        rintro s t ⟨pos, lt⟩ o hb
        refine ⟨start_next pos hb, ?_⟩
        have hi := Span.mid_le_stop o
        rcases halve_next hb with ⟨-, rfl⟩ | ⟨-, rfl⟩
        · exact lt
        · exact Nat.lt_of_le_of_lt (Nat.le_trans (Nat.sub_le _ _) hi) lt
      stop := fun _ _ _ => trivial }
  apply whileDo_congr
  intro u hu
  have start : x / 2 < 2 ^ 31 := Nat.div_lt_of_lt_mul hx
  obtain ⟨⟨pos, lt⟩, o⟩ := rule.rounds ⟨Nat.one_pos, start⟩ u hu
  exact sqrtRound_eq o pos lt

theorem sqrtSpan_brackets (h : 2 ≤ x) : Brackets (fun m => m * m ≤ x) (sqrtSpan x) := by
  have more : x < (x / 2 + 1) * (x / 2 + 1) := by
    have two : 2 * (x / 2 + 1) ≤ (x / 2 + 1) * (x / 2 + 1) :=
      Nat.mul_le_mul_right _ (Nat.succ_le_succ (Nat.div_pos h Nat.two_pos))
    omega
  exact
    { below := Nat.zero_le _
      after := rfl
      above := Nat.not_le.2 more
      meets := Nat.succ_le_succ (Nat.zero_le _) }

end run

/-- The spans that the search for the root of `x` goes through where no square wraps. -/
def sqrtSpans (x : Nat) : List Span := rounds Span.isOpen (halve (square x)) (x / 2) (sqrtSpan x)

/-- At every midpoint from `2 ^ 16` on, the low 32 bits of the square are still more than `x`. -/
def SquaresClear (x : Nat) : Prop :=
  ∀ s ∈ sqrtSpans x, 2 ^ 16 ≤ s.mid → x < s.mid * s.mid % 2 ^ 32

instance (x : Nat) : Decidable (SquaresClear x) := List.decidableBAll _ _

section root

variable {x n m r q : Nat} {t : Span}

theorem squaresClear_iff (hx : x < 2 ^ 32) :
    SquaresClear x ↔ ∀ s ∈ sqrtSpans x, squareMod x s.mid = square x s.mid := by
  constructor
  · intro clear s hs
    by_cases small : s.mid < 2 ^ 16
    · exact square_small small
    · exact (square_large hx (Nat.not_lt.1 small)).2 (clear s hs (Nat.not_lt.1 small))
  · intro same s hs large
    exact (square_large hx large).1 (same s hs)

/-- A search that takes a midpoint from `2 ^ 16` on ends there or above. -/
theorem large_of_parts (hx : x < 2 ^ 32) (b : s.ans < s.start) (o : s.isOpen = true)
    (parts : squareMod x s.mid ≠ square x s.mid)
    (hw : whileDo Span.isOpen (halve (squareMod x)) n s = some t) : 2 ^ 16 ≤ t.ans := by
  have large : 2 ^ 16 ≤ s.mid := Nat.not_lt.1 fun small => parts (square_small small)
  have gt : square x s.mid = .gt := Nat.compare_eq_gt.2 (lt_square hx large)
  cases n with
  | zero =>
    rw [whileDo, if_pos o] at hw
    cases hw
  | succ n =>
    cases h : squareMod x s.mid with
    | eq =>
      rw [whileDo_stop o (halve_eq h)] at hw
      exact Option.some.inj hw ▸ large
    | lt =>
      rw [whileDo_next o (halve_lt h)] at hw
      exact Nat.le_trans large (bisect_le (Nat.lt_succ_self _) hw)
    | gt => exact absurd (h.trans gt.symm) parts

theorem sqrtSpans_open (x : Nat) : ∀ s ∈ sqrtSpans x, s.ans < s.start ∧ s.isOpen = true := by
  have rule : Keeps Span.isOpen (halve (square x)) (fun s => s.ans < s.start) fun _ => True :=
    { exit := fun _ _ => trivial
      next := by
        intro s t b _ hb
        rcases halve_next hb with ⟨-, rfl⟩ | ⟨-, rfl⟩
        · exact Nat.lt_succ_self _
        · exact b
      stop := fun _ _ _ => trivial }
  exact rule.rounds Nat.one_pos

/-- `floorSqrt` always ends. -/
theorem floorSqrt_ends (hx : x < 2 ^ 32) : ∃ r, floorSqrt (x / 2) x = some r := by
  by_cases base : x = 0 ∨ x = 1
  · exact ⟨x, if_pos base⟩
  · obtain ⟨t, ht⟩ := bisect_ends (c := squareMod x) (s := sqrtSpan x) Nat.one_pos (Nat.le_refl _)
    refine ⟨t.ans, ?_⟩
    have run := (sqrtRun_eq hx).trans ht
    unfold floorSqrt
    rw [if_neg base]
    exact run ▸ rfl

theorem floorSqrt_root (hx : x < 2 ^ 32) (clear : SquaresClear x) :
    ∃ r, floorSqrt (x / 2) x = some r ∧ r * r ≤ x ∧ x < (r + 1) * (r + 1) := by
  by_cases base : x = 0 ∨ x = 1
  · refine ⟨x, if_pos base, ?_⟩
    rcases base with rfl | rfl
    · exact ⟨Nat.le_refl _, Nat.one_pos⟩
    · exact ⟨Nat.le_refl _, by decide⟩
  · have two : 2 ≤ x := by omega
    have same := whileDo_congr fun s hs => halve_congr ((squaresClear_iff hx).1 clear s hs)
    obtain ⟨t, ht⟩ := bisect_ends (c := square x) (s := sqrtSpan x) Nat.one_pos (Nat.le_refl _)
    obtain ⟨below, above⟩ := bisect_last (square_tells x) (sqrtSpan_brackets two) ht
    have run := ((sqrtRun_eq hx).trans same).trans ht
    refine ⟨t.ans, ?_, below, Nat.not_le.1 above⟩
    unfold floorSqrt
    rw [if_neg base]
    exact run ▸ rfl

/-- What the rounds are that the loop may take does not matter, once it ends. -/
theorem floorSqrt_det (hn : floorSqrt n x = some r) (hm : floorSqrt m x = some q) : r = q := by
  unfold floorSqrt at hn hm
  by_cases base : x = 0 ∨ x = 1
  · rw [if_pos base] at hn hm
    exact Option.some.inj (hn.symm.trans hm)
  · rw [if_neg base] at hn hm
    obtain ⟨t, ht, rfl⟩ := Option.map_eq_some_iff.1 hn
    obtain ⟨u, hu, rfl⟩ := Option.map_eq_some_iff.1 hm
    have long := whileDo_mono ht (Nat.le_max_left n m)
    have long' := whileDo_mono hu (Nat.le_max_right n m)
    rw [Option.some.inj (long.symm.trans long')]

theorem clear_of_root (hx : x < 2 ^ 32) (h : floorSqrt (x / 2) x = some r) (below : r * r ≤ x) :
    SquaresClear x := by
  by_cases base : x = 0 ∨ x = 1
  · intro s hs
    rcases base with rfl | rfl
    · exact absurd hs List.not_mem_nil
    · exact absurd hs List.not_mem_nil
  · unfold floorSqrt at h
    rw [if_neg base, sqrtRun_eq hx] at h
    obtain ⟨t, ht, rfl⟩ := Option.map_eq_some_iff.1 h
    have parts : (∀ u ∈ sqrtSpans x, halve (squareMod x) u = halve (square x) u) ∨ _ :=
      whileDo_parts (x / 2) (sqrtSpan x)
    rcases parts with same | ⟨u, hu, ne, m, run⟩
    · exact (squaresClear_iff hx).2 fun s hs => halve_inj (sqrtSpans_open x s hs).2 (same s hs)
    · obtain ⟨b, o⟩ := sqrtSpans_open x u hu
      have large := large_of_parts hx b o (fun same => ne (halve_congr same)) (run.symm.trans ht)
      exact absurd below (Nat.not_le.2 (lt_square hx large))

end root

/-- The root comes out where no square on the way wraps to `x` or below, and nowhere else. -/
theorem floorSqrt_iff (x : Nat) (hx : x < 2 ^ 32) :
    (∃ n r, floorSqrt n x = some r ∧ r * r ≤ x ∧ x < (r + 1) * (r + 1)) ↔ SquaresClear x := by
  constructor
  · rintro ⟨n, r, h, below, -⟩
    obtain ⟨q, hq⟩ := floorSqrt_ends hx
    exact clear_of_root hx (floorSqrt_det h hq ▸ hq) below
  · intro clear
    obtain ⟨r, h, root⟩ := floorSqrt_root hx clear
    exact ⟨x / 2, r, h, root⟩

theorem floorSqrt_iff_ten :
    (∃ n r, floorSqrt n 10 = some r ∧ r * r ≤ 10 ∧ 10 < (r + 1) * (r + 1)) ↔ SquaresClear 10 :=
  floorSqrt_iff 10 (by decide)

/-- `65536` is the first midpoint for `2 ^ 18`, and its square wraps to `0`. -/
theorem floorSqrt_wraps :
    ¬∀ x < 2 ^ 32, ∃ n r, floorSqrt n x = some r ∧ r * r ≤ x ∧ x < (r + 1) * (r + 1) := by
  intro h
  obtain ⟨n, r, hr, below, -⟩ := h 262144 (by decide)
  have code : floorSqrt 20 262144 = some 65537 := by decide +kernel
  have same : r = 65537 := floorSqrt_det hr code
  rw [same] at below
  exact absurd below (by decide)

end En675.Dev
