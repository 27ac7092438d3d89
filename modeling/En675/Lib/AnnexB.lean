import Mathlib.Data.List.Basic
import Mathlib.Data.List.DropRight
import Mathlib.Data.List.Infix

/-! Annex-B byte streams: start codes, NAL units that cannot be mistaken for one, and
the units of a stream. -/

namespace Lib.AnnexB

def IsStartCode (sc : List UInt8) : Prop := sc = [0, 0, 1] ∨ sc = [0, 0, 0, 1]

/-- Emulation-prevented and without a trailing zero. -/
structure Clean (nal : List UInt8) : Prop where
  no000 : ¬ [0, 0, 0] <:+: nal
  no001 : ¬ [0, 0, 1] <:+: nal
  last : nal.getLast? ≠ some 0

/-- `p` reads `xs` from position 0 on. -/
def Reads (p : Nat → UInt8) (xs : List UInt8) : Prop := ∀ i (h : i < xs.length), p i = xs[i]

theorem IsStartCode.three_le (h : IsStartCode sc) : 3 ≤ sc.length := by
  rcases h with rfl | rfl <;> simp

theorem infix_of_getElem {xs : List UInt8} {a b c : UInt8} (h : i + 2 < xs.length)
    (h0 : xs[i] = a) (h1 : xs[i + 1] = b) (h2 : xs[i + 2] = c) : [a, b, c] <:+: xs := by
  refine ⟨xs.take i, xs.drop (i + 3), ?_⟩
  have hd : xs.drop i = a :: b :: c :: xs.drop (i + 3) := by
    rw [List.drop_eq_getElem_cons (by omega), List.drop_eq_getElem_cons (by omega),
      List.drop_eq_getElem_cons (by omega), h0, h1, h2]
  rw [List.append_assoc, List.cons_append, List.cons_append, List.cons_append, List.nil_append,
    ← hd, List.take_append_drop]

theorem Clean.last_ne {xs : List UInt8} (h : Clean xs) (hi : i + 1 = xs.length) :
    xs[i] ≠ 0 := by
  intro h0
  apply h.last
  rw [List.getLast?_eq_getElem?, ← hi, Nat.add_sub_cancel, List.getElem?_eq_getElem (by omega), h0]

theorem Clean.drop {xs : List UInt8} (h : Clean xs) (hn : n < xs.length) : Clean (xs.drop n) where
  no000 hi := h.no000 (hi.trans (List.drop_suffix n xs).isInfix)
  no001 hi := h.no001 (hi.trans (List.drop_suffix n xs).isInfix)
  last := by
    rw [List.getLast?_drop, if_neg (by omega)]
    exact h.last

/-- No start code begins inside a clean unit, whatever follows it. -/
theorem Clean.no_code {xs : List UInt8} (h : Clean xs) (hp : Reads p xs) (hi : i < xs.length) :
    ¬ (p i = 0 ∧ p (i + 1) = 0 ∧ p (i + 2) = 1) := by
  rintro ⟨h0, h1, h2⟩
  rw [hp i hi] at h0
  by_cases hl : i + 1 = xs.length
  · exact h.last_ne hl h0
  · rw [hp (i + 1) (by omega)] at h1
    by_cases hl' : i + 2 = xs.length
    · exact h.last_ne hl' h1
    · rw [hp (i + 2) (by omega)] at h2
      exact h.no001 (infix_of_getElem (by omega) h0 h1 h2)

theorem Reads.append_left {xs ys : List UInt8} (h : Reads p (xs ++ ys)) : Reads p xs := by
  intro i hi
  rw [h i (by rw [List.length_append]; omega), List.getElem_append_left hi]

theorem Reads.append_right {xs ys : List UInt8} (h : Reads p (xs ++ ys)) :
    Reads (fun i => p (xs.length + i)) ys := by
  intro i hi
  change p (xs.length + i) = ys[i]
  rw [h _ (by rw [List.length_append]; omega), List.getElem_append_right (by omega)]
  congr 1
  omega

/-- No start code inside and no trailing zero. -/
structure Plain (nal : List UInt8) : Prop where
  no001 : ¬ [0, 0, 1] <:+: nal
  last : nal.getLast? ≠ some 0

/-- No start code begins in `xs` when `ys` follows it. -/
def NoCode (xs ys : List UInt8) : Prop := ∀ i, i < xs.length → ¬ [0, 0, 1] <+: xs.drop i ++ ys

theorem NoCode.append (h : NoCode xs (ys ++ zs)) (k : NoCode ys zs) : NoCode (xs ++ ys) zs := by
  intro i hi
  rw [List.drop_append, List.append_assoc]
  by_cases hx : i < xs.length
  · rw [Nat.sub_eq_zero_of_le hx.le, List.drop_zero]
    exact h i hx
  · rw [List.drop_eq_nil_of_le (Nat.le_of_not_lt hx), List.nil_append]
    exact k _ (by rw [List.length_append] at hi; omega)

theorem NoCode.tail (h : NoCode (x :: xs) ys) : NoCode xs ys :=
  fun i hi => h (i + 1) (Nat.succ_lt_succ hi)

theorem Plain.noCode {nal : List UInt8} (h : Plain nal) (ys : List UInt8) : NoCode nal ys := by
  intro i hi hc
  rw [List.drop_eq_getElem_cons hi, List.cons_append, List.cons_prefix_cons] at hc
  obtain ⟨h0, hc⟩ := hc
  by_cases hl : i + 1 < nal.length
  · rw [List.drop_eq_getElem_cons hl, List.cons_append, List.cons_prefix_cons] at hc
    obtain ⟨h1, hc⟩ := hc
    by_cases hl' : i + 2 < nal.length
    · rw [List.drop_eq_getElem_cons hl', List.cons_append, List.cons_prefix_cons] at hc
      exact h.no001 (infix_of_getElem hl' h0.symm h1.symm hc.1.symm)
    · apply h.last
      rw [List.getLast?_eq_getElem?, show nal.length - 1 = i + 1 by omega,
        List.getElem?_eq_getElem hl, ← h1]
  · apply h.last
    rw [List.getLast?_eq_getElem?, show nal.length - 1 = i by omega, List.getElem?_eq_getElem hi,
      ← h0]

theorem noCode_zeros (z : Nat) (ys : List UInt8) :
    NoCode (List.replicate z 0) ([0, 0, 1] ++ ys) := by
  intro i hi hc
  rw [List.length_replicate] at hi
  rw [List.drop_replicate] at hc
  obtain ⟨k, hk⟩ : ∃ k, z - i = k + 1 := ⟨z - i - 1, by omega⟩
  rw [hk] at hc
  cases k with
  | zero => simp at hc
  | succ k => cases k <;> simp [List.replicate_succ] at hc

/-- The zeros before a start code, the code and its unit, one after the other. -/
def annexB : List (Nat × List UInt8) → List UInt8
  | [] => []
  | (z, nal) :: rest => List.replicate z 0 ++ ([0, 0, 1] ++ (nal ++ annexB rest))

/-- The stretches between the start codes, the one before the first included. -/
def pieces : List UInt8 → List (List UInt8)
  | [] => [[]]
  | 0 :: 0 :: 1 :: rest => [] :: pieces rest
  | b :: rest => match pieces rest with
    | [] => [[b]]
    | p :: ps => (b :: p) :: ps

/-- The NAL units of a stream: what follows each start code, less its trailing zeros. -/
def units (bs : List UInt8) : List (List UInt8) :=
  (pieces bs).tail.map (List.rdropWhile (fun b => b == 0))

theorem pieces_append {xs ys : List UInt8} (h : NoCode xs ys) (hp : pieces ys = p :: ps) :
    pieces (xs ++ ys) = (xs ++ p) :: ps := by
  induction xs with
  | nil => exact hp
  | cons x xs ih =>
    have rest := ih h.tail
    rw [List.cons_append, pieces]
    · rw [rest]
      rfl
    · rintro r rfl e
      exact h 0 (by simp) ⟨r, by simp [e]⟩

theorem pieces_code (ys : List UInt8) : pieces ([0, 0, 1] ++ ys) = [] :: pieces ys := rfl

theorem strip_zeros {nal : List UInt8} (hl : nal.getLast? ≠ some 0) (z : Nat) :
    (nal ++ List.replicate z 0).rdropWhile (fun b => b == 0) = nal := by
  induction z with
  | zero =>
    rw [List.replicate_zero, List.append_nil, List.rdropWhile_eq_self_iff]
    intro hne h0
    exact hl (by rw [List.getLast?_eq_some_getLast hne, beq_iff_eq.mp h0])
  | succ z ih =>
    rw [List.replicate_succ', ← List.append_assoc, List.rdropWhile_concat_pos _ _ _ (by simp), ih]

theorem pieces_annexB {l : List (Nat × List UInt8)} (h : ∀ u ∈ l, Plain u.2)
    (hn : Plain nal) :
    ∃ z ps, pieces (nal ++ annexB l) = (nal ++ List.replicate z 0) :: ps ∧
      ps.map (List.rdropWhile (fun b => b == 0)) = l.map Prod.snd := by
  induction l generalizing nal with
  | nil =>
    refine ⟨0, [], ?_, rfl⟩
    rw [annexB, pieces_append (hn.noCode []) rfl]
    simp
  | cons u l ih =>
    obtain ⟨z, nal'⟩ := u
    have hu := h _ List.mem_cons_self
    obtain ⟨z', ps, hp, hs⟩ := ih (fun v hv => h v (List.mem_cons_of_mem _ hv)) hu
    refine ⟨z, (nal' ++ List.replicate z' 0) :: ps, ?_, ?_⟩
    · rw [annexB, ← List.append_assoc,
        pieces_append ((hn.noCode _).append (noCode_zeros z _)) (pieces_code _), hp, List.append_nil]
    · rw [List.map_cons, strip_zeros hu.last, hs, List.map_cons]

theorem units_annexB {l : List (Nat × List UInt8)} (h : ∀ u ∈ l, Plain u.2) :
    units (annexB l) = l.map Prod.snd := by
  obtain ⟨z, ps, hp, hs⟩ := pieces_annexB h (show Plain [] from ⟨by simp, by simp⟩)
  rw [List.nil_append] at hp
  rw [units, hp, List.tail_cons, hs]

end Lib.AnnexB
