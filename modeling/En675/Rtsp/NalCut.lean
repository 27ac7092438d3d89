import En675.Rtsp.RtpNal

/-! Where the two scans of the packetizers stop on any octets, well formed or not. -/

namespace En675.Rtsp

open Lib

/-- `00 00 01` begins at `i`. -/
def CodeAt (p : Nat → UInt8) (i : Nat) : Prop := p i = 0 ∧ p (i + 1) = 0 ∧ p (i + 2) = 1

/-- The first start code, and it begins among the first `n` octets. -/
def FirstCode (p : Nat → UInt8) (n i : Nat) : Prop := i < n ∧ CodeAt p i ∧ ∀ j < i, ¬ CodeAt p j

/-- The zeros in front of the first start code begin at `k`; the last of them is among the first `w`
octets. -/
def ZerosFrom (p : Nat → UInt8) (w k : Nat) : Prop :=
  ∃ i, FirstCode p (w - 1) i ∧ k ≤ i ∧ (∀ j, k ≤ j → j ≤ i → p j = 0) ∧ (0 < k → p (k - 1) ≠ 0)

variable {p : Nat → UInt8}

instance (i : Nat) : Decidable (CodeAt p i) := inferInstanceAs (Decidable (_ ∧ _ ∧ _))

theorem FirstCode.unique (h : FirstCode p n i) (h' : FirstCode p m j) : i = j := by
  rcases Nat.lt_trichotomy i j with lt | eq | gt
  · exact absurd h.2.1 (h'.2.2 i lt)
  · exact eq
  · exact absurd h'.2.1 (h.2.2 j gt)

theorem ZerosFrom.unique (h : ZerosFrom p w k) (h' : ZerosFrom p w' k') : k = k' := by
  obtain ⟨i, first, le, zeros, before⟩ := h
  obtain ⟨i', first', le', zeros', before'⟩ := h'
  obtain rfl := first.unique first'
  rcases Nat.lt_trichotomy k k' with lt | eq | gt
  · exact absurd (zeros (k' - 1) (Nat.le_sub_one_of_lt lt) (by omega)) (before' (by omega))
  · exact eq
  · exact absurd (zeros' (k - 1) (Nat.le_sub_one_of_lt gt) (by omega)) (before (by omega))

section start

theorem startCode_found (h : FirstCode p (i + n) k) (le : i ≤ k) : startCode p n i = k + 3 := by
  induction n generalizing i with
  | zero => exact absurd h.1 (by omega)
  | succ n ih =>
    obtain ⟨lt, ⟨h0, h1, h2⟩, first⟩ := h
    rcases Nat.eq_or_lt_of_le le with rfl | before
    · rw [startCode, h0, h1, h2]
      rfl
    · rw [startCode, if_neg]
      · exact ih ⟨by omega, ⟨h0, h1, h2⟩, first⟩ before
      · have none_ := first i before
        unfold CodeAt at none_
        simpa [and_assoc] using none_

theorem startCode_none (h : ∀ j, i ≤ j → j < i + n → ¬ CodeAt p j) : startCode p n i = 0 := by
  induction n generalizing i with
  | zero => rfl
  | succ n ih =>
    rw [startCode, if_neg]
    · exact ih fun j le lt => h j (by omega) (by omega)
    · have none_ := h i le_rfl (by omega)
      unfold CodeAt at none_
      simpa [and_assoc] using none_

/-- The start-code scan is empty-handed or stops behind the first start code. -/
theorem startCode_cases (p : Nat → UInt8) (n : Nat) :
    (∃ k, FirstCode p n k ∧ startCode p n 0 = k + 3) ∨ (∀ k, ¬ FirstCode p n k) ∧ startCode p n 0 = 0 := by
  by_cases h : ∃ k, k < n ∧ CodeAt p k
  · have first : FirstCode p n (Nat.find h) :=
      ⟨(Nat.find_spec h).1, (Nat.find_spec h).2, fun j lt code =>
        Nat.find_min h lt ⟨Nat.lt_trans lt (Nat.find_spec h).1, code⟩⟩
    exact .inl ⟨_, first, startCode_found (by rwa [Nat.zero_add]) (Nat.zero_le _)⟩
  · exact .inr ⟨fun k first => h ⟨k, first.1, first.2.1⟩,
      startCode_none fun j _ lt code => h ⟨j, by omega, code⟩⟩

end start

section param

/-- The loop at position `i`, with the zeros in front of it counted from `k` on. -/
theorem paramSize_cases (n i k : Nat) (le : k ≤ i) (zeros : ∀ j, k ≤ j → j < i → p j = 0)
    (before : 0 < k → p (k - 1) ≠ 0) (none_ : ∀ j, j + 1 < i → ¬ CodeAt p j) :
    ZerosFrom p (i + n) (paramSize p n i (i - k)) ∨
      (∀ k', ¬ ZerosFrom p (i + n) k') ∧ paramSize p n i (i - k) = 0 := by
  induction n generalizing i k with
  | zero =>
    refine .inr ⟨?_, rfl⟩
    rintro k' ⟨j, first, _⟩
    exact none_ j (by have := first.1; omega) first.2.1
  | succ n ih =>
    rw [paramSize]
    by_cases zero : p i = 0
    · rw [if_pos (by rw [zero]; rfl)]
      have more : ∀ j, k ≤ j → j < i + 1 → p j = 0 := fun j hk hj => by
        rcases Nat.eq_or_lt_of_le (Nat.le_of_lt_succ hj) with rfl | lt
        · exact zero
        · exact zeros j hk lt
      by_cases one : p (i + 1) = 1 ∧ k < i
      · rw [if_pos (by simp [one.1]; omega)]
        refine .inl ?_
        rw [show i + 1 - (i - k + 1) = k by omega]
        have code : CodeAt p (i - 1) := by
          refine ⟨more _ (by omega) (by omega), ?_, ?_⟩
          · rw [show i - 1 + 1 = i by omega]
            exact zero
          · rw [show i - 1 + 2 = i + 1 by omega]
            exact one.1
        exact ⟨i - 1, ⟨by omega, code, fun j hj => none_ j (by omega)⟩, by omega,
          fun j hk hj => more j hk (by omega), before⟩
      · have stays : ¬ (p (i + 1) == 1 && decide (2 ≤ i - k + 1)) = true := by
          rw [Bool.and_eq_true, beq_iff_eq, decide_eq_true_eq]
          exact fun h => one ⟨h.1, by omega⟩
        rw [if_neg stays]
        have none_' : ∀ j, j + 1 < i + 1 → ¬ CodeAt p j := fun j hj code => by
          rcases Nat.lt_or_ge (j + 1) i with lt | ge
          · exact none_ j lt code
          · obtain rfl : i = j + 1 := by omega
            refine one ⟨code.2.2, ?_⟩
            by_contra hk
            obtain rfl : k = j + 1 := by omega
            exact before (Nat.succ_pos j) code.1
        have next := ih (i + 1) k (by omega) more before none_'
        rwa [show i + 1 - k = i - k + 1 by omega, show i + 1 + n = i + (n + 1) by omega] at next
    · rw [if_neg (by simpa using zero)]
      have none_' : ∀ j, j + 1 < i + 1 → ¬ CodeAt p j := fun j hj code => by
        rcases Nat.lt_or_ge (j + 1) i with lt | ge
        · exact none_ j lt code
        · obtain rfl : i = j + 1 := by omega
          exact zero code.2.1
      have next := ih (i + 1) (i + 1) le_rfl (fun j hk hj => absurd hk (by omega))
        (fun _ => by simpa using zero) none_'
      rwa [Nat.sub_self, show i + 1 + n = i + (n + 1) by omega] at next

/-- The parameter-set scan is longer than `m` only where the zeros behind the set begin further on. -/
theorem lt_paramSize_iff (p : Nat → UInt8) (w m : Nat) :
    m < paramSize p w 0 0 ↔ ∃ k, ZerosFrom p w k ∧ m < k := by
  have cases := paramSize_cases (p := p) w 0 0 le_rfl (fun j _ hj => absurd hj (Nat.not_lt_zero j))
    (fun h => absurd h (Nat.lt_irrefl 0)) (fun j hj => absurd hj (Nat.not_lt_zero _))
  rw [Nat.zero_add, Nat.sub_self] at cases
  rcases cases with zeros | ⟨none_, zero⟩
  · exact ⟨fun lt => ⟨_, zeros, lt⟩, fun ⟨k, h, lt⟩ => zeros.unique h ▸ lt⟩
  · rw [zero]
    exact ⟨fun lt => absurd lt (Nat.not_lt_zero m), fun ⟨k, h, _⟩ => absurd h (none_ k)⟩

theorem paramSize_lt (p : Nat → UInt8) (w : Nat) : paramSize p w 0 0 ≤ w := by
  by_contra h
  obtain ⟨k, ⟨i, first, le, _⟩, lt⟩ := (lt_paramSize_iff p w w).mp (Nat.lt_of_not_le h)
  have := first.1
  omega

end param

end En675.Rtsp
