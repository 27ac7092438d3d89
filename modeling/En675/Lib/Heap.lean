import Mathlib.Data.Multiset.Range
import Mathlib.Data.Finset.Range
import Mathlib.Logic.Equiv.Basic
import Mathlib.Order.Defs.LinearOrder

/-! Binary min-heaps on the first cells of an array, with the two sifts as loops.  The laws say
what the sifts do to the order and to the multiset of the cells. -/

universe u v

namespace Lib.Heap

variable {α : Type u}

def parent (i : Nat) : Nat := (i - 1) / 2

def left (i : Nat) : Nat := 2 * i + 1

theorem parent_lt (h : 0 < i) : parent i < i := by
  unfold parent
  omega

theorem parent_eq_iff (h : 0 < j) : parent j = i ↔ j = left i ∨ j = left i + 1 := by
  unfold parent left
  omega

section cells

def swap (f : Nat → α) (i j : Nat) : Nat → α := Function.update (Function.update f i (f j)) j (f i)

theorem swap_apply (f : Nat → α) (i j k : Nat) :
    swap f i j k = if k = j then f i else if k = i then f j else f k := by
  simp only [swap, Function.update_apply]

@[simp] theorem swap_left (f : Nat → α) (i j : Nat) : swap f i j i = f j := by
  rw [swap_apply]
  split
  · rename_i h
    rw [h]
  · rw [if_pos rfl]

@[simp] theorem swap_right (f : Nat → α) (i j : Nat) : swap f i j j = f i := by
  rw [swap_apply, if_pos rfl]

theorem swap_other (f : Nat → α) (hi : k ≠ i) (hj : k ≠ j) : swap f i j k = f k := by
  rw [swap_apply, if_neg hj, if_neg hi]

theorem swap_eq_comp (f : Nat → α) (i j : Nat) : swap f i j = f ∘ Equiv.swap i j := by
  funext k
  rw [swap_apply, Function.comp_apply, Equiv.swap_apply_def]
  split
  · rename_i h
    split
    · rename_i hi
      rw [← h, hi]
    · rfl
  · split <;> rfl

/-- What the first `n` cells hold. -/
def contents (f : Nat → α) (n : Nat) : Multiset α := (Multiset.range n).map f

@[simp] theorem contents_zero (f : Nat → α) : contents f 0 = 0 := rfl

@[simp] theorem contents_succ (f : Nat → α) (n : Nat) : contents f (n + 1) = f n ::ₘ contents f n := by
  rw [contents, Multiset.range_succ, Multiset.map_cons, contents]

theorem mem_contents {f : Nat → α} : a ∈ contents f n ↔ ∃ i < n, f i = a := by
  simp only [contents, Multiset.mem_map, Multiset.mem_range]

theorem contents_congr {f g : Nat → α} (h : ∀ i < n, f i = g i) : contents f n = contents g n :=
  Multiset.map_congr rfl fun i hi => h i (Multiset.mem_range.mp hi)

theorem card_contents (f : Nat → α) (n : Nat) : (contents f n).card = n := by
  rw [contents, Multiset.card_map, Multiset.card_range]

theorem range_swap (hi : i < n) (hj : j < n) :
    (Multiset.range n).map (Equiv.swap i j) = Multiset.range n := by
  have keeps {k : Nat} (hk : k < n) : Equiv.swap i j k < n := by
    rw [Equiv.swap_apply_def]
    split
    · exact hj
    · split
      · exact hi
      · exact hk
  refine (Multiset.Nodup.ext ?_ (Multiset.nodup_range n)).mpr fun k => ?_
  · exact (Multiset.nodup_range n).map (Equiv.swap i j).injective
  · rw [Multiset.mem_map, Multiset.mem_range]
    constructor
    · rintro ⟨l, hl, rfl⟩
      exact keeps (Multiset.mem_range.mp hl)
    · intro hk
      exact ⟨Equiv.swap i j k, Multiset.mem_range.mpr (keeps hk), Equiv.swap_apply_self i j k⟩

theorem contents_swap (f : Nat → α) (hi : i < n) (hj : j < n) :
    contents (swap f i j) n = contents f n := by
  rw [contents, contents, swap_eq_comp, ← Multiset.map_map, range_swap hi hj]

end cells

section sifts

variable (before : α → α → Bool)

/-- Lets the cell at `i` rise. -/
def siftUp : Nat → (Nat → α) → Nat → Nat → α
  | 0, f, _ => f
  | fuel + 1, f, i =>
    if 0 < i ∧ before (f i) (f (parent i)) then siftUp fuel (swap f i (parent i)) (parent i) else f

/-- The lesser child of `i`, the left one on a tie. -/
def child (f : Nat → α) (n i : Nat) : Nat :=
  if n ≤ left i + 1 then left i
  else if before (f (left i + 1)) (f (left i)) then left i + 1 else left i

/-- Lets the cell at `i` sink. -/
def siftDown : Nat → (Nat → α) → Nat → Nat → Nat → α
  | 0, f, _, _ => f
  | fuel + 1, f, n, i =>
    if n ≤ left i then f
    else if before (f (child before f n i)) (f i) then
      siftDown fuel (swap f i (child before f n i)) n (child before f n i)
    else f

variable {before} {f : Nat → α}

theorem child_cases (before : α → α → Bool) (f : Nat → α) (n i : Nat) :
    child before f n i = left i ∨ child before f n i = left i + 1 ∧ left i + 1 < n := by
  unfold child
  split
  · exact .inl rfl
  · split
    · exact .inr ⟨rfl, by omega⟩
    · exact .inl rfl

theorem child_lt (h : ¬ n ≤ left i) : child before f n i < n := by
  rcases child_cases before f n i with hc | ⟨hc, lt⟩ <;> rw [hc] <;> omega

theorem lt_child (before : α → α → Bool) (f : Nat → α) (n i : Nat) : i < child before f n i := by
  rcases child_cases before f n i with hc | ⟨hc, _⟩ <;> rw [hc, left] <;> omega

theorem parent_child (before : α → α → Bool) (f : Nat → α) (n i : Nat) :
    parent (child before f n i) = i := by
  rw [parent_eq_iff (Nat.zero_lt_of_lt (lt_child before f n i))]
  exact (child_cases before f n i).imp id And.left

theorem siftUp_above (fuel : Nat) (hk : i < k) : siftUp before fuel f i k = f k := by
  induction fuel generalizing f i with
  | zero => rfl
  | succ fuel ih =>
    rw [siftUp]
    split
    · rename_i h
      have below := parent_lt h.1
      rw [ih (by omega), swap_other f (by omega) (by omega)]
    · rfl

theorem siftUp_contents (fuel : Nat) (hi : i < n) :
    contents (siftUp before fuel f i) n = contents f n := by
  induction fuel generalizing f i with
  | zero => rfl
  | succ fuel ih =>
    rw [siftUp]
    split
    · rename_i h
      have below := parent_lt h.1
      rw [ih (by omega), contents_swap f hi (by omega)]
    · rfl

theorem siftDown_above (fuel : Nat) (hi : i < n) (hk : n ≤ k) : siftDown before fuel f n i k = f k := by
  induction fuel generalizing f i with
  | zero => rfl
  | succ fuel ih =>
    rw [siftDown]
    split
    · rfl
    · rename_i hl
      have inside : child before f n i < n := child_lt hl
      split
      · rw [ih inside, swap_other f (by omega) (by omega)]
      · rfl

theorem siftDown_contents (fuel : Nat) (hi : i < n) :
    contents (siftDown before fuel f n i) n = contents f n := by
  induction fuel generalizing f i with
  | zero => rfl
  | succ fuel ih =>
    rw [siftDown]
    split
    · rfl
    · rename_i hl
      have inside : child before f n i < n := child_lt hl
      split
      · rw [ih inside, contents_swap f hi inside]
      · rfl

end sifts

section order

variable {κ : Type v} [LinearOrder κ] (key : α → κ)

/-- No cell is less than its parent. -/
def Ordered (f : Nat → α) (n : Nat) : Prop :=
  ∀ i, 0 < i → i < n → key (f (parent i)) ≤ key (f i)

/-- In order but for the edge into `i`. -/
structure Rising (f : Nat → α) (n i : Nat) : Prop where
  others : ∀ j, 0 < j → j < n → j ≠ i → key (f (parent j)) ≤ key (f j)
  grand : 0 < i → ∀ j, 0 < j → j < n → parent j = i → key (f (parent i)) ≤ key (f j)

/-- In order but for the edges out of `i`. -/
structure Sinking (f : Nat → α) (n i : Nat) : Prop where
  others : ∀ j, 0 < j → j < n → parent j ≠ i → key (f (parent j)) ≤ key (f j)
  grand : 0 < i → ∀ j, 0 < j → j < n → parent j = i → key (f (parent i)) ≤ key (f j)

variable {key} {f : Nat → α} {before : α → α → Bool}

theorem Ordered.root_le (h : Ordered key f n) (i : Nat) (hi : i < n) : key (f 0) ≤ key (f i) := by
  induction i using Nat.strongRecOn with
  | ind i ih =>
    by_cases h0 : i = 0
    · rw [h0]
    · have pos : 0 < i := Nat.pos_of_ne_zero h0
      have below := parent_lt pos
      exact (ih (parent i) below (below.trans hi)).trans (h i pos hi)

theorem Ordered.root_minimal (h : Ordered key f n) (ha : a ∈ contents f n) : key (f 0) ≤ key a := by
  obtain ⟨i, hi, rfl⟩ := mem_contents.mp ha
  exact h.root_le i hi

/-- The smaller of `i` and its parent goes up. -/
theorem Rising.swap (h : Rising key f n i) (hi : i < n) (pos : 0 < i)
    (lt : key (f i) < key (f (parent i))) : Rising key (swap f i (parent i)) n (parent i) where
  others j jpos hj hne := by
    have below := parent_lt pos
    by_cases hji : j = i
    · subst hji
      rw [swap_left, swap_right]
      exact le_of_lt lt
    · rw [swap_other f hji hne]
      by_cases hpi : parent j = i
      · rw [hpi, swap_left]
        exact h.grand pos j jpos hj hpi
      · by_cases hpp : parent j = parent i
        · rw [hpp, swap_right]
          exact (le_of_lt lt).trans (hpp ▸ h.others j jpos hj hji)
        · rw [swap_other f hpi hpp]
          exact h.others j jpos hj hji
  grand ppos j jpos hj hp := by
    have below := parent_lt pos
    have higher := parent_lt ppos
    have upper : key (f (parent (parent i))) ≤ key (f (parent i)) :=
      h.others (parent i) ppos (by omega) (by omega)
    rw [swap_other f (by omega) (by omega)]
    by_cases hji : j = i
    · subst hji
      rw [swap_left]
      exact upper
    · have hjp : j ≠ parent i := by
        have := parent_lt jpos
        omega
      rw [swap_other f hji hjp]
      exact upper.trans (hp ▸ h.others j jpos hj hji)

theorem Rising.ordered (h : Rising key f n i) (stop : 0 < i → key (f (parent i)) ≤ key (f i)) :
    Ordered key f n := by
  intro j jpos hj
  by_cases hji : j = i
  · subst hji
    exact stop jpos
  · exact h.others j jpos hj hji

theorem siftUp_ordered (hb : ∀ a b, before a b = true ↔ key a < key b) (fuel : Nat) (hf : i ≤ fuel)
    (hi : i < n) (h : Rising key f n i) : Ordered key (siftUp before fuel f i) n := by
  induction fuel generalizing f i with
  | zero => exact h.ordered fun pos => by omega
  | succ fuel ih =>
    rw [siftUp]
    split
    · rename_i hc
      have below := parent_lt hc.1
      exact ih (by omega) (by omega) (h.swap hi hc.1 ((hb _ _).mp hc.2))
    · rename_i hc
      refine h.ordered fun pos => not_lt.mp fun lt => hc ⟨pos, (hb _ _).mpr lt⟩

theorem child_le (hb : ∀ a b, before a b = true ↔ key a < key b) (jpos : 0 < j) (hj : j < n)
    (hp : parent j = i) : key (f (child before f n i)) ≤ key (f j) := by
  unfold child
  rcases (parent_eq_iff jpos).mp hp with rfl | rfl
  · split
    · exact le_rfl
    · split
      · rename_i hc
        exact le_of_lt ((hb _ _).mp hc)
      · exact le_rfl
  · rw [if_neg (by omega)]
    split
    · exact le_rfl
    · rename_i hc
      exact not_lt.mp fun lt => hc ((hb _ _).mpr lt)

theorem Sinking.swap (hb : ∀ a b, before a b = true ↔ key a < key b) (h : Sinking key f n i)
    (hl : ¬ n ≤ left i) (lt : key (f (child before f n i)) < key (f i)) :
    Sinking key (swap f i (child before f n i)) n (child before f n i) := by
  have inside : child before f n i < n := child_lt hl
  have least (j : Nat) (jpos : 0 < j) (hj : j < n) (hp : parent j = i) :
      key (f (child before f n i)) ≤ key (f j) := child_le hb jpos hj hp
  have deeper := lt_child before f n i
  have up := parent_child before f n i
  generalize child before f n i = c at *
  refine ⟨fun j jpos hj hne => ?_, fun cpos j jpos hj hp => ?_⟩
  · by_cases hjc : j = c
    · subst hjc
      rw [up, swap_left, swap_right]
      exact le_of_lt lt
    · by_cases hji : j = i
      · subst hji
        have below := parent_lt jpos
        rw [swap_left, swap_other f (by omega) (by omega)]
        exact h.grand jpos c (Nat.zero_lt_of_lt deeper) inside up
      · rw [swap_other f hji hjc]
        by_cases hpi : parent j = i
        · rw [hpi, swap_left]
          exact least j jpos hj hpi
        · rw [swap_other f hpi hne]
          exact h.others j jpos hj hpi
  · have below := parent_lt jpos
    rw [up, swap_left, swap_other f (by omega) (by omega)]
    exact hp ▸ h.others j jpos hj (by omega)

theorem Sinking.ordered (h : Sinking key f n i)
    (stop : ∀ j, 0 < j → j < n → parent j = i → key (f i) ≤ key (f j)) : Ordered key f n := by
  intro j jpos hj
  by_cases hp : parent j = i
  · rw [hp]
    exact stop j jpos hj hp
  · exact h.others j jpos hj hp

theorem siftDown_ordered (hb : ∀ a b, before a b = true ↔ key a < key b) (fuel : Nat)
    (hf : n ≤ fuel + i) (h : Sinking key f n i) : Ordered key (siftDown before fuel f n i) n := by
  induction fuel generalizing f i with
  | zero =>
    refine h.ordered fun j jpos hj hp => ?_
    have := (parent_eq_iff jpos).mp hp
    unfold left at this
    omega
  | succ fuel ih =>
    rw [siftDown]
    split
    · rename_i hl
      refine h.ordered fun j jpos hj hp => ?_
      have := (parent_eq_iff jpos).mp hp
      omega
    · rename_i hl
      have deeper := lt_child before f n i
      split
      · rename_i hc
        exact ih (by omega) (h.swap hb hl ((hb _ _).mp hc))
      · rename_i hc
        refine h.ordered fun j jpos hj hp => ?_
        have stop := not_lt.mp fun lt => hc ((hb _ _).mpr lt)
        exact stop.trans (child_le hb jpos hj hp)

end order

end Lib.Heap
