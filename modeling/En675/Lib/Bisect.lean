import En675.Lib.While

/-! Bisection of an interval of numbers by a three-way comparison, which keeps the last point that was
found to be below. -/

namespace Lib

structure Span where
  start : Nat
  stop : Nat
  ans : Nat
  deriving DecidableEq, Repr

namespace Span

def isOpen (s : Span) : Bool := decide (s.start ≤ s.stop)

def mid (s : Span) : Nat := (s.start + s.stop) / 2

variable {s t : Span}

theorem isOpen_iff : s.isOpen = true ↔ s.start ≤ s.stop := decide_eq_true_iff

theorem isOpen_false : s.isOpen = false ↔ s.stop < s.start := by
  rw [isOpen, decide_eq_false_iff_not, Nat.not_le]

theorem start_le_mid (h : s.isOpen = true) : s.start ≤ s.mid := by
  have := isOpen_iff.1 h
  unfold mid
  omega

theorem mid_le_stop (h : s.isOpen = true) : s.mid ≤ s.stop := by
  have := isOpen_iff.1 h
  unfold mid
  omega

/-- The points that are left. -/
def width (s : Span) : Nat := s.stop + 1 - s.start

end Span

/-- One round, where `c m` says how `m` stands to what is looked for. -/
def halve (c : Nat → Ordering) (s : Span) : Round Span :=
  match c s.mid with
  | .eq => .stop { s with ans := s.mid }
  | .lt => .next { s with start := s.mid + 1, ans := s.mid }
  | .gt => .next { s with stop := s.mid - 1 }

section halve

variable {c : Nat → Ordering} {s t : Span}

theorem halve_eq (h : c s.mid = .eq) : halve c s = .stop { s with ans := s.mid } := by
  rw [halve, h]

theorem halve_lt (h : c s.mid = .lt) :
    halve c s = .next { s with start := s.mid + 1, ans := s.mid } := by
  rw [halve, h]

theorem halve_gt (h : c s.mid = .gt) : halve c s = .next { s with stop := s.mid - 1 } := by
  rw [halve, h]

theorem halve_congr {c' : Nat → Ordering} (h : c s.mid = c' s.mid) : halve c s = halve c' s := by
  unfold halve
  rw [h]

theorem halve_stop (h : halve c s = .stop t) : c s.mid = .eq ∧ t = { s with ans := s.mid } := by
  cases hc : c s.mid with
  | eq => exact ⟨rfl, (Round.stop.inj ((halve_eq hc).symm.trans h)).symm⟩
  | lt => cases (halve_lt hc).symm.trans h
  | gt => cases (halve_gt hc).symm.trans h

theorem halve_next (h : halve c s = .next t) :
    c s.mid = .lt ∧ t = { s with start := s.mid + 1, ans := s.mid } ∨
      c s.mid = .gt ∧ t = { s with stop := s.mid - 1 } := by
  cases hc : c s.mid with
  | eq => cases (halve_eq hc).symm.trans h
  | lt => exact .inl ⟨rfl, (Round.next.inj ((halve_lt hc).symm.trans h)).symm⟩
  | gt => exact .inr ⟨rfl, (Round.next.inj ((halve_gt hc).symm.trans h)).symm⟩

/-- The rounds of an open span tell the answers of the comparison apart. -/
theorem halve_inj {c' : Nat → Ordering} (o : s.isOpen = true) (h : halve c s = halve c' s) :
    c s.mid = c' s.mid := by
  have ne : s.start ≠ s.mid + 1 := Nat.ne_of_lt (Nat.lt_succ_of_le (Span.start_le_mid o))
  cases hb : halve c' s with
  | stop t => exact (halve_stop (h.trans hb)).1.trans (halve_stop hb).1.symm
  | next t =>
    rcases halve_next (h.trans hb) with ⟨hc, rfl⟩ | ⟨hc, rfl⟩ <;>
      rcases halve_next hb with ⟨hc', ht⟩ | ⟨hc', ht⟩
    · exact hc.trans hc'.symm
    · exact absurd (congrArg Span.start ht).symm ne
    · exact absurd (congrArg Span.start ht) ne
    · exact hc.trans hc'.symm

/-- Every round leaves fewer points. -/
theorem width_next (i : 0 < s.start) (o : s.isOpen = true) (h : halve c s = .next t) :
    t.width < s.width := by
  have lo := Span.start_le_mid o
  have hi := Span.mid_le_stop o
  rcases halve_next h with ⟨-, rfl⟩ | ⟨-, rfl⟩
  · simp only [Span.width]
    omega
  · simp only [Span.width]
    omega

theorem start_next (i : 0 < s.start) (h : halve c s = .next t) : 0 < t.start := by
  rcases halve_next h with ⟨-, rfl⟩ | ⟨-, rfl⟩
  · exact Nat.succ_pos _
  · exact i

/-- The search ends whatever the comparison. -/
theorem bisect_ends (i : 0 < s.start) (hn : s.width ≤ n) :
    ∃ t, whileDo Span.isOpen (halve c) n s = some t := by
  have rule : Variant Span.isOpen (halve c) (fun s => 0 < s.start) Span.width fun _ => True :=
    { exit := fun _ _ => trivial
      next := fun i o h => ⟨start_next i h, width_next i o h⟩
      stop := fun _ _ _ => trivial
      live := fun _ o => Nat.sub_pos_of_lt (Nat.lt_succ_of_le (Span.isOpen_iff.1 o)) }
  obtain ⟨t, ht, -⟩ := rule.total i hn
  exact ⟨t, ht⟩

/-- The answer is from then on no less than a point that was taken. -/
theorem bisect_le (b : s.ans < s.start) (h : whileDo Span.isOpen (halve c) n s = some t) :
    s.ans ≤ t.ans := by
  have rule : Keeps Span.isOpen (halve c) (fun u => s.ans ≤ u.ans ∧ u.ans < u.start) fun u => s.ans ≤ u.ans :=
    { exit := fun i _ => i.1
      next := by
        rintro u v ⟨le, lt⟩ o hb
        have mid := Span.start_le_mid o
        rcases halve_next hb with ⟨-, rfl⟩ | ⟨-, rfl⟩
        · exact ⟨Nat.le_trans le (Nat.le_trans (Nat.le_of_lt lt) mid), Nat.lt_succ_self _⟩
        · exact ⟨le, lt⟩
      stop := by
        rintro u v ⟨le, lt⟩ o hb
        obtain ⟨-, rfl⟩ := halve_stop hb
        exact Nat.le_trans le (Nat.le_trans (Nat.le_of_lt lt) (Span.start_le_mid o)) }
  exact rule.ends ⟨Nat.le_refl _, b⟩ h

section last

variable {P : Nat → Prop}

/-- The comparison tells where `P` ends. -/
structure Tells (c : Nat → Ordering) (P : Nat → Prop) : Prop where
  lt : ∀ {m}, c m = .lt → P m
  eq : ∀ {m}, c m = .eq → P m ∧ ¬P (m + 1)
  gt : ∀ {m}, c m = .gt → ¬P m

/-- The answer is below, and what is behind the interval is not. -/
structure Brackets (P : Nat → Prop) (s : Span) : Prop where
  below : P s.ans
  after : s.start = s.ans + 1
  above : ¬P (s.stop + 1)
  meets : s.start ≤ s.stop + 1

theorem Brackets.halve (h : Tells c P) (w : Brackets P s) (o : s.isOpen = true) (hb : halve c s = .next t) :
    Brackets P t := by
  have lo := Span.start_le_mid o
  have hi := Span.mid_le_stop o
  have pos : 0 < s.start := w.after ▸ Nat.succ_pos _
  rcases halve_next hb with ⟨hc, rfl⟩ | ⟨hc, rfl⟩
  · exact ⟨h.lt hc, rfl, w.above, Nat.succ_le_succ hi⟩
  · have back : s.mid - 1 + 1 = s.mid := Nat.sub_add_cancel (Nat.lt_of_lt_of_le pos lo)
    exact ⟨w.below, w.after, back.symm ▸ h.gt hc, back.symm ▸ lo⟩

/-- The answer is the last point of `P`. -/
theorem bisect_last (h : Tells c P) (w : Brackets P s) (hw : whileDo Span.isOpen (Lib.halve c) n s = some t) :
    P t.ans ∧ ¬P (t.ans + 1) := by
  have rule : Keeps Span.isOpen (Lib.halve c) (Brackets P) fun t => P t.ans ∧ ¬P (t.ans + 1) :=
    { exit := by
        intro s w o
        have last : s.ans + 1 = s.stop + 1 :=
          w.after.symm.trans (Nat.le_antisymm w.meets (Span.isOpen_false.1 o))
        exact ⟨w.below, last ▸ w.above⟩
      next := fun w o hb => w.halve h o hb
      stop := by
        intro s t _ _ hb
        obtain ⟨hc, rfl⟩ := halve_stop hb
        exact h.eq hc }
  exact rule.ends w hw

end last

end halve

end Lib
