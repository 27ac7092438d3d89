import Mathlib.Algebra.BigOperators.Group.Finset.Basic
import En675.Isp.AeCtrl

/-! The position of the shutter: a line of exposure, and how far it is into the next. -/

namespace En675.Isp

open Lib

theorem linePos_ge (h : v ≤ 65536) : 1024 ≤ linePos v := by
  unfold linePos
  split
  · decide
  · rename_i two
    exact (Int.le_ediv_iff_mul_le (by omega)).2 (by omega)

namespace Sht

/-- The place in time, with the cached weights of the current and the next line. -/
def line (s : Sht) : Int × Int × Int × Int := (s.giShtPos, s.giShtVal, s.giShtPosN, s.giShtPosP)

/-- The weights of all lines up to the current one, and the position in the next. -/
def absolute (s : Sht) : Int := ∑ v ∈ Finset.range (s.giShtVal.toNat + 1), linePos v + s.giShtPos

/-- The caches are those of the line, and the position is in it. -/
structure Positioned (s : Sht) : Prop where
  posN : s.giShtPosN = linePos s.giShtVal
  posP : s.giShtPosP = linePos (s.giShtVal + 1)
  nonneg : 0 ≤ s.giShtPos
  lt : s.giShtPos < s.giShtPosP

/-- A manual value may be out of all limits. -/
def Cached (s : Sht) : Prop :=
  s.giShtPosN = linePos s.giShtVal ∧ s.giShtPosP = linePos (s.giShtVal + 1) ∧
    (s.giShtVal ≤ 65535 → s.Positioned)

/-- The call sets the shutter to another value. -/
def Sets (s : Sht) (c : ShtCall) : Prop := s.Limits c ∧ s.giShtVal ≠ s.valNew c

instance (s : Sht) (c : ShtCall) : Decidable (s.Sets c) := inferInstanceAs (Decidable (_ ∧ _))

/-- What an automatic call does, given where it finds the shutter: nothing, a move by `errPos`, or a
move up to a stop. -/
structure Moves (p : AePar) (c : ShtCall) (errPos : Int) (u t : Sht) : Prop where
  positioned : t.Positioned
  ge : c.aiShtMin ≤ t.giShtVal
  le : t.giShtVal ≤ c.aiShtMax
  by_ : t.line = u.line ∨ t.absolute = u.absolute + errPos ∨
    t.giShtPos = 0 ∧
      (t.giShtVal = c.aiShtMin ∨ t.giShtVal = c.aiShtMax ∨ t.giShtVal = p.giVHssAgcTblEa)
  up : 0 ≤ errPos → u.giShtVal ≤ t.giShtVal ∧
    (u.giShtVal < p.giVHssAgcTblEa → t.giShtVal ≤ p.giVHssAgcTblEa)
  down : errPos < 0 → t.giShtVal ≤ u.giShtVal ∧
    (p.giVHssAgcTblEa < u.giShtVal → p.giVHssAgcTblEa ≤ t.giShtVal)

end Sht

/-- The limits of an automatic call. -/
structure ShtCall.Bounded (c : ShtCall) : Prop where
  one_le : 1 ≤ c.aiShtMin
  le : c.aiShtMin ≤ c.aiShtMax
  le_max : c.aiShtMax ≤ 65535

namespace Sht

variable {p : AePar} {c : ShtCall} {s t u : Sht} {e : Int}

section line

theorem Positioned.of_line (h : s.Positioned) (same : t.line = s.line) : t.Positioned := by
  simp only [line, Prod.mk.injEq] at same
  obtain ⟨pos, val, posN, posP⟩ := same
  exact ⟨by rw [posN, val, h.posN], by rw [posP, val, h.posP], pos ▸ h.nonneg, by rw [pos, posP]; exact h.lt⟩

theorem absolute_of_line (same : t.line = s.line) : t.absolute = s.absolute := by
  simp only [line, Prod.mk.injEq] at same
  rw [absolute, absolute, same.1, same.2.1]

/-- One line up. -/
theorem lines_succ (h : 0 ≤ v) :
    ∑ w ∈ Finset.range ((v + 1).toNat + 1), linePos w =
      ∑ w ∈ Finset.range (v.toNat + 1), linePos w + linePos (v + 1) := by
  have next : (v + 1).toNat = v.toNat + 1 := by omega
  have same : ((v.toNat + 1 : Nat) : Int) = v + 1 := by omega
  rw [next, Finset.sum_range_succ _ (v.toNat + 1), same]

@[simp] theorem finish_line (err estNew : Int) (on : Bool) (g : Agc) :
    (s.finish p c err estNew on g).1.line = s.line := rfl

@[simp] theorem release_line (val1d est : Int) : (s.release p c val1d est).1.line = s.line := by
  unfold release
  dsimp only
  split
  · rfl
  · split <;> rfl

end line

section limit

theorem setVal_positioned (s : Sht) (h : v ≤ 65535) : (s.setVal p v).Positioned := by
  have ge : 1024 ≤ linePos (v + 1) := linePos_ge (by omega)
  refine ⟨rfl, rfl, ?_, ?_⟩
  · change 0 ≤ linePos (v + 1) / 2
    omega
  · change linePos (v + 1) / 2 < linePos (v + 1)
    omega

theorem setVal_cached (s : Sht) (v : Int) : (s.setVal p v).Cached :=
  ⟨rfl, rfl, fun h => setVal_positioned s h⟩

/-- The block leaves the shutter alone, or sets it. -/
theorem limit_line (s : Sht) :
    (s.limit p c).line = if s.Sets c then (s.setVal p (s.valNew c)).line else s.line := by
  unfold limit
  by_cases limits : s.Limits c
  · rw [if_pos limits]
    by_cases other : s.giShtVal ≠ s.valNew c
    · have sets : s.Sets c := ⟨limits, other⟩
      rw [if_pos other, if_pos sets]
      rfl
    · rw [if_neg other, if_neg fun sets : s.Sets c => other sets.2]
      rfl
  · rw [if_neg limits, if_neg fun sets : s.Sets c => limits sets.1]

theorem Cached.of_line (h : s.Cached) (same : t.line = s.line) : t.Cached := by
  have fields := same
  simp only [line, Prod.mk.injEq] at fields
  obtain ⟨-, val, posN, posP⟩ := fields
  exact ⟨by rw [posN, val, h.1], by rw [posP, val, h.2.1], fun le => (h.2.2 (val ▸ le)).of_line same⟩

theorem Positioned.cached (h : s.Positioned) : s.Cached := ⟨h.posN, h.posP, fun _ => h⟩

theorem limit_cached (h : s.Cached ∨ s.Sets c) : (s.limit p c).Cached := by
  have same := limit_line (p := p) (c := c) s
  by_cases sets : s.Sets c
  · rw [if_pos sets] at same
    exact (setVal_cached s _).of_line same
  · rw [if_neg sets] at same
    exact (h.resolve_right sets).of_line same

/-- Behind the block of an automatic call the shutter is within the limits. -/
theorem limit_bounds (auto_ : c.aiShtManual = 0) (le : c.aiShtMin ≤ c.aiShtMax) :
    c.aiShtMin ≤ (s.limit p c).giShtVal ∧ (s.limit p c).giShtVal ≤ c.aiShtMax := by
  have val : (s.limit p c).giShtVal = if s.Sets c then s.valNew c else s.giShtVal := by
    have same := limit_line (p := p) (c := c) s
    split at same
    · rename_i sets
      rw [if_pos sets]
      exact congrArg (·.2.1) same
    · rename_i sets
      rw [if_neg sets]
      exact congrArg (·.2.1) same
  rw [val]
  by_cases low : s.giShtVal < c.aiShtMin
  · have new : s.valNew c = c.aiShtMin := by rw [valNew, if_neg (not_not.2 auto_), if_pos low]
    rw [if_pos ⟨.inr (.inl low), by omega⟩, new]
    exact ⟨le_rfl, le⟩
  · by_cases high : c.aiShtMax < s.giShtVal
    · have new : s.valNew c = c.aiShtMax := by rw [valNew, if_neg (not_not.2 auto_), if_neg low]
      rw [if_pos ⟨.inr (.inr high), by omega⟩, new]
      exact ⟨le, le_rfl⟩
    · rw [if_neg fun sets : s.Sets c => sets.1.elim (absurd auto_) fun out => out.elim low high]
      exact ⟨by omega, by omega⟩

end limit

section up

/-- What the loop that moves up keeps, from the start `u` with the position raised by `e`. -/
structure Rising (p : AePar) (c : ShtCall) (u : Sht) (e : Int) (s : Sht) : Prop where
  posP : s.giShtPosP = linePos (s.giShtVal + 1)
  nonneg : 0 ≤ s.giShtPos
  absolute : s.absolute = u.absolute + e
  ge : u.giShtVal ≤ s.giShtVal
  lt : s.giShtVal < c.aiShtMax
  passes : u.giShtVal < p.giVHssAgcTblEa → s.giShtVal < p.giVHssAgcTblEa

/-- Behind it, but for the weight of the current line. -/
structure Risen (p : AePar) (c : ShtCall) (u : Sht) (e : Int) (s : Sht) : Prop where
  posP : s.giShtPosP = linePos (s.giShtVal + 1)
  nonneg : 0 ≤ s.giShtPos
  pos_lt : s.giShtPos < s.giShtPosP
  ge : u.giShtVal ≤ s.giShtVal
  le : s.giShtVal ≤ c.aiShtMax
  by_ : s.absolute = u.absolute + e ∨
    s.giShtPos = 0 ∧ (s.giShtVal = c.aiShtMax ∨ s.giShtVal = p.giVHssAgcTblEa)
  passes : u.giShtVal < p.giVHssAgcTblEa → s.giShtVal ≤ p.giVHssAgcTblEa

/-- A line up and its weight off the position leave the absolute position as it is. -/
theorem absolute_up (hv : 0 ≤ s.giShtVal) (posP : s.giShtPosP = linePos (s.giShtVal + 1))
    (val : t.giShtVal = s.giShtVal + 1) (pos : t.giShtPos = s.giShtPos - s.giShtPosP) :
    t.absolute = s.absolute := by
  rw [absolute, absolute, val, pos, lines_succ hv, posP]
  omega

theorem rising_variant (bounded : c.Bounded) (one : 1 ≤ u.giShtVal) :
    Variant (fun s => decide (s.giShtPosP ≤ s.giShtPos)) (upRound p c) (Rising p c u e)
      (fun s => (c.aiShtMax - s.giShtVal).toNat) (Risen p c u e) where
  exit h out := by
    have lt : _ < _ := not_le.1 (of_decide_eq_false out)
    exact ⟨h.posP, h.nonneg, lt, h.ge, h.lt.le, .inl h.absolute, fun below => (h.passes below).le⟩
  next {s t} h more hb := by
    have more := of_decide_eq_true more
    have ge := h.ge
    have lt := h.lt
    unfold upRound at hb
    dsimp only at hb
    split at hb
    · cases hb
    · rename_i on
      obtain rfl := Round.next.inj hb
      refine ⟨⟨rfl, ?_, ?_, ?_, ?_, fun below => ?_⟩, ?_⟩
      · change 0 ≤ s.giShtPos - s.giShtPosP
        omega
      · rw [← h.absolute]
        exact absolute_up (by omega) h.posP rfl rfl
      · change u.giShtVal ≤ s.giShtVal + 1
        omega
      · change s.giShtVal + 1 < c.aiShtMax
        omega
      · have passes := h.passes below
        change s.giShtVal + 1 < p.giVHssAgcTblEa
        omega
      · change (c.aiShtMax - (s.giShtVal + 1)).toNat < (c.aiShtMax - s.giShtVal).toNat
        omega
  stop {s t} h more hb := by
    have ge := h.ge
    have lt := h.lt
    have top := bounded.le_max
    unfold upRound at hb
    dsimp only at hb
    split at hb
    · rename_i stops
      obtain rfl := Round.stop.inj hb
      have weight : 1024 ≤ linePos (s.giShtVal + 1 + 1) := linePos_ge (by omega)
      refine ⟨rfl, le_rfl, ?_, ?_, ?_, .inr ⟨rfl, stops⟩, fun below => ?_⟩
      · change 0 < linePos (s.giShtVal + 1 + 1)
        omega
      · change u.giShtVal ≤ s.giShtVal + 1
        omega
      · change s.giShtVal + 1 ≤ c.aiShtMax
        omega
      · have passes := h.passes below
        change s.giShtVal + 1 ≤ p.giVHssAgcTblEa
        omega
    · cases hb
  live {s} h _ := by
    have lt := h.lt
    change 0 < (c.aiShtMax - s.giShtVal).toNat
    omega

theorem Risen.moves (h : Risen p c u e s) (min : c.aiShtMin ≤ u.giShtVal) (nonneg : 0 ≤ e) :
    Moves p c e u { s with giShtPosN := linePos s.giShtVal } where
  positioned := ⟨rfl, h.posP, h.nonneg, h.pos_lt⟩
  ge := min.trans h.ge
  le := h.le
  by_ := by
    rcases h.by_ with exact_ | ⟨pos, stop⟩
    · exact .inr (.inl exact_)
    · exact .inr (.inr ⟨pos, .inr stop⟩)
  up _ := ⟨h.ge, h.passes⟩
  down neg := absurd nonneg (not_le.2 neg)

theorem up_moves (bounded : c.Bounded) (h : u.Positioned) (min : c.aiShtMin ≤ u.giShtVal)
    (max : u.giShtVal < c.aiShtMax) (nonneg : 0 ≤ e) (fuel : Nat) (enough : 65535 ≤ fuel) :
    ∃ t, u.up p c fuel e = some t ∧ Moves p c e u t := by
  have one := bounded.one_le
  have top := bounded.le_max
  have pos := h.nonneg
  have start : Rising p c u e { u with giShtPos := u.giShtPos + e } := by
    refine ⟨h.posP, ?_, ?_, le_rfl, max, id⟩
    · change 0 ≤ u.giShtPos + e
      omega
    · exact (add_assoc _ _ _).symm
  have rounds : (c.aiShtMax - u.giShtVal).toNat ≤ fuel := by omega
  obtain ⟨s, hs, risen⟩ := (rising_variant bounded (one.trans min)).total start rounds
  exact ⟨_, congrArg _ hs, risen.moves min nonneg⟩

end up

section down

/-- What the loop that moves down keeps. -/
structure Falling (p : AePar) (c : ShtCall) (u : Sht) (e : Int) (s : Sht) : Prop where
  posN : s.giShtPosN = linePos s.giShtVal
  lt : s.giShtPos < linePos (s.giShtVal + 1)
  absolute : s.absolute = u.absolute + e
  le : s.giShtVal ≤ u.giShtVal
  ge : c.aiShtMin ≤ s.giShtVal
  passes : p.giVHssAgcTblEa < u.giShtVal → p.giVHssAgcTblEa < s.giShtVal

/-- Behind it, but for the weight of the next line: the position is below zero at most at the
minimum. -/
structure Fallen (p : AePar) (c : ShtCall) (u : Sht) (e : Int) (s : Sht) : Prop where
  posN : s.giShtPosN = linePos s.giShtVal
  lt : s.giShtPos < linePos (s.giShtVal + 1)
  nonneg : c.aiShtMin < s.giShtVal → 0 ≤ s.giShtPos
  le : s.giShtVal ≤ u.giShtVal
  ge : c.aiShtMin ≤ s.giShtVal
  by_ : s.absolute = u.absolute + e ∨ s.giShtPos = 0 ∧ s.giShtVal = p.giVHssAgcTblEa
  passes : p.giVHssAgcTblEa < u.giShtVal → p.giVHssAgcTblEa ≤ s.giShtVal

/-- A line down and its weight onto the position leave the absolute position as it is. -/
theorem absolute_down (hv : 1 ≤ s.giShtVal) (posN : s.giShtPosN = linePos s.giShtVal)
    (val : t.giShtVal = s.giShtVal - 1) (pos : t.giShtPos = s.giShtPos + s.giShtPosN) :
    t.absolute = s.absolute := by
  have below := lines_succ (v := s.giShtVal - 1) (by omega)
  rw [sub_add_cancel] at below
  rw [absolute, absolute, val, pos, below, posN]
  omega

theorem falling_variant (bounded : c.Bounded) (top : u.giShtVal ≤ 65535) :
    Variant (fun s => decide (c.aiShtMin < s.giShtVal ∧ s.giShtPos < 0)) (downRound p) (Falling p c u e)
      (fun s => (s.giShtVal - c.aiShtMin).toNat) (Fallen p c u e) where
  exit h out := by
    have out := of_decide_eq_false out
    exact ⟨h.posN, h.lt, fun above => by omega, h.le, h.ge, .inl h.absolute, fun above => (h.passes above).le⟩
  next {s t} h more hb := by
    obtain ⟨above, neg⟩ := of_decide_eq_true more
    have le := h.le
    have one := bounded.one_le
    have posN := h.posN
    unfold downRound at hb
    dsimp only at hb
    split at hb
    · cases hb
    · rename_i on
      obtain rfl := Round.next.inj hb
      refine ⟨⟨rfl, ?_, ?_, ?_, ?_, fun over_ => ?_⟩, ?_⟩
      · change s.giShtPos + s.giShtPosN < linePos (s.giShtVal - 1 + 1)
        rw [sub_add_cancel]
        omega
      · rw [← h.absolute]
        exact absolute_down (by omega) h.posN rfl rfl
      · change s.giShtVal - 1 ≤ u.giShtVal
        omega
      · change c.aiShtMin ≤ s.giShtVal - 1
        omega
      · have passes := h.passes over_
        change p.giVHssAgcTblEa < s.giShtVal - 1
        omega
      · change (s.giShtVal - 1 - c.aiShtMin).toNat < (s.giShtVal - c.aiShtMin).toNat
        omega
  stop {s t} h more hb := by
    obtain ⟨above, neg⟩ := of_decide_eq_true more
    have le := h.le
    unfold downRound at hb
    dsimp only at hb
    split at hb
    · rename_i stops
      obtain rfl := Round.stop.inj hb
      have weight : 1024 ≤ linePos (s.giShtVal - 1 + 1) := linePos_ge (by omega)
      refine ⟨rfl, ?_, fun _ => le_rfl, ?_, ?_, .inr ⟨rfl, stops⟩, fun over_ => ?_⟩
      · change 0 < linePos (s.giShtVal - 1 + 1)
        omega
      · change s.giShtVal - 1 ≤ u.giShtVal
        omega
      · change c.aiShtMin ≤ s.giShtVal - 1
        omega
      · have passes := h.passes over_
        change p.giVHssAgcTblEa ≤ s.giShtVal - 1
        omega
    · cases hb
  live {s} _ more := by
    obtain ⟨above, -⟩ := of_decide_eq_true more
    omega

theorem Fallen.moves (h : Fallen p c u e s) (max : u.giShtVal ≤ c.aiShtMax) (top : u.giShtVal ≤ 65535)
    (neg : e < 0) : Moves p c e u (floor p c s) := by
  have le := h.le
  have weight : 1024 ≤ linePos (s.giShtVal + 1) := linePos_ge (by omega)
  unfold floor
  by_cases stop : s.giShtVal = c.aiShtMin ∧ s.giShtPos < 0
  · rw [if_pos stop]
    exact
      { positioned := ⟨h.posN, rfl, le_rfl, (by decide : (0 : Int) < 1024).trans_le weight⟩
        ge := h.ge
        le := le.trans max
        by_ := .inr (.inr ⟨rfl, .inl stop.1⟩)
        up := fun nonneg => absurd neg (not_lt.2 nonneg)
        down := fun _ => ⟨le, h.passes⟩ }
  · rw [if_neg stop]
    have nonneg : 0 ≤ s.giShtPos := by
      by_contra below
      have at_ : s.giShtVal = c.aiShtMin := by
        by_contra other
        have ge := h.ge
        exact below (h.nonneg (by omega))
      exact stop ⟨at_, not_le.1 below⟩
    refine
      { positioned := ⟨h.posN, rfl, nonneg, h.lt⟩
        ge := h.ge
        le := le.trans max
        by_ := .inr ?_
        up := fun nonneg => absurd neg (not_lt.2 nonneg)
        down := fun _ => ⟨le, h.passes⟩ }
    exact h.by_.imp id fun stop => ⟨stop.1, .inr (.inr stop.2)⟩

theorem down_moves (bounded : c.Bounded) (h : u.Positioned) (min : c.aiShtMin ≤ u.giShtVal)
    (max : u.giShtVal ≤ c.aiShtMax) (neg : e < 0) (fuel : Nat) (enough : 65535 ≤ fuel) :
    ∃ t, u.down p c fuel e = some t ∧ Moves p c e u t := by
  have one := bounded.one_le
  have top := bounded.le_max
  have lt := h.posP ▸ h.lt
  have start : Falling p c u e { u with giShtPos := u.giShtPos + e } := by
    refine ⟨h.posN, ?_, ?_, le_rfl, min, id⟩
    · change u.giShtPos + e < linePos (u.giShtVal + 1)
      omega
    · exact (add_assoc _ _ _).symm
  have rounds : (u.giShtVal - c.aiShtMin).toNat ≤ fuel := by omega
  obtain ⟨s, hs, fallen⟩ := (falling_variant bounded (max.trans top)).total start rounds
  exact ⟨_, congrArg _ hs, fallen.moves max (max.trans top) neg⟩

end down

section call

theorem Positioned.stays (h : u.Positioned) (min : c.aiShtMin ≤ u.giShtVal) (max : u.giShtVal ≤ c.aiShtMax)
    (same : t.line = u.line) : Moves p c e u t := by
  have val : t.giShtVal = u.giShtVal := congrArg (·.2.1) same
  exact ⟨h.of_line same, val ▸ min, val ▸ max, .inl same, fun _ => ⟨val.ge, fun below => val ▸ below.le⟩,
    fun _ => ⟨val.le, fun above => val ▸ above.le⟩⟩

theorem Moves.of_line (h : Moves p c e u t) (same : s.line = t.line) : Moves p c e u s := by
  have val : s.giShtVal = t.giShtVal := congrArg (·.2.1) same
  have pos : s.giShtPos = t.giShtPos := congrArg (·.1) same
  refine ⟨h.positioned.of_line same, val ▸ h.ge, val ▸ h.le, ?_, val ▸ h.up, val ▸ h.down⟩
  rw [same, absolute_of_line same, pos, val]
  exact h.by_

theorem Moves.of_start (h : Moves p c e s t) (same : s.line = u.line) : Moves p c e u t := by
  have val : s.giShtVal = u.giShtVal := congrArg (·.2.1) same
  refine ⟨h.positioned, h.ge, h.le, ?_, val ▸ h.up, val ▸ h.down⟩
  rw [← same, ← absolute_of_line same]
  exact h.by_

theorem move_moves (bounded : c.Bounded) (h : u.Positioned) (min : c.aiShtMin ≤ u.giShtVal)
    (max : u.giShtVal ≤ c.aiShtMax) (e ctrl : Int) (fuel : Nat) (enough : 65535 ≤ fuel) :
    ∃ t on, u.move p c fuel e ctrl = some (t, on) ∧ Moves p c e u t := by
  have rests : Moves p c e u u := h.stays min max rfl
  unfold move
  split
  · rename_i nonneg
    split
    · exact ⟨_, _, rfl, rests⟩
    · split
      · rename_i below
        obtain ⟨t, ht, moves⟩ := up_moves (p := p) bounded h min below nonneg fuel enough
        exact ⟨t, false, by rw [ht]; rfl, moves⟩
      · exact ⟨_, _, rfl, rests⟩
  · rename_i neg
    split
    · exact ⟨_, _, rfl, rests⟩
    · split
      · obtain ⟨t, ht, moves⟩ := down_moves (p := p) bounded h min max (not_le.1 neg) fuel enough
        exact ⟨t, false, by rw [ht]; rfl, moves⟩
      · exact ⟨_, _, rfl, rests⟩

@[simp] theorem delay_line (s : Sht) : (s.delay p c).line = s.line := by
  unfold delay
  dsimp only
  split <;> rfl

theorem delay_errPos (s : Sht) (chg : Int) : (s.delay p c).errPos p c chg = s.errPos p c chg := by
  unfold delay
  dsimp only
  split <;> rfl

theorem Positioned.auto (h : u.Positioned) (bounded : c.Bounded) (min : c.aiShtMin ≤ u.giShtVal)
    (max : u.giShtVal ≤ c.aiShtMax) (chg : Int) (g : Agc) (fuel : Nat) (enough : 65535 ≤ fuel) :
    ∃ t g', u.auto p c fuel chg g = some (t, g') ∧ Moves p c (u.errPos p c chg) u t := by
  have line := delay_line (p := p) (c := c) u
  have val : (u.delay p c).giShtVal = u.giShtVal := congrArg (·.2.1) line
  have stays : Moves p c (u.errPos p c chg) u (u.delay p c) := h.stays min max line
  unfold Sht.auto
  dsimp only
  split
  · exact ⟨_, _, rfl, stays.of_line rfl⟩
  · split
    · exact ⟨_, _, rfl, stays.of_line rfl⟩
    · rw [delay_errPos]
      obtain ⟨t, on, ht, moves⟩ :=
        move_moves (p := p) (u := u.delay p c) bounded (h.of_line line) (val ▸ min) (val ▸ max)
          (u.errPos p c chg) g.giAgcCtrl fuel enough
      rw [ht]
      refine ⟨_, _, rfl, (moves.of_start line).of_line ?_⟩
      exact release_line _ _

/-- An automatic call of a channel whose caches have been set, by then or by the block for the limits. -/
theorem ctrl_moves (auto_ : c.aiShtManual = 0) (bounded : c.Bounded) (h : s.Cached ∨ s.Sets c) (g : Agc)
    (fuel : Nat) (enough : 65535 ≤ fuel) :
    ∃ t g', shtCtrl fuel p c s g = some (t, g') ∧
      Moves p c ((s.found p c).errPos p c (clampErr c.aiErr - s.iErr1d)) (s.found p c) t := by
  obtain ⟨min, max⟩ := limit_bounds (p := p) (s := { s with iErr1d := clampErr c.aiErr }) auto_ bounded.le
  have cached : (s.found p c).Cached := limit_cached (h.imp (fun k => k.of_line rfl) id)
  have positioned := cached.2.2 (max.trans bounded.le_max)
  unfold shtCtrl
  dsimp only
  rw [if_neg (not_not.2 auto_)]
  exact positioned.auto bounded min max _ _ fuel enough

theorem move_mono (h : s.move p c fuel e ctrl = some r) (le : fuel ≤ fuel') :
    s.move p c fuel' e ctrl = some r := by
  have loop {cond body u} {f : Sht → Sht}
      (h : ((whileDo cond body fuel u).map f).map (·, false) = some r) :
      ((whileDo cond body fuel' u).map f).map (·, false) = some r := by
    cases hw : whileDo cond body fuel u with
    | none =>
      rw [hw] at h
      cases h
    | some t =>
      rw [hw] at h
      rw [whileDo_mono hw le]
      exact h
  unfold move at h ⊢
  split
  · rename_i nonneg
    rw [if_pos nonneg] at h
    split
    · rename_i at_
      rw [if_pos at_] at h
      exact h
    · rename_i at_
      rw [if_neg at_] at h
      split
      · rename_i below
        rw [if_pos below] at h
        exact loop h
      · rename_i below
        rw [if_neg below] at h
        exact h
  · rename_i neg
    rw [if_neg neg] at h
    split
    · rename_i at_
      rw [if_pos at_] at h
      exact h
    · rename_i at_
      rw [if_neg at_] at h
      split
      · rename_i above
        rw [if_pos above] at h
        exact loop h
      · rename_i above
        rw [if_neg above] at h
        exact h

/-- More fuel changes nothing. -/
theorem ctrl_mono (h : shtCtrl fuel p c s g = some r) (le : fuel ≤ fuel') : shtCtrl fuel' p c s g = some r := by
  unfold shtCtrl auto at h ⊢
  dsimp only at h ⊢
  split
  · rename_i manual
    rw [if_pos manual] at h
    exact h
  · rename_i auto_
    rw [if_neg auto_] at h
    split
    · rename_i waits
      rw [if_pos waits] at h
      exact h
    · rename_i ready
      rw [if_neg ready] at h
      split
      · rename_i settled
        rw [if_pos settled] at h
        exact h
      · rename_i off
        rw [if_neg off] at h
        obtain ⟨t, ht, rfl⟩ := Option.map_eq_some_iff.1 h
        rw [move_mono ht le]
        rfl

/-- A manual call sets the shutter, or leaves it. -/
theorem ctrl_manual (manual : c.aiShtManual ≠ 0) (h : s.Cached ∨ s.Sets c) (g : Agc)
    (ht : shtCtrl fuel p c s g = some (t, g')) : t.Cached := by
  have cached : (s.found p c).Cached := limit_cached (h.imp (fun k => k.of_line rfl) id)
  unfold shtCtrl at ht
  dsimp only at ht
  rw [if_pos manual] at ht
  obtain ⟨rfl, -⟩ := Prod.mk.inj (Option.some.inj ht)
  exact cached.of_line rfl

end call

end Sht

/-- Both channels and the gain. -/
structure Ae where
  sht : Bool → Sht
  agc : Agc
  /-- A call has set the shutter of the channel to another value. -/
  set : Bool → Bool

inductive AeEvent
  | sht (ch : Bool) (p : AePar) (c : ShtCall)
  | agc (p : AePar) (c : AgcCall)

namespace Ae

def agcStart : Agc := ⟨0, fun _ => 0, 0, 0, 0, 0, 0⟩

/-- `giShtVal` and its caches, and those of `giShtSVal`. -/
def shtStart (ch : Bool) : Sht :=
  if ch then ⟨0, fun _ => 0, 0, 0, 1125 / 2 ^ 2, 233 * 2 ^ 9, 233 * 2 ^ 9, 0, 0⟩
  else ⟨0, fun _ => 0, 0, 0, 1125, 116 * 2 ^ 9, 116 * 2 ^ 9, 0, 0⟩

def start : Ae := ⟨shtStart, agcStart, fun _ => false⟩

inductive Step (s : Ae) : AeEvent → Ae → Prop
  | sht : shtCtrl fuel p c (s.sht ch) s.agc = some (t, g) →
      Step s (.sht ch p c)
        ⟨Function.update s.sht ch t, g, Function.update s.set ch (s.set ch || (s.sht ch).Sets c)⟩
  | agc : Step s (.agc p c) { s with agc := agcCtrl p c s.agc }

/-- The limits of the automatic calls. -/
def Limited : Ae → AeEvent → Prop
  | _, .sht _ _ c => c.aiShtManual = 0 → c.Bounded
  | _, .agc _ _ => True

end Ae

def aeCtrl : Lts Ae AeEvent where
  init s := s = .start
  step := Ae.Step

namespace Ae

theorem cached_inductive : aeCtrl.Inductive Limited fun s => ∀ ch, s.set ch = true → (s.sht ch).Cached where
  init start ch hset := by
    rw [start] at hset
    exact absurd hset Bool.false_ne_true
  step {s l t} inv limited hs ch hset := by
    cases hs with
    | agc => exact inv ch hset
    | @sht fuel p c ch' u g hu =>
      dsimp only at hset ⊢
      by_cases other : ch = ch'
      · subst other
        rw [Function.update_self] at hset ⊢
        have h : (s.sht ch).Cached ∨ (s.sht ch).Sets c := by
          rw [Bool.or_eq_true] at hset
          exact hset.imp (inv ch) of_decide_eq_true
        by_cases manual : c.aiShtManual = 0
        · have enough : 65535 ≤ max fuel 65535 := le_max_right _ _
          obtain ⟨t, g', ht, moves⟩ := Sht.ctrl_moves (p := p) manual (limited manual) h s.agc _ enough
          have same := (Sht.ctrl_mono hu (le_max_left fuel 65535)).symm.trans ht
          obtain ⟨rfl, -⟩ := Prod.mk.inj (Option.some.inj same)
          exact moves.positioned.cached
        · exact Sht.ctrl_manual manual h _ hu
      · rw [Function.update_of_ne other] at hset ⊢
        exact inv ch hset

/-- The controller moves in the way of the error, line by line, once the channel has been set. -/
theorem shutter_position (r : Reach aeCtrl Limited s) (ch : Bool) (p : AePar) (c : ShtCall)
    (auto_ : c.aiShtManual = 0) (bounded : c.Bounded) (h : s.set ch = true ∨ (s.sht ch).Sets c)
    (fuel : Nat) (enough : 65535 ≤ fuel) :
    ∃ t g, shtCtrl fuel p c (s.sht ch) s.agc = some (t, g) ∧
      Sht.Moves p c (((s.sht ch).found p c).errPos p c (clampErr c.aiErr - (s.sht ch).iErr1d))
        ((s.sht ch).found p c) t :=
  Sht.ctrl_moves auto_ bounded (h.imp (cached_inductive.reach r ch) id) s.agc fuel enough

section examples

def somePar : AePar := ⟨2, 2, fun _ => 0, 0, 0x400, false, 3, 20, 100, 0, 0⟩

/-- Within the margin. -/
def quiet : ShtCall := ⟨0, 0, 1, 1, 65535, true, true, true, 0⟩

theorem shutter_position_limited :
    Reach aeCtrl Limited start ∧ { quiet with aiErr := 500, aiShtMax := 750 }.Bounded ∧
      ∃ t g, shtCtrl 65535 somePar { quiet with aiErr := 500, aiShtMax := 750 } (start.sht false) start.agc =
        some (t, g) ∧ t.giShtVal ≤ 750 :=
  have bounded : { quiet with aiErr := 500, aiShtMax := 750 }.Bounded := ⟨by decide, by decide, by decide⟩
  have r : Reach aeCtrl Limited start := .init rfl
  have ⟨t, g, ht, moves⟩ :=
    shutter_position r false somePar { quiet with aiErr := 500, aiShtMax := 750 } rfl bounded
      (.inr (by decide)) 65535 le_rfl
  ⟨r, bounded, t, g, ht, moves.le⟩

/-- A manual call with the value that the shutter starts with leaves the weights as they are. -/
theorem manual_1125 :
    ∃ s g t g', shtCtrl 65535 somePar { quiet with aiShtManual := 1125 } (start.sht false) start.agc = some (s, g) ∧
      shtCtrl 65535 somePar quiet s g = some (t, g') ∧ t.giShtPosN ≠ linePos t.giShtVal :=
  ⟨_, _, _, _, rfl, rfl, by decide⟩

end examples

end Ae

end En675.Isp
