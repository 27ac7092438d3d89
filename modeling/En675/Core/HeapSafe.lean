import En675.Core.HeapRuns

/-! What the tasks may rely on at every time: their blocks are their own, no call hangs but for NULL, and NULL
means that there is no room. -/

namespace En675.Heap5

open Lib FreeList

section spec

variable {xStart : Nat}

/-- The blocks are aligned, lie in the regions with their links, and do not overlap. -/
structure Safe (R : Regions xStart) (s : State) : Prop where
  aligned : ∀ {pv w}, s.held pv = some w → pv ≠ 0 ∧ 64 ∣ pv
  inside : ∀ {pv w}, s.held pv = some w → ∃ r ∈ R.list, r.1 + xHeapStructSize ≤ pv ∧ pv + w.wanted ≤ regionEnd r
  apart : ∀ {pv q v w}, s.held pv = some v → s.held q = some w → pv < q → pv + v.wanted + xHeapStructSize ≤ q

end spec

section main

variable {xStart : Nat} {R : Regions xStart} {s t : State} {P : Pool} {a : Nat}

/-- A segment with cells, from where the regions have been defined. -/
theorem mem_bootList_block {regions : List (Nat × Nat)} {b : Seg} (hb : b ∈ bootList regions) (ha : a ∈ b.cells) :
    ∃ r ∈ regions, b = regionBlock r := by
  have behind {e : Nat} {regions : List (Nat × Nat)} (hb : b ∈ regionsBehind e regions) :
      ∃ r ∈ regions, b = regionBlock r := by
    induction regions generalizing e with
    | nil => cases hb
    | cons r regions ih =>
      rcases List.mem_cons.mp hb with rfl | hb
      · exact absurd (ha.1.trans_lt ha.2) (Nat.lt_irrefl _)
      rcases List.mem_cons.mp hb with rfl | hb
      · exact ⟨r, List.mem_cons_self, rfl⟩
      · obtain ⟨x, hx, eq⟩ := ih hb
        exact ⟨x, List.mem_cons_of_mem _ hx, eq⟩
  cases regions with
  | nil => cases hb
  | cons r regions =>
    rcases List.mem_cons.mp hb with rfl | hb
    · exact ⟨r, List.mem_cons_self, rfl⟩
    · obtain ⟨x, hx, eq⟩ := behind hb
      exact ⟨x, List.mem_cons_of_mem _ hx, eq⟩

/-- A block lies in one region. -/
theorem Owns.inside {u : Seg} (o : Owns R s P) (hu : u ∈ P.used) :
    ∃ r ∈ R.list, r.1 ≤ u.lo ∧ u.hi ≤ regionEnd r := by
  have pos := P.pos u hu
  have all (i : Nat) (hi : i ≤ u.len - 1) : u.lo + i ∈ cells R.pool.free := by
    have mem : P.Has (u.lo + i) := .inr ⟨u, hu, Nat.le_add_right .., by unfold Seg.hi; omega⟩
    exact ((o.has _).mp mem).resolve_right mem_cells_nil
  obtain ⟨b, hb, first⟩ := all 0 (Nat.zero_le _)
  obtain ⟨-, upper⟩ := run_inside R.pool.parted hb first all
  obtain ⟨r, hr, rfl⟩ := mem_bootList_block hb first
  have low : alignUp r.1 ≤ u.lo := first.1
  refine ⟨r, hr, (le_alignUp r.1).trans low, ?_⟩
  rw [regionBlock_hi (R.usable r hr)] at upper
  unfold Seg.hi
  omega

theorem Owns.safe (o : Owns R s P) : Safe R s where
  aligned {pv w} held := by
    obtain ⟨u, hu, rfl, -, -⟩ := o.given held
    exact ⟨Nat.succ_ne_zero _, Nat.dvd_add (o.rep.used u hu).lo (dvd_refl 64)⟩
  inside {pv w} held := by
    obtain ⟨u, hu, rfl, le, -⟩ := o.given held
    obtain ⟨r, hr, lower, upper⟩ := o.inside hu
    refine ⟨r, hr, Nat.add_le_add_right lower _, ?_⟩
    unfold Seg.hi at upper
    omega
  apart {pv q v w} heldp heldq lt := by
    obtain ⟨u, hu, rfl, le, -⟩ := o.given heldp
    obtain ⟨x, hx, rfl, -, -⟩ := o.given heldq
    have lt := Nat.lt_of_add_lt_add_right lt
    have ne : u ≠ x := by
      rintro rfl
      exact Nat.lt_irrefl _ lt
    have far := ((used_apart hu hx ne).before lt).2
    unfold Seg.hi at far
    omega

/-- What a step leaves of what is held. -/
theorem Owns.keeps {op : Op} {pv : Nat} {w : Holding} (o : Owns R s P) (st : Step s op t) (held : s.held pv = some w)
    (stays : op ≠ .insert pv) {i : Nat} (lt : i < w.wanted) (other : ∀ b, op ≠ .write pv i b) :
    t.heap.mem (pv + i) = s.heap.mem (pv + i) := by
  obtain ⟨u, hu, rfl, le, -⟩ := o.given held
  have inside : u.lo + xHeapStructSize + i ∈ u.cells := ⟨by omega, by unfold Seg.hi; omega⟩
  cases st with
  | malloc run =>
    obtain ⟨x, r, pos, hcut, rfl, -, leaves, -⟩ := o.malloc run
    exact leaves.mem (o.rep.used u hu) (fun y hy => P.apart y hy u hu) _ inside
  | mark heldq run =>
    obtain ⟨x, hx, rfl, run', -⟩ := o.mark heldq
    obtain rfl := Option.some.inj (run.symm.trans run')
    refine setSize_mem ?_
    by_cases same : x = u
    · subst same
      unfold Outside xHeapStructSize
      omega
    · exact (o.rep.used x hx).outside (o.rep.used u hu) (used_apart hx hu same) inside
  | @insert q _ n _ heldq run =>
    obtain ⟨x, hx, h', rfl, run', leaves, -⟩ := o.insert heldq (Nat.le_max_right n P.free.length)
    have enough := freeInsert_mono run (Nat.le_max_left n P.free.length)
    obtain rfl := Option.some.inj (enough.symm.trans run')
    have ne : x ≠ u := by
      rintro rfl
      exact stays rfl
    exact leaves.mem (o.rep.used u hu) (List.forall_mem_cons.mpr ⟨used_apart hx hu ne,
      fun y hy => P.apart y hy u hu⟩) _ inside
  | @write q w' j b heldq lt' =>
    refine Function.update_of_ne (fun eq => ?_) ..
    obtain ⟨x, hx, rfl, le', -⟩ := o.given heldq
    change w' + xHeapStructSize ≤ x.len at le'
    by_cases same : x = u
    · subst same
      have eq : i = j := Nat.add_left_cancel eq
      exact other b (eq ▸ rfl)
    · refine (used_apart hx hu same).disjoint (a := u.lo + xHeapStructSize + i) ?_ inside
      rw [eq]
      exact ⟨by omega, by unfold Seg.hi; omega⟩

end main

/-- One region of 64 KiB. -/
def oneRegion : Regions 0x1000 where
  list := [(0x2000, 0x10000)]
  ne := List.cons_ne_nil _ _
  usable := List.forall_mem_singleton.mpr ⟨by decide, by decide, by decide, by decide⟩
  ascending := List.pairwise_singleton _ _

/-- The first request is met, and its block can be freed again. -/
theorem oneRegion_reach : ∃ s t : State, Reach (runs oneRegion) Lts.any s ∧ s.held 0x2040 = some ⟨100, false⟩ ∧
    Reach (runs oneRegion) Lts.any t ∧ (∀ pv, t.held pv = none) := by
  obtain ⟨h, run, -⟩ := define_rep oneRegion fun _ => 0
  have boot : Reach (runs oneRegion) Lts.any ⟨h, fun _ => none⟩ := .init ⟨_, run, rfl⟩
  have hcut : carve 192 heapMinimumBlockSize oneRegion.pool.free = some (⟨0x2000, 192⟩, [⟨0x20c0, 0xff00⟩]) := by
    decide
  obtain ⟨h', given, -⟩ := malloc_some (k := 100) (Owns.boot run).rep le_rfl (by decide) (by decide) hcut
  have first := boot.step trivial (.malloc given)
  have held : ((State.mk h fun _ => none).set h' 0x2040 (some ⟨100, false⟩)).held 0x2040 = some ⟨100, false⟩ := set_same
  obtain ⟨P, o⟩ := reach_owns first
  obtain ⟨u, hu, -, marked, o'⟩ := o.mark held
  obtain ⟨v, hv, h'', -, freed, -⟩ := o'.insert set_same le_rfl
  refine ⟨_, _, first, held, (first.step trivial (.mark held marked)).step trivial (.insert set_same freed), ?_⟩
  intro pv
  by_cases same : pv = 0x2040
  · subst same
    exact set_same
  · rw [set_other same, set_other same]
    exact set_other same

section results

variable {xStart : Nat} (R : Regions xStart) {s : State}

/-- Whatever the tasks do, their blocks are apart, and change by their own writes only. -/
theorem heap_safe (reach : Reach (runs R) Lts.any s) :
    Safe R s ∧ ∀ op t, Step s op t → ∀ pv w, s.held pv = some w → op ≠ .insert pv → ∀ i < w.wanted,
      (∀ b, op ≠ .write pv i b) → t.heap.mem (pv + i) = s.heap.mem (pv + i) := by
  obtain ⟨P, o⟩ := reach_owns reach
  exact ⟨o.safe, fun op t st pv w held stays i lt other => o.keeps st held stays lt other⟩

theorem heap_safe_one : ∃ s, s.held 0x2040 = some ⟨100, false⟩ ∧ Safe oneRegion s := by
  obtain ⟨s, t, reach, held, -⟩ := oneRegion_reach
  exact ⟨s, held, (heap_safe oneRegion reach).1⟩

/-- Once everything has been freed, requests get what they would have got at first. -/
theorem heap_restored (reach : Reach (runs R) Lts.any s) (nobody : ∀ pv, s.held pv = none) {m : Mem} {first : Vars}
    (boot : vPortDefineHeapRegions m xStart R.list = some first) (k : UInt64) :
    s.heap.xFreeBytesRemaining = first.xFreeBytesRemaining ∧
      ∃ n r r', pvPortMalloc n s.heap k = some r ∧ pvPortMalloc n first k = some r' ∧ r.2 = r'.2 := by
  obtain ⟨P, o⟩ := reach_owns reach
  have o' : Owns R ⟨first, fun _ => none⟩ R.pool := .boot boot
  have unused : P.used = [] := List.eq_nil_iff_forall_not_mem.mpr fun u hu => by
    have held := o.taken u hu
    rw [nobody] at held
    cases held
  have same (a : Nat) : a ∈ cells P.free ↔ a ∈ cells R.pool.free := by
    have has := o.has a
    unfold Pool.Has at has
    rw [unused, or_iff_left mem_cells_nil] at has
    exact has.trans (or_iff_left mem_cells_nil)
  have filled := filled_unique P.parted R.pool.parted same
  have picks := fun pos => carve_filled (w := blockSize k.toNat) pos heapMinimumBlockSize filled
  refine ⟨?_, max P.free.length R.pool.free.length, ?_⟩
  · rw [o.rep.count, o'.rep.count, ← ncard_cells (parted_apart P.parted), ← ncard_cells (parted_apart R.pool.parted),
      Set.ext same]
  · rcases o.malloc_cases (Nat.le_max_left P.free.length R.pool.free.length) k with
      ⟨h, t, r, pos, hcut, small, run, -⟩ | ⟨run, none⟩ <;>
    rcases o'.malloc_cases (Nat.le_max_right P.free.length R.pool.free.length) k with
      ⟨h', t', r', pos', hcut', small', run', -⟩ | ⟨run', none'⟩
    · have lo := picks pos
      rw [hcut, hcut'] at lo
      refine ⟨_, _, run, run', ?_⟩
      rw [show t.lo = t'.lo from Option.some.inj lo]
    · have lo := picks pos
      rw [hcut, none' small pos] at lo
      cases lo
    · have lo := picks pos'
      rw [none small' pos', hcut'] at lo
      cases lo
    · exact ⟨_, _, run, run', rfl⟩

theorem heap_restored_one : ∃ (s : State) (first : Vars), (∀ pv, s.held pv = none) ∧
    ∃ n r r', pvPortMalloc n s.heap 100 = some r ∧ pvPortMalloc n first 100 = some r' ∧ r.2 = r'.2 := by
  obtain ⟨s, t, -, -, reach, nobody⟩ := oneRegion_reach
  obtain ⟨first, run, -⟩ := define_rep oneRegion fun _ => 0
  exact ⟨t, first, nobody, (heap_restored oneRegion reach nobody run 100).2⟩

end results

end En675.Heap5
