import En675.Core.HeapBoot
import En675.Lib.Transition

/-! The tasks at the heap.  A call of `pvPortMalloc` is one step, for it suspends the scheduler; `vPortFree` takes
two, between which other tasks may run.  A task that gets NULL does not come back, nor does anybody else.  What a
task writes lies within what it holds. -/

namespace En675.Heap5

open Lib FreeList

section system

/-- How much was asked for, and whether `vPortFree` has taken the mark off the block already. -/
structure Holding where
  wanted : Nat
  closing : Bool

/-- The heap, and what the tasks hold, by the addresses they got. -/
structure State where
  heap : Vars
  held : Nat → Option Holding

def State.set (s : State) (heap : Vars) (pv : Nat) (v : Option Holding) : State :=
  ⟨heap, Function.update s.held pv v⟩

inductive Op
  | malloc (xWantedSize : UInt64)
  | mark (pv : Nat)
  | insert (pv : Nat)
  | write (pv i : Nat) (b : UInt8)

inductive Step (s : State) : Op → State → Prop
  | malloc : pvPortMalloc n s.heap k = some (h, some pv) →
      Step s (.malloc k) (s.set h pv (some ⟨k.toNat, false⟩))
  | mark : s.held pv = some ⟨w, false⟩ → freeMark s.heap pv = some h →
      Step s (.mark pv) (s.set h pv (some ⟨w, true⟩))
  | insert : s.held pv = some ⟨w, true⟩ → freeInsert n s.heap (pv - xHeapStructSize) = some h →
      Step s (.insert pv) (s.set h pv none)
  | write : s.held pv = some ⟨w, false⟩ → i < w →
      Step s (.write pv i b) { s with heap := { s.heap with mem := s.heap.mem.write (pv + i) [b] } }

/-- From when the regions have been defined. -/
def runs {xStart : Nat} (R : Regions xStart) : Lts State Op where
  init s := ∃ m, vPortDefineHeapRegions m xStart R.list = some s.heap ∧ s.held = fun _ => none
  step := Step

end system

section set

variable {s : State} {h : Vars} {pv q : Nat} {v : Option Holding}

@[simp] theorem set_heap : (s.set h pv v).heap = h := rfl

@[simp] theorem set_same : (s.set h pv v).held pv = v := Function.update_self ..

theorem set_other (ne : q ≠ pv) : (s.set h pv v).held q = s.held q := Function.update_of_ne ne ..

end set

section fuel

variable {h : Vars} {n m : Nat}

theorem prvInsertBlockIntoFreeList_mono {h' : Vars} (run : prvInsertBlockIntoFreeList n h p = some h') (le : n ≤ m) :
    prvInsertBlockIntoFreeList m h p = some h' := by
  unfold prvInsertBlockIntoFreeList lowerBlock at *
  rw [Option.map_eq_some_iff] at run
  obtain ⟨q, found, rfl⟩ := run
  rw [whileDo_mono found le]
  rfl

theorem splitBlock_mono {h' : Vars} (run : splitBlock n h w p = some h') (le : n ≤ m) :
    splitBlock m h w p = some h' := by
  unfold splitBlock at *
  split at run
  · rename_i large
    rw [if_pos large]
    exact prvInsertBlockIntoFreeList_mono run le
  · rename_i small
    rw [if_neg small]
    exact run

/-- A call that has come back does so with more fuel. -/
theorem pvPortMalloc_mono {k : UInt64} {r : Vars × Option Nat} (run : pvPortMalloc n h k = some r) (le : n ≤ m) :
    pvPortMalloc m h k = some r := by
  unfold pvPortMalloc at *
  split at run
  · rename_i init
    rw [if_pos init]
    split at run
    · rename_i small
      rw [if_pos small]
      dsimp only at run ⊢
      split at run
      · rename_i room
        rw [if_pos room]
        rw [Option.bind_eq_some_iff] at run
        obtain ⟨⟨p, a⟩, found, run⟩ := run
        unfold findBlock at *
        rw [whileDo_mono found le, Option.bind_some]
        dsimp only at run ⊢
        split at run
        · rename_i inside
          rw [if_pos inside]
          rw [Option.map_eq_some_iff] at run
          obtain ⟨t, taken, rfl⟩ := run
          rw [takeBlock, Option.map_eq_some_iff] at taken
          obtain ⟨u, parts, rfl⟩ := taken
          rw [takeBlock, splitBlock_mono parts le]
          rfl
        · rename_i last
          rw [if_neg last]
          exact run
      · rename_i none
        rw [if_neg none]
        exact run
    · rename_i large
      rw [if_neg large]
      exact run
  · cases run

theorem freeInsert_mono {h' : Vars} (run : freeInsert n h p = some h') (le : n ≤ m) : freeInsert m h p = some h' :=
  prvInsertBlockIntoFreeList_mono run le

end fuel

/-- Every block that is out of the list is held by a task, who got less than there is behind the link. -/
structure Owns {xStart : Nat} (R : Regions xStart) (s : State) (P : Pool) : Prop where
  rep : Rep s.heap P
  has : ∀ a, P.Has a ↔ R.pool.Has a
  size : P.size = R.pool.size
  given : ∀ {pv w}, s.held pv = some w → ∃ u ∈ P.used, pv = u.lo + xHeapStructSize ∧
    w.wanted + xHeapStructSize ≤ u.len ∧ Taken s.heap u (if w.closing then 0 else xBlockAllocatedBit)
  taken : ∀ u ∈ P.used, (s.held (u.lo + xHeapStructSize)).isSome

theorem used_apart {P : Pool} {u v : Seg} (hu : u ∈ P.used) (hv : v ∈ P.used) (ne : u ≠ v) : u.Apart v := by
  have symm : Std.Symm Seg.Apart := ⟨fun _ _ => Seg.Apart.symm⟩
  exact P.usedApart.forall hu hv ne

section steps

variable {xStart : Nat} {R : Regions xStart} {s : State} {P : Pool} {h : Vars} {pv n w i : Nat} {k : UInt64} {b : UInt8}

theorem Owns.boot {m : Mem} (run : vPortDefineHeapRegions m xStart R.list = some h) :
    Owns R ⟨h, fun _ => none⟩ R.pool := by
  obtain ⟨h', run', rep, -⟩ := define_rep R m
  obtain rfl := Option.some.inj (run.symm.trans run')
  exact ⟨rep, fun _ => Iff.rfl, rfl, fun given => (by cases given), fun _ hu => (by cases hu)⟩

/-- A call with enough fuel gives out a block that `carve` picks, or NULL where there is none. -/
theorem Owns.malloc_cases (o : Owns R s P) (hn : P.free.length ≤ n) (k : UInt64) :
    (∃ (h : Vars) (t : Seg) (r : List Seg) (pos : 0 < blockSize k.toNat)
        (hcut : carve (blockSize k.toNat) heapMinimumBlockSize P.free = some (t, r)),
        k.toNat < xBlockAllocatedBit ∧ pvPortMalloc n s.heap k = some (h, some (t.lo + xHeapStructSize)) ∧
        Rep h (P.give pos hcut) ∧ Taken h t xBlockAllocatedBit ∧ Leaves P.free s.heap h) ∨
      pvPortMalloc n s.heap k = some (s.heap, none) ∧
        (k.toNat < xBlockAllocatedBit → 0 < blockSize k.toNat →
          carve (blockSize k.toNat) heapMinimumBlockSize P.free = none) := by
  by_cases small : k.toNat < xBlockAllocatedBit
  · by_cases pos : 0 < blockSize k.toNat
    · by_cases hcut : carve (blockSize k.toNat) heapMinimumBlockSize P.free = none
      · exact .inr ⟨malloc_none o.rep hn fun _ _ => hcut, fun _ _ => hcut⟩
      · obtain ⟨⟨t, r⟩, hcut⟩ := Option.ne_none_iff_exists'.mp hcut
        obtain ⟨h, run, rest⟩ := malloc_some o.rep hn small pos hcut
        exact .inl ⟨h, t, r, pos, hcut, small, run, rest⟩
    · exact .inr ⟨malloc_none o.rep hn fun _ p => absurd p pos, fun _ p => absurd p pos⟩
  · exact .inr ⟨malloc_none o.rep hn fun l => absurd l small, fun l => absurd l small⟩

/-- What a block that somebody else holds is left as. -/
theorem Owns.malloc (o : Owns R s P) (run : pvPortMalloc n s.heap k = some (h, some pv)) :
    ∃ (t : Seg) (r : List Seg) (pos : 0 < blockSize k.toNat)
      (hcut : carve (blockSize k.toNat) heapMinimumBlockSize P.free = some (t, r)),
      pv = t.lo + xHeapStructSize ∧ k.toNat < xBlockAllocatedBit ∧ Leaves P.free s.heap h ∧
      Owns R (s.set h pv (some ⟨k.toNat, false⟩)) (P.give pos hcut) := by
  have enough := pvPortMalloc_mono run (Nat.le_max_left n P.free.length)
  rcases o.malloc_cases (Nat.le_max_right n P.free.length) k with
    ⟨h', t, r, pos, hcut, small, run', rep, taken, leaves⟩ | ⟨run', -⟩
  · have same := Option.some.inj (enough.symm.trans run')
    rw [Prod.mk.injEq, Option.some.injEq] at same
    obtain ⟨rfl, rfl⟩ := same
    obtain ⟨x, front, back, eq, lo, fits, cases⟩ := carve_some hcut
    refine ⟨t, r, pos, hcut, rfl, small, leaves, rep, fun a => (P.has_give pos hcut).trans (o.has a),
      (P.size_give pos hcut).trans o.size, fun {pv w} given => ?_, fun u hu => ?_⟩
    · by_cases same : pv = t.lo + xHeapStructSize
      · subst same
        rw [set_same] at given
        obtain rfl := Option.some.inj given
        have wide : 0 < k.toNat := by
          refine Nat.pos_of_ne_zero fun zero => ?_
          rw [zero, blockSize_zero] at pos
          exact Nat.lt_irrefl _ pos
        exact ⟨t, List.mem_cons_self, rfl, (le_blockSize wide).trans fits, taken⟩
      · rw [set_other same] at given
        obtain ⟨u, hu, eq, le, had⟩ := o.given given
        refine ⟨u, List.mem_cons_of_mem _ hu, eq, le, had.move ?_⟩
        exact leaves.sameLink (o.rep.used u hu) (P.pos u hu) fun x hx => P.apart x hx u hu
    · by_cases same : u.lo + xHeapStructSize = t.lo + xHeapStructSize
      · rw [same, set_same]
        rfl
      · rw [set_other same]
        rcases List.mem_cons.mp hu with rfl | hu
        · exact absurd rfl same
        · exact o.taken u hu
  · have same := Option.some.inj (enough.symm.trans run')
    cases same

/-- `vPortFree` takes the mark off. -/
theorem Owns.mark (o : Owns R s P) (held : s.held pv = some ⟨w, false⟩) :
    ∃ u ∈ P.used, pv = u.lo + xHeapStructSize ∧ freeMark s.heap pv = some (setBlockSize s.heap u.lo u.len) ∧
      Owns R (s.set (setBlockSize s.heap u.lo u.len) pv (some ⟨w, true⟩)) P := by
  obtain ⟨u, hu, rfl, le, taken⟩ := o.given held
  have short := o.rep.short hu
  have mark : Touches [u.lo] s.heap (setBlockSize s.heap u.lo u.len) := touches_setSize
  have rep : Rep (setBlockSize s.heap u.lo u.len) P := by
    refine o.rep.inside (l := [u]) (List.forall_mem_singleton.mpr hu) rfl fun i out => mark.mem ?_
    have out := List.forall_mem_singleton.mp out
    refine List.forall_mem_singleton.mpr (Nat.lt_or_ge i u.lo |>.imp id fun lower => ?_)
    refine Nat.le_of_not_lt fun upper => out ⟨lower, ?_⟩
    unfold xHeapStructSize at le
    unfold Seg.hi
    omega
  refine ⟨u, hu, rfl, taken.unmark short, rep, o.has, o.size, fun {q v} given => ?_, fun x hx => ?_⟩
  · by_cases same : q = u.lo + xHeapStructSize
    · subst same
      rw [set_same] at given
      obtain rfl := Option.some.inj given
      refine ⟨u, hu, rfl, le, next_setSize.trans taken.1, size_setSize ?_⟩
      unfold xBlockAllocatedBit at short
      omega
    · rw [set_other same] at given
      obtain ⟨x, hx, eq, le, had⟩ := o.given given
      have ne : u ≠ x := by
        rintro rfl
        exact same eq
      refine ⟨x, hx, eq, le, had.move (mark.sameLink (List.forall_mem_singleton.mpr ?_))⟩
      exact (o.rep.used u hu).far (o.rep.used x hx) (used_apart hu hx ne)
  · by_cases same : x.lo + xHeapStructSize = u.lo + xHeapStructSize
    · rw [same, set_same]
      rfl
    · rw [set_other same]
      exact o.taken x hx

/-- `vPortFree` puts the block back. -/
theorem Owns.insert (o : Owns R s P) (held : s.held pv = some ⟨w, true⟩) (hn : P.free.length ≤ n) :
    ∃ (u : Seg) (hu : u ∈ P.used) (h : Vars), pv = u.lo + xHeapStructSize ∧
      freeInsert n s.heap (pv - xHeapStructSize) = some h ∧ Leaves (u :: P.free) s.heap h ∧
      Owns R (s.set h pv none) (P.back hu) := by
  obtain ⟨u, hu, rfl, le, taken⟩ := o.given held
  obtain ⟨h, run, rep, leaves⟩ := freeInsert_spec o.rep hn hu taken
  have away {x : Seg} (hx : x ∈ P.used.erase u) : u.Apart x :=
    List.rel_of_pairwise_cons ((List.perm_cons_erase hu).pairwise P.usedApart fun h => h.symm) hx
  refine ⟨u, hu, h, rfl, by rwa [Nat.add_sub_cancel], leaves, rep, fun a => (P.has_back hu).trans (o.has a),
    (P.size_back hu).trans o.size, fun {q v} given => ?_, fun x hx => ?_⟩
  · by_cases same : q = u.lo + xHeapStructSize
    · rw [same, set_same] at given
      cases given
    · rw [set_other same] at given
      obtain ⟨x, hx, eq, le, had⟩ := o.given given
      have ne : x ≠ u := by
        rintro rfl
        exact same eq
      have kept : x ∈ P.used.erase u := (List.mem_erase_of_ne ne).mpr hx
      refine ⟨x, kept, eq, le, had.move ?_⟩
      refine leaves.sameLink (o.rep.used x hx) (P.pos x hx) (List.forall_mem_cons.mpr ⟨away kept, fun y hy => ?_⟩)
      exact P.apart y hy x hx
  · have ne : x.lo + xHeapStructSize ≠ u.lo + xHeapStructSize := fun same => by
      have lo := Nat.add_right_cancel same
      rcases away hx with b | b
      · exact absurd b.1 (lo ▸ Nat.lt_irrefl _)
      · exact absurd b.1 (lo ▸ Nat.lt_irrefl _)
    rw [set_other ne]
    exact o.taken x (List.mem_of_mem_erase hx)

theorem Owns.write (o : Owns R s P) (held : s.held pv = some ⟨w, false⟩) (lt : i < w) :
    Owns R { s with heap := { s.heap with mem := s.heap.mem.write (pv + i) [b] } } P := by
  obtain ⟨u, hu, rfl, le, -⟩ := o.given held
  have other {a : Nat} (ne : a ≠ u.lo + xHeapStructSize + i) :
      s.heap.mem.write (u.lo + xHeapStructSize + i) [b] a = s.heap.mem a := Function.update_of_ne ne ..
  have rep : Rep { s.heap with mem := s.heap.mem.write (u.lo + xHeapStructSize + i) [b] } P := by
    refine o.rep.inside (l := [u]) (List.forall_mem_singleton.mpr hu) rfl fun a out => other ?_
    rintro rfl
    refine List.forall_mem_singleton.mp out ⟨?_, ?_⟩
    · omega
    · change w + xHeapStructSize ≤ u.len at le
      unfold Seg.hi
      omega
  refine ⟨rep, o.has, o.size, fun {q v} given => ?_, o.taken⟩
  obtain ⟨x, hx, eq, le', had⟩ := o.given given
  refine ⟨x, hx, eq, le', had.move (sameLink_of_mem fun a lower upper => other ?_)⟩
  rintro rfl
  change w + xHeapStructSize ≤ u.len at le
  unfold xHeapStructSize at *
  by_cases same : u = x
  · subst same
    omega
  · have pos := P.pos x hx
    rcases used_apart hu hx same with ⟨_, far⟩ | ⟨_, far⟩
    · unfold Seg.hi at far
      omega
    · unfold Seg.hi at far
      omega

/-- Somebody holds every block that is out of the list, after every step. -/
theorem owns_inductive (R : Regions xStart) : (runs R).Inductive Lts.any fun s => ∃ P, Owns R s P where
  init {s} hi := by
    obtain ⟨m, run, nobody⟩ := hi
    obtain ⟨h, held⟩ := s
    obtain rfl : held = fun _ => none := nobody
    exact ⟨_, .boot run⟩
  step {s op t} inv _ st := by
    obtain ⟨P, o⟩ := inv
    cases st with
    | malloc run =>
      obtain ⟨_, _, pos, hcut, -, -, -, o'⟩ := o.malloc run
      exact ⟨_, o'⟩
    | mark held run =>
      obtain ⟨u, hu, -, run', o'⟩ := o.mark held
      obtain rfl := Option.some.inj (run.symm.trans run')
      exact ⟨P, o'⟩
    | @insert pv w n h held run =>
      obtain ⟨u, hu, h', -, run', -, o'⟩ := o.insert held (Nat.le_max_right n P.free.length)
      have enough := freeInsert_mono run (Nat.le_max_left n P.free.length)
      obtain rfl := Option.some.inj (enough.symm.trans run')
      exact ⟨_, o'⟩
    | write held lt => exact ⟨P, o.write held lt⟩

theorem reach_owns (reach : Reach (runs R) Lts.any s) : ∃ P, Owns R s P := (owns_inductive R).reach reach

end steps

end En675.Heap5
