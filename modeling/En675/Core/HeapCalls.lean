import Mathlib.Data.Nat.Bitwise
import En675.Core.HeapChain

/-! What a call of `pvPortMalloc` or `vPortFree` does to the blocks: the heap in memory holds a `Pool`. -/

namespace En675.Heap5

open Lib FreeList

/-- The heap in memory is that of `P`. -/
structure Rep (h : Vars) (P : Pool) : Prop where
  fixed : Fixed h
  chain : Chain h h.xStart P.free
  free : ∀ s ∈ P.free, Placed h s
  used : ∀ s ∈ P.used, Placed h s
  count : h.xFreeBytesRemaining = total P.free
  least : h.xMinimumEverFreeBytesRemaining ≤ h.xFreeBytesRemaining

/-- A block outside of the list; `bit` is `xBlockAllocatedBit` where it is marked as allocated. -/
def Taken (h : Vars) (s : Seg) (bit : Nat) : Prop :=
  pxNextFreeBlock h s.lo = 0 ∧ xBlockSize h s.lo = s.len + bit

section sizes

variable {k : Nat}

theorem blockSize_dvd (k : Nat) : 64 ∣ blockSize k := by
  unfold blockSize
  split
  · dsimp only
    split <;> omega
  · exact dvd_zero _

theorem le_blockSize (pos : 0 < k) : k + 64 ≤ blockSize k := by
  unfold blockSize xHeapStructSize
  rw [if_pos pos]
  dsimp only
  split <;> omega

theorem blockSize_zero : blockSize 0 = 0 := rfl

theorem and_bit (h : k < 2 ^ 64) : k &&& xBlockAllocatedBit = 0 ↔ k < xBlockAllocatedBit := by
  unfold xBlockAllocatedBit
  rw [Nat.and_two_pow, Nat.testBit_eq_decide_div_mod_eq]
  simp only [Nat.mul_eq_zero, Bool.toNat_eq_zero, decide_eq_false_iff_not]
  omega

theorem or_bit (h : k < xBlockAllocatedBit) : k ||| xBlockAllocatedBit = k + xBlockAllocatedBit := by
  unfold xBlockAllocatedBit at *
  rw [Nat.or_comm, Nat.add_comm]
  exact (Nat.two_pow_add_eq_or_of_lt h 1).symm

end sizes

section frame

variable {h h' : Vars} {l : List Seg} {s t u : Seg}

/-- A link is outside of the blocks that are apart from its own. -/
theorem Placed.outside (ps : Placed h s) (pu : Placed h u) (apart : s.Apart u) (hi : i ∈ u.cells) :
    Outside s.lo i := by
  obtain ⟨lower, upper⟩ := hi
  rcases apart with b | b
  · have far := far_of_lt ps.lo pu.lo b.1
    unfold Far at far
    have lt := b.1
    unfold Outside
    omega
  · exact .inl (upper.trans_le b.2)

theorem Placed.start_outside (pu : Placed h u) (hi : i ∈ u.cells) : Outside h.xStart i := by
  obtain ⟨lower, upper⟩ := hi
  rcases pu.start with start | start
  · exact .inr (start.trans lower)
  · exact .inl (upper.trans_le start.2)

/-- Where only links of a list are touched, what is apart from the list is as it was. -/
theorem Touches.keeps (a : Touches (h.xStart :: l.map Seg.lo) h h') (pl : ∀ s ∈ l, Placed h s) (pu : Placed h u)
    (apart : ∀ s ∈ l, s.Apart u) (hi : i ∈ u.cells) : h'.mem i = h.mem i := by
  refine a.mem (List.forall_mem_cons.mpr ⟨pu.start_outside hi, ?_⟩)
  rw [List.forall_mem_map]
  exact fun s hs => (pl s hs).outside pu (apart s hs) hi

theorem Taken.move {bit : Nat} (a : Taken h s bit) (same : SameLink h h' s.lo) : Taken h' s bit :=
  ⟨same.1.trans a.1, same.2.trans a.2⟩

theorem Chain.vars {p : Nat} (c : Chain h p l) (mem : h'.mem = h.mem) (hend : h'.pxEnd = h.pxEnd) : Chain h' p l :=
  have same (q : Nat) : SameLink h h' q := sameLink_of_mem fun i _ _ => by rw [mem]
  c.move (same p).1 hend fun s _ => same s.lo

end frame

section calls

variable {h h' : Vars} {P : Pool} {s t u : Seg} {r : List Seg} {n w : Nat}

theorem Fixed.touch {ps : List Nat} (f : Fixed h) (a : Touches ps h h') (atEnd : ∀ p ∈ ps, Far p h.pxEnd)
    (start : xBlockSize h' h.xStart = xBlockSize h h.xStart) : Fixed h' where
  endPos := a.pxEnd ▸ f.endPos
  endLo := a.pxEnd ▸ f.endLo
  endLt := a.pxEnd ▸ f.endLt
  endNext := by
    rw [a.pxEnd, (a.sameLink atEnd).1, f.endNext]
  endSize := by
    rw [a.pxEnd, (a.sameLink atEnd).2, f.endSize]
  startSize := by
    rw [a.xStart, start, f.startSize]
  start := by
    rw [a.pxEnd, a.xStart]
    exact f.start

/-- A block that is apart from the list is inserted into it. -/
theorem insert_spec {l : List Seg} {b : Seg} (f : Fixed h) (c : Chain h h.xStart l) (hn : l.length ≤ n)
    (size : xBlockSize h b.lo = b.len) (pb : Placed h b) (pl : ∀ t ∈ l, Placed h t) (parted : l.Pairwise Seg.Parted)
    (apart : ∀ t ∈ l, t.Apart b) :
    ∃ h', prvInsertBlockIntoFreeList n h b.lo = some h' ∧ Fixed h' ∧ Chain h' h'.xStart (FreeList.insert b l) ∧
      Touches (h.xStart :: (b :: l).map Seg.lo) h h' := by
  have endLt := f.endLt
  have gap : h.xStart + xBlockSize h h.xStart ≠ b.lo := by
    rw [f.startSize]
    exact pb.start_far.ne
  obtain ⟨q, found, chain, start, touches⟩ := insert_chain (by omega) c hn size pb pl parted apart pb.start_far.symm
    (fun t ht => (pl t ht).start_far) gap
  have atEnd : ∀ p ∈ h.xStart :: b.lo :: l.map Seg.lo, Far p h.pxEnd := by
    simp only [List.forall_mem_cons, List.forall_mem_map]
    exact ⟨f.start, pb.end_far f, fun t ht => (pl t ht).end_far f⟩
  refine ⟨_, ?_, f.touch touches atEnd start, ?_, touches⟩
  · rw [prvInsertBlockIntoFreeList, found]
    rfl
  · rw [touches.xStart]
    exact chain

theorem Placed.parts (pt : Placed h t) (dvd : 64 ∣ w) (lt : w < t.len) :
    Placed h ⟨t.lo, w⟩ ∧ Placed h ⟨t.lo + w, t.len - w⟩ := by
  obtain ⟨lo, len, pos, below, le, start⟩ := pt
  unfold Seg.hi at le start
  constructor
  · exact ⟨lo, dvd, pos, below, by unfold Seg.hi; dsimp only; omega, by unfold Seg.hi; dsimp only; omega⟩
  · refine ⟨Nat.dvd_add lo dvd, Nat.dvd_sub len dvd, Nat.add_pos_left pos _, ?_, ?_, ?_⟩ <;>
      (try unfold Seg.hi) <;> dsimp only <;> omega

/-- Memory apart from the blocks of a list is as it was. -/
structure Leaves (l : List Seg) (h h' : Vars) : Prop where
  xStart : h'.xStart = h.xStart
  pxEnd : h'.pxEnd = h.pxEnd
  mem : ∀ {u}, Placed h u → (∀ x ∈ l, x.Apart u) → ∀ i ∈ u.cells, h'.mem i = h.mem i

/-- The heap once a block has been found, and cut to `s` with `r` left. -/
structure Split (h : Vars) (l : List Seg) (s : Seg) (r : List Seg) (h' : Vars) : Prop where
  fixed : Fixed h'
  chain : Chain h' h'.xStart r
  size : xBlockSize h' s.lo = s.len
  block : Placed h' s
  rest : ∀ x ∈ r, Placed h' x
  vars : h' = { h with mem := h'.mem }
  leaves : Leaves l h h'

theorem splitBlock_spec {q : List Seg} (f : Fixed h) (c : Chain h h.xStart q) (hn : q.length ≤ n)
    (size : xBlockSize h t.lo = t.len) (pt : Placed h t) (pq : ∀ x ∈ q, Placed h x) (parted : q.Pairwise Seg.Parted)
    (apart : ∀ x ∈ q, x.Apart t) (pos : 0 < w) (dvd : 64 ∣ w)
    (cases : ¬ heapMinimumBlockSize < t.len - w ∧ s = t ∧ r = q ∨
      heapMinimumBlockSize < t.len - w ∧ s = ⟨t.lo, w⟩ ∧ r = FreeList.insert ⟨t.lo + w, t.len - w⟩ q) :
    ∃ h', splitBlock n h w t.lo = some h' ∧ Split h (t :: q) s r h' := by
  rcases cases with ⟨small, rfl, rfl⟩ | ⟨large, rfl, rfl⟩
  · exact ⟨h, if_neg (by rwa [size]), f, c, size, pt, pq, rfl, rfl, rfl, fun _ _ _ _ => rfl⟩
  · have lt : w < t.len := by omega
    obtain ⟨front, tail⟩ := pt.parts dvd lt
    have endLt := f.endLt
    have le : t.lo + t.len ≤ h.pxEnd := pt.le
    unfold xBlockAllocatedBit at endLt
    have far : Far (t.lo + w) t.lo := (far_of_lt pt.lo tail.lo (Nat.lt_add_of_pos_right pos)).symm
    have apart' (x : Seg) (hx : x ∈ q) : x.Apart ⟨t.lo + w, t.len - w⟩ := ((apart x hx).symm.tail lt).symm
    have two : Touches [t.lo + w, t.lo] h (setBlockSize (setBlockSize h (t.lo + w) (t.len - w)) t.lo w) :=
      (touches_setSize.mono (by simp)).trans (touches_setSize.mono (by simp))
    have same (p : Nat) (a : Far (t.lo + w) p) (b : Far t.lo p) := two.sameLink (List.forall_mem_cons.mpr ⟨a, List.forall_mem_singleton.mpr b⟩)
    have start := same h.xStart tail.start_far.symm pt.start_far.symm
    have fixed := f.touch two (List.forall_mem_cons.mpr ⟨tail.end_far f, List.forall_mem_singleton.mpr (pt.end_far f)⟩) start.2
    obtain ⟨h', inserted, fixed', chain, touches⟩ := insert_spec (b := ⟨t.lo + w, t.len - w⟩) fixed
      (c.move start.1 rfl fun x hx => same x.lo (tail.far (pq x hx) (apart' x hx).symm)
        (pt.far (pq x hx) (apart x hx).symm)) hn
      ((sameLink_setSize far.symm).2.trans (size_setSize (by omega)))
      (two.placed tail) (fun x hx => two.placed (pq x hx)) parted apart'
    have all : Touches (h.xStart :: (t :: ⟨t.lo + w, t.len - w⟩ :: q).map Seg.lo) h h' := by
      refine (two.mono fun x hx => ?_).trans (touches.mono fun x hx => ?_)
      · simp only [List.mem_cons, List.not_mem_nil, or_false, List.map_cons] at hx ⊢
        tauto
      · simp only [List.mem_cons, List.map_cons] at hx ⊢
        tauto
    refine ⟨h', ?_, fixed', chain, ?_, all.placed front, ?_, all.vars, all.xStart, all.pxEnd,
      fun pu hu i hi => ?_⟩
    · rw [splitBlock, size, if_pos large]
      exact inserted
    · refine (touches.sameLink ?_).2.trans (size_setSize (by omega))
      simp only [List.map_cons, List.forall_mem_cons, List.forall_mem_map]
      exact ⟨pt.start_far, far, fun x hx => (pq x hx).far pt (apart x hx)⟩
    · exact fun x hx => all.placed (forall_insert (P := Placed h) Placed.join tail pq x hx)
    · obtain ⟨ht, hq⟩ := List.forall_mem_cons.mp hu
      refine all.keeps ?_ pu ?_ hi
      · simp only [List.forall_mem_cons]
        exact ⟨pt, tail, pq⟩
      · simp only [List.forall_mem_cons]
        exact ⟨ht, ht.tail lt, hq⟩

theorem Leaves.placed {l : List Seg} (a : Leaves l h h') (ps : Placed h s) : Placed h' s := ps.vars a.pxEnd a.xStart

theorem Leaves.sameLink {l : List Seg} (a : Leaves l h h') (pu : Placed h s) (pos : 0 < s.len)
    (apart : ∀ x ∈ l, x.Apart s) : SameLink h h' s.lo := by
  obtain ⟨k, hk⟩ := pu.len
  refine sameLink_of_mem fun i lower upper => a.mem pu apart i ⟨lower, ?_⟩
  unfold Seg.hi
  omega

theorem Fixed.counters {a b : Nat} (f : Fixed h) :
    Fixed { h with xFreeBytesRemaining := a, xMinimumEverFreeBytesRemaining := b } :=
  ⟨f.endPos, f.endLo, f.endLt, f.endNext, f.endSize, f.startSize, f.start⟩

theorem takeBlock_eq {p a len : Nat} {m : Vars}
    (split : splitBlock n (setNextFreeBlock h p (pxNextFreeBlock h a)) w a = some m) (size : xBlockSize m a = len)
    (lt : len < xBlockAllocatedBit) :
    takeBlock n h w p a = some { setNextFreeBlock (setBlockSize m a (len + xBlockAllocatedBit)) a 0 with
      xFreeBytesRemaining := m.xFreeBytesRemaining - len
      xMinimumEverFreeBytesRemaining :=
        min (m.xFreeBytesRemaining - len) m.xMinimumEverFreeBytesRemaining } := by
  have least (a b : Nat) : (if a < b then a else b) = min a b := by
    split <;> omega
  rw [takeBlock, split, Option.map_some, size, or_bit lt]
  dsimp only
  rw [least]

theorem pvPortMalloc_found {k : UInt64} {p a : Nat} (init : h.pxEnd ≠ 0) (lt : k.toNat < xBlockAllocatedBit)
    (pos : 0 < blockSize k.toNat) (le : blockSize k.toNat ≤ h.xFreeBytesRemaining)
    (found : findBlock n h (blockSize k.toNat) h.xStart = some (p, a)) (next : pxNextFreeBlock h p = a)
    (inside : a ≠ h.pxEnd) (taken : takeBlock n h (blockSize k.toNat) p a = some h') :
    pvPortMalloc n h k = some (h', some (a + xHeapStructSize)) := by
  have room : 0 < blockSize k.toNat ∧ blockSize k.toNat ≤ h.xFreeBytesRemaining := ⟨pos, le⟩
  rw [pvPortMalloc, if_pos init, if_pos ((and_bit k.toNat_lt).mpr lt)]
  dsimp only
  rw [if_pos room, found, Option.bind_some, if_pos inside, taken, Option.map_some, next]

/-- The block that `carve` picks is given out. -/
theorem malloc_some {k : UInt64} (rep : Rep h P) (hn : P.free.length ≤ n) (lt : k.toNat < xBlockAllocatedBit)
    (pos : 0 < blockSize k.toNat)
    (hcut : carve (blockSize k.toNat) heapMinimumBlockSize P.free = some (s, r)) :
    ∃ h', pvPortMalloc n h k = some (h', some (s.lo + xHeapStructSize)) ∧ Rep h' (P.give pos hcut) ∧
      Taken h' s xBlockAllocatedBit ∧ Leaves P.free h h' := by
  obtain ⟨f, chain, free, used, count, least⟩ := rep
  obtain ⟨t, q, fits, cases⟩ := carve_fits hcut
  obtain ⟨large, front, back, eq, rfl⟩ := firstFit_some fits
  have mem : t ∈ P.free := eq ▸ List.mem_append_right _ List.mem_cons_self
  have sub (x : Seg) (hx : x ∈ front ++ back) : x ∈ P.free := eq ▸ mem_of_remove hx
  obtain ⟨parted, apart⟩ := parted_remove (eq ▸ P.parted)
  obtain ⟨p, found, next, hp, size, linked⟩ := findBlock_some chain hn free P.parted
    (fun x hx => (free x hx).start_far) fits
  have pt := free t mem
  have lo : s.lo = t.lo := by
    rcases cases with ⟨-, rfl, -⟩ | ⟨-, rfl, -⟩ <;> rfl
  have unlink : Touches [p] h (setNextFreeBlock h p (pxNextFreeBlock h t.lo)) := touches_setNext
  have fixed : Fixed (setNextFreeBlock h p (pxNextFreeBlock h t.lo)) := by
    rcases List.mem_cons.mp hp with rfl | hp
    · exact f.touch unlink (List.forall_mem_singleton.mpr f.start) size_setNext
    · obtain ⟨y, hy, rfl⟩ := List.mem_map.mp hp
      exact f.touch unlink (List.forall_mem_singleton.mpr ((free y hy).end_far f))
        (sameLink_setNext (free y hy).start_far.symm).2
  obtain ⟨m, split, sp⟩ := splitBlock_spec fixed linked
    (le_trans (by simp [eq]) hn) size (unlink.placed pt) (fun x hx => unlink.placed (free x (sub x hx))) parted apart
    pos (blockSize_dvd _) cases
  have endLt := f.endLt
  have le : s.lo + s.len ≤ m.pxEnd := sp.block.le
  have top : m.pxEnd = h.pxEnd := sp.leaves.pxEnd
  have short : s.len < xBlockAllocatedBit := by omega
  have taken := takeBlock_eq split (lo ▸ sp.size) short
  have room : blockSize k.toNat ≤ h.xFreeBytesRemaining := count ▸ large.trans (le_total mem)
  have marked : Touches [s.lo] m (setNextFreeBlock (setBlockSize m s.lo (s.len + xBlockAllocatedBit)) s.lo 0) :=
    touches_setSize.trans touches_setNext
  have same (x : Nat) (far : Far s.lo x) := marked.sameLink (List.forall_mem_singleton.mpr far)
  have start := same _ sp.block.start_far.symm
  have fixed := sp.fixed.touch marked (List.forall_mem_singleton.mpr (sp.block.end_far sp.fixed)) start.2
  have chain := sp.chain.move (q := m.xStart) start.1 marked.pxEnd fun x hx => same x.lo
    (sp.block.far (sp.rest x hx) ((P.give pos hcut).apart x hx s List.mem_cons_self).symm)
  refine ⟨_, lo ▸ pvPortMalloc_found f.endPos.ne' lt pos room found next pt.lt.ne taken, ?_, ?_, ?_⟩
  · refine ⟨fixed.counters, chain.vars rfl rfl, fun x hx => (sp.rest x hx).vars rfl rfl, ?_, ?_, min_le_left _ _⟩
    · exact List.forall_mem_cons.mpr ⟨sp.block.vars rfl rfl, fun u hu => (sp.leaves.placed (unlink.placed (used u hu))).vars rfl rfl⟩
    · have whole := P.size_give pos hcut
      change total r + (s.len + total P.used) = total P.free + total P.used at whole
      change m.xFreeBytesRemaining - s.len = total r
      rw [sp.vars]
      change h.xFreeBytesRemaining - s.len = total r
      omega
  · refine ⟨next_setNext (by decide), (size_setNext (v := 0)).trans (size_setSize ?_)⟩
    unfold xBlockAllocatedBit at short ⊢
    omega
  · refine ⟨sp.leaves.xStart, top, fun {u} pu hu i hi => ?_⟩
    have ht := hu t mem
    have away : s.Apart u := by
      refine ht.front lo ?_
      rcases cases with ⟨-, rfl, -⟩ | ⟨-, rfl, -⟩
      · exact le_rfl
      · omega
    have rest : ∀ x ∈ t :: (front ++ back), x.Apart u :=
      List.forall_mem_cons.mpr ⟨ht, fun x hx => hu x (sub x hx)⟩
    calc
      _ = m.mem i := marked.mem (List.forall_mem_singleton.mpr
        (sp.block.outside (sp.leaves.placed (unlink.placed pu)) away hi))
      _ = (setNextFreeBlock h p (pxNextFreeBlock h t.lo)).mem i := sp.leaves.mem (unlink.placed pu) rest i hi
      _ = h.mem i := unlink.mem <| List.forall_mem_singleton.mpr <| by
        rcases List.mem_cons.mp hp with rfl | hp
        · exact pu.start_outside hi
        · obtain ⟨y, hy, rfl⟩ := List.mem_map.mp hp
          exact (free y hy).outside pu (hu y hy) hi

/-- Otherwise the heap stays as it is. -/
theorem malloc_none {k : UInt64} (rep : Rep h P) (hn : P.free.length ≤ n)
    (fails : k.toNat < xBlockAllocatedBit → 0 < blockSize k.toNat →
      carve (blockSize k.toNat) heapMinimumBlockSize P.free = none) : pvPortMalloc n h k = some (h, none) := by
  rw [pvPortMalloc, if_pos rep.fixed.endPos.ne']
  split
  · rename_i small
    dsimp only
    split
    · rename_i room
      have none := firstFit_none.mpr (carve_none.mp (fails ((and_bit k.toNat_lt).mp small) room.1))
      obtain ⟨q, found⟩ := findBlock_none (p := h.xStart) rep.fixed rep.chain hn rep.free none
      rw [found, Option.bind_some, if_neg (not_not.2 rfl)]
    · rfl
  · rfl

theorem Taken.unmark (taken : Taken h u xBlockAllocatedBit) (lt : u.len < xBlockAllocatedBit) :
    freeMark h (u.lo + xHeapStructSize) = some (setBlockSize h u.lo u.len) := by
  have bit : (u.len + xBlockAllocatedBit) &&& (xBlockAllocatedBit - 1) = u.len := by
    unfold xBlockAllocatedBit at lt ⊢
    rw [Nat.and_two_pow_sub_one_eq_mod, Nat.add_mod_right, Nat.mod_eq_of_lt lt]
  have set : (u.len + xBlockAllocatedBit) &&& xBlockAllocatedBit ≠ 0 := by
    have lt' : u.len + xBlockAllocatedBit < 2 ^ 64 := by
      unfold xBlockAllocatedBit at lt ⊢
      omega
    rw [Ne, and_bit lt']
    omega
  rw [freeMark, Nat.add_sub_cancel, taken.1, taken.2, bit]
  exact if_pos ⟨set, rfl⟩

theorem Rep.short (rep : Rep h P) (hu : u ∈ P.used) : u.len < xBlockAllocatedBit := by
  have le := (rep.used u hu).le
  have endLt := rep.fixed.endLt
  unfold Seg.hi at le
  omega

/-- What stays within blocks that are not in the list leaves the list alone. -/
theorem Rep.inside {l : List Seg} (rep : Rep h P) (sub : ∀ u ∈ l, u ∈ P.used)
    (vars : h' = { h with mem := h'.mem }) (mem : ∀ i, (∀ u ∈ l, i ∉ u.cells) → h'.mem i = h.mem i) :
    Rep h' P := by
  have top : h'.pxEnd = h.pxEnd := by rw [vars]
  have first : h'.xStart = h.xStart := by rw [vars]
  have link {p : Nat} (out : ∀ u ∈ l, ∀ i ∈ u.cells, i < p ∨ p + 16 ≤ i) : SameLink h h' p :=
    sameLink_of_mem fun i lower upper => mem i fun u hu hi => by
      have o := out u hu i hi
      omega
  have start : SameLink h h' h.xStart := link fun u hu i hi => (rep.used u (sub u hu)).start_outside hi
  have last : SameLink h h' h.pxEnd := link fun u hu i hi => .inl (hi.2.trans_le (rep.used u (sub u hu)).le)
  obtain ⟨f, chain, free, used, count, least⟩ := rep
  refine ⟨⟨?_, ?_, ?_, ?_, ?_, ?_, ?_⟩, ?_, fun x hx => (free x hx).vars top first,
    fun x hx => (used x hx).vars top first, ?_, ?_⟩
  · exact top ▸ f.endPos
  · exact top ▸ f.endLo
  · exact top ▸ f.endLt
  · rw [top, last.1, f.endNext]
  · rw [top, last.2, f.endSize]
  · rw [first, start.2, f.startSize]
  · rw [top, first]
    exact f.start
  · rw [first]
    exact chain.move start.1 top fun x hx => link fun u hu i hi =>
      (free x hx).outside (used u (sub u hu)) (P.apart x hx u (sub u hu)) hi
  · rw [vars]
    exact count
  · rw [vars]
    exact least

/-- The block goes into the list. -/
theorem freeInsert_spec (rep : Rep h P) (hn : P.free.length ≤ n) (hu : u ∈ P.used) (taken : Taken h u 0) :
    ∃ h', freeInsert n h u.lo = some h' ∧ Rep h' (P.back hu) ∧ Leaves (u :: P.free) h h' := by
  obtain ⟨f, chain, free, used, count, least⟩ := rep
  let m : Vars := { h with xFreeBytesRemaining := h.xFreeBytesRemaining + xBlockSize h u.lo }
  obtain ⟨h', inserted, fixed, chain', touches⟩ := insert_spec (h := m) (b := u) f.counters
    (chain.vars rfl rfl) hn taken.2 ((used u hu).vars rfl rfl) (fun t ht => (free t ht).vars rfl rfl) P.parted
    fun t ht => P.apart t ht u hu
  have free' := forall_insert (P := Placed h) Placed.join (used u hu) free
  refine ⟨h', inserted, ⟨fixed, chain', fun x hx => (free' x hx).vars touches.pxEnd touches.xStart,
    fun x hx => (used x (List.mem_of_mem_erase hx)).vars touches.pxEnd touches.xStart, ?_, ?_⟩,
    touches.xStart, touches.pxEnd, fun {x} px away i hi => ?_⟩
  · rw [touches.vars]
    change h.xFreeBytesRemaining + xBlockSize h u.lo = total (FreeList.insert u P.free)
    rw [taken.2, count, total_insert, Nat.add_zero, Nat.add_comm]
  · rw [touches.vars]
    exact le_add_right least
  · exact touches.keeps (h := m) (l := u :: P.free)
      (List.forall_mem_cons.mpr ⟨(used u hu).vars rfl rfl, fun t ht => (free t ht).vars rfl rfl⟩)
      (px.vars rfl rfl) away hi

end calls

end En675.Heap5
