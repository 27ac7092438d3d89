import En675.Core.HeapCalls

/-! `vPortDefineHeapRegions`: every region becomes one free block, with a link of size 0 at the end of all but the
last, whose end is `pxEnd`. -/

namespace En675.Heap5

open Lib FreeList

def alignUp (a : Nat) : Nat := (a + 63) / 64 * 64

/-- Where the link at the end of a region lies. -/
def regionEnd (r : Nat × Nat) : Nat := (r.1 + r.2 - xHeapStructSize) / 64 * 64

def regionBlock (r : Nat × Nat) : Seg := ⟨alignUp r.1, regionEnd r - alignUp r.1⟩

/-- The free list behind the end `e` of a region. -/
def regionsBehind : Nat → List (Nat × Nat) → List Seg
  | _, [] => []
  | e, r :: regions => ⟨e, 0⟩ :: regionBlock r :: regionsBehind (regionEnd r) regions

def bootList : List (Nat × Nat) → List Seg
  | [] => []
  | r :: regions => regionBlock r :: regionsBehind (regionEnd r) regions

/-- Room for a block and the link at the end, and none for `xStart`. -/
structure Usable (xStart : Nat) (r : Nat × Nat) : Prop where
  pos : 0 < r.1
  room : alignUp r.1 + 128 ≤ r.1 + r.2
  top : r.1 + r.2 ≤ xBlockAllocatedBit
  start : xStart + 16 ≤ r.1 ∨ r.1 + r.2 ≤ xStart

/-- What `vPortDefineHeapRegions` is given, up to the entry that ends the array. -/
structure Regions (xStart : Nat) where
  list : List (Nat × Nat)
  ne : list ≠ []
  usable : ∀ r ∈ list, Usable xStart r
  ascending : list.Pairwise fun r s => r.1 + r.2 ≤ s.1

section region

variable {h : Vars} {l : List Seg} {r : Nat × Nat} {regions : List (Nat × Nat)} {xStart e : Nat}

theorem le_alignUp (a : Nat) : a ≤ alignUp a := by
  unfold alignUp
  omega

theorem alignUp_dvd (a : Nat) : 64 ∣ alignUp a := Nat.dvd_mul_left ..

theorem aligned_eq (a : Nat) : (if a % 64 ≠ 0 then (a + 63) / 64 * 64 else a) = alignUp a := by
  unfold alignUp
  split <;> omega

theorem regionEnd_dvd (r : Nat × Nat) : 64 ∣ regionEnd r := Nat.dvd_mul_left ..

theorem regionEnd_le (hr : Usable xStart r) : regionEnd r + 64 ≤ r.1 + r.2 := by
  have room := hr.room
  unfold regionEnd xHeapStructSize
  omega

theorem alignUp_lt (hr : Usable xStart r) : alignUp r.1 + 64 ≤ regionEnd r := by
  have room := hr.room
  have dvd := alignUp_dvd r.1
  unfold regionEnd xHeapStructSize
  omega

theorem regionBlock_hi (hr : Usable xStart r) : (regionBlock r).hi = regionEnd r := by
  have lt := alignUp_lt hr
  unfold Seg.hi regionBlock
  dsimp only
  omega

@[simp] theorem regionBlock_lo : (regionBlock r).lo = alignUp r.1 := rfl

theorem bootList_lo (usable : ∀ s ∈ r :: regions, Usable xStart s)
    (ascending : (r :: regions).Pairwise fun r s => r.1 + r.2 ≤ s.1) :
    ∀ s ∈ bootList (r :: regions), alignUp r.1 ≤ s.lo := by
  induction regions generalizing r with
  | nil => exact List.forall_mem_singleton.mpr le_rfl
  | cons t regions ih =>
    obtain ⟨hr, usable⟩ := List.forall_mem_cons.mp usable
    obtain ⟨behind, ascending⟩ := List.pairwise_cons.mp ascending
    have lt := alignUp_lt hr
    have le := regionEnd_le hr
    have next := behind t List.mem_cons_self
    have up := le_alignUp t.1
    refine List.forall_mem_cons.mpr ⟨le_rfl, List.forall_mem_cons.mpr ⟨?_, fun s hs => ?_⟩⟩
    · exact Nat.le_of_add_right_le lt
    have beyond := ih usable ascending s hs
    omega

/-- Each block ends in front of the next one, with a link of size 0 between them. -/
theorem bootList_parted (usable : ∀ s ∈ r :: regions, Usable xStart s)
    (ascending : (r :: regions).Pairwise fun r s => r.1 + r.2 ≤ s.1) :
    (bootList (r :: regions)).Pairwise Seg.Parted := by
  induction regions generalizing r with
  | nil => exact List.pairwise_singleton _ _
  | cons t regions ih =>
    obtain ⟨hr, usable⟩ := List.forall_mem_cons.mp usable
    obtain ⟨behind, ascending⟩ := List.pairwise_cons.mp ascending
    have hi := regionBlock_hi hr
    have lt := alignUp_lt hr
    have beyond (s : Seg) (hs : s ∈ bootList (t :: regions)) : regionEnd r < s.lo := by
      have le := regionEnd_le hr
      have next := behind t List.mem_cons_self
      have up := le_alignUp t.1
      have lower := bootList_lo usable ascending s hs
      omega
    refine List.pairwise_cons.mpr ⟨?_, List.pairwise_cons.mpr ⟨fun s hs => ?_, ih usable ascending⟩⟩
    · refine List.forall_mem_cons.mpr ⟨⟨⟨Nat.lt_of_lt_of_le (Nat.lt_add_of_pos_right (by decide)) lt,
        hi.le⟩, fun _ => rfl⟩, fun s hs => ?_⟩
      have far := beyond s hs
      refine ⟨⟨?_, hi.trans_le far.le⟩, fun touch => absurd (hi.symm.trans touch) far.ne⟩
      rw [regionBlock_lo]
      omega
    · have far := beyond s hs
      exact ⟨⟨far, far.le⟩, fun touch => absurd touch far.ne⟩

end region

/-- The heap with nothing given out. -/
def Regions.pool {xStart : Nat} (R : Regions xStart) : Pool where
  free := bootList R.list
  used := []
  parted := by
    obtain ⟨list, ne, usable, ascending⟩ := R
    obtain ⟨r, regions, rfl⟩ := List.exists_cons_of_ne_nil ne
    exact bootList_parted usable ascending
  apart _ _ _ hu := by cases hu
  usedApart := .nil
  pos _ hu := by cases hu

section define_

variable {h h' : Vars} {p a v w total : Nat} {l : List Seg} {r : Nat × Nat} {regions : List (Nat × Nat)}

/-- `l` is the list of the regions so far. -/
structure Built (h : Vars) (l : List Seg) : Prop where
  fixed : Fixed h
  chain : Chain h h.xStart l
  placed : ∀ s ∈ l, Placed h s

/-- A list that goes on behind the link it ended with. -/
theorem Chain.extend {k : List Seg} (c : Chain h p l) (head : pxNextFreeBlock h' p = pxNextFreeBlock h p)
    (same : ∀ s ∈ l, SameLink h h' s.lo) (size : xBlockSize h' h.pxEnd = 0) (rest : Chain h' h.pxEnd k) :
    Chain h' p (l ++ ⟨h.pxEnd, 0⟩ :: k) := by
  induction l generalizing p with
  | nil => exact ⟨head.trans c, size, rest⟩
  | cons s l ih =>
    obtain ⟨next, ssize, c⟩ := c
    have here := same s List.mem_cons_self
    exact ⟨head.trans next, here.2.trans ssize, ih c here.1 fun t ht => same t (List.mem_cons_of_mem _ ht)⟩

def setLink (h : Vars) (p size next : Nat) : Vars := setNextFreeBlock (setBlockSize h p size) p next

theorem setLink_spec (hv : v < 2 ^ 64) (hw : w < 2 ^ 64) :
    pxNextFreeBlock (setLink h p v w) p = w ∧ xBlockSize (setLink h p v w) p = v :=
  ⟨next_setNext hw, size_setNext.trans (size_setSize hv)⟩

theorem touches_setLink : Touches [p] h (setLink h p v w) := touches_setSize.trans touches_setNext

theorem regionEnd_eq (hr : Usable p r) :
    (alignUp r.1 + (r.2 - (alignUp r.1 - r.1)) - xHeapStructSize) / 64 * 64 = regionEnd r := by
  have room := hr.room
  have up := le_alignUp r.1
  unfold regionEnd
  rw [show alignUp r.1 + (r.2 - (alignUp r.1 - r.1)) = r.1 + r.2 by omega]

/-- The links of a region. -/
def linkRegion (h : Vars) (r : Nat × Nat) : Vars :=
  setLink (setLink { h with pxEnd := regionEnd r } (regionEnd r) 0 0) (alignUp r.1) (regionEnd r - alignUp r.1)
    (regionEnd r)

theorem defineRegion_first (total : Nat) (none : h.pxEnd = 0) (hr : Usable p r) :
    defineRegion true h total r.1 r.2 =
      some (linkRegion (setBlockSize (setNextFreeBlock h h.xStart (alignUp r.1)) h.xStart 0) r,
        total + xBlockSize (linkRegion (setBlockSize (setNextFreeBlock h h.xStart (alignUp r.1)) h.xStart 0) r)
          (alignUp r.1)) := by
  unfold defineRegion
  dsimp only
  rw [aligned_eq, regionEnd_eq hr, if_pos (.inl rfl), if_pos rfl, if_neg (not_not.2 none)]
  rfl

theorem defineRegion_next (total : Nat) (some : h.pxEnd ≠ 0) (lt : h.pxEnd < alignUp r.1) (hr : Usable p r) :
    defineRegion false h total r.1 r.2 =
      .some (setNextFreeBlock (linkRegion h r) h.pxEnd (alignUp r.1),
        total + xBlockSize (setNextFreeBlock (linkRegion h r) h.pxEnd (alignUp r.1)) (alignUp r.1)) := by
  unfold defineRegion
  dsimp only
  rw [aligned_eq, regionEnd_eq hr, if_pos (.inr ⟨some, lt⟩), if_neg Bool.false_ne_true, if_pos some]
  rfl

theorem linkRegion_spec (hr : Usable p r) :
    Touches [regionEnd r, alignUp r.1] { h with pxEnd := regionEnd r } (linkRegion h r) ∧
      pxNextFreeBlock (linkRegion h r) (regionEnd r) = 0 ∧ xBlockSize (linkRegion h r) (regionEnd r) = 0 ∧
      pxNextFreeBlock (linkRegion h r) (alignUp r.1) = regionEnd r ∧
      xBlockSize (linkRegion h r) (alignUp r.1) = regionEnd r - alignUp r.1 := by
  have lt := alignUp_lt hr
  have le := regionEnd_le hr
  have top := hr.top
  unfold xBlockAllocatedBit at top
  have far : Far (alignUp r.1) (regionEnd r) := .inl (by omega)
  have last := setLink_spec (h := { h with pxEnd := regionEnd r }) (p := regionEnd r) (v := 0) (w := 0)
    (by decide) (by decide)
  have first := setLink_spec (h := setLink { h with pxEnd := regionEnd r } (regionEnd r) 0 0) (p := alignUp r.1)
    (v := regionEnd r - alignUp r.1) (w := regionEnd r) (by omega) (by omega)
  have keeps : SameLink _ (linkRegion h r) (regionEnd r) := touches_setLink.sameLink (List.forall_mem_singleton.mpr far)
  refine ⟨(touches_setLink.mono (by simp)).trans (touches_setLink.mono (by simp)), keeps.1.trans last.1,
    keeps.2.trans last.2, first⟩

theorem Usable.placed (hr : Usable h.xStart r) (top : h'.pxEnd = regionEnd r) (first : h'.xStart = h.xStart) :
    Placed h' (regionBlock r) := by
  have lt := alignUp_lt hr
  have up := le_alignUp r.1
  have pos := hr.pos
  have start := hr.start
  have le := regionEnd_le hr
  have hi := regionBlock_hi hr
  refine ⟨alignUp_dvd _, Nat.dvd_sub (regionEnd_dvd r) (alignUp_dvd _), ?_, ?_, ?_, ?_⟩
  · rw [regionBlock_lo]
    omega
  · rw [regionBlock_lo, top]
    omega
  · exact (hi.trans top.symm).le
  · rw [regionBlock_lo, hi, first]
    omega

/-- `pxEnd` at the end of a region. -/
theorem Usable.fixed (hr : Usable h.xStart r) (top : h'.pxEnd = regionEnd r) (first : h'.xStart = h.xStart)
    (endNext : pxNextFreeBlock h' (regionEnd r) = 0) (endSize : xBlockSize h' (regionEnd r) = 0)
    (startSize : xBlockSize h' h.xStart = 0) : Fixed h' := by
  have lt := alignUp_lt hr
  have up := le_alignUp r.1
  have le := regionEnd_le hr
  have start := hr.start
  have bound := hr.top
  refine ⟨?_, top ▸ regionEnd_dvd r, ?_, top ▸ endNext, top ▸ endSize, first ▸ startSize, ?_⟩
  · omega
  · omega
  · unfold Far
    omega

theorem Usable.start_far (hr : Usable p r) : ∀ q ∈ [regionEnd r, alignUp r.1], Far q p := by
  have lt := alignUp_lt hr
  have up := le_alignUp r.1
  have le := regionEnd_le hr
  have start := hr.start
  unfold Far
  simp only [List.forall_mem_cons]
  exact ⟨by omega, by omega, fun _ hx => by cases hx⟩

theorem built_first (total : Nat) (hr : Usable h.xStart r) (none : h.pxEnd = 0) :
    ∃ h', defineRegion true h total r.1 r.2 = some (h', total + (regionBlock r).len) ∧
      Built h' [regionBlock r] ∧ h'.pxEnd = regionEnd r ∧ h'.xStart = h.xStart := by
  obtain ⟨touches, endNext, endSize, next, size⟩ :=
    linkRegion_spec (h := setBlockSize (setNextFreeBlock h h.xStart (alignUp r.1)) h.xStart 0) hr
  have eq := defineRegion_first total none hr
  rw [size] at eq
  have lt := alignUp_lt hr
  have le := regionEnd_le hr
  have top := hr.top
  unfold xBlockAllocatedBit at top
  have same := touches.sameLink hr.start_far
  have head : pxNextFreeBlock (setBlockSize (setNextFreeBlock h h.xStart (alignUp r.1)) h.xStart 0) h.xStart =
      alignUp r.1 := next_setSize.trans (next_setNext (by omega))
  have zero : xBlockSize (setBlockSize (setNextFreeBlock h h.xStart (alignUp r.1)) h.xStart 0) h.xStart = 0 :=
    size_setSize (by decide)
  refine ⟨_, eq, ⟨?_, ⟨same.1.trans head, size, next⟩, ?_⟩, rfl, rfl⟩
  · exact hr.fixed rfl rfl endNext endSize (same.2.trans zero)
  · exact List.forall_mem_singleton.mpr (hr.placed rfl rfl)

theorem Built.next (b : Built h l) (total : Nat) (hr : Usable h.xStart r) (past : h.pxEnd + 64 ≤ r.1) :
    ∃ h', defineRegion false h total r.1 r.2 = some (h', total + (regionBlock r).len) ∧
      Built h' (l ++ [⟨h.pxEnd, 0⟩, regionBlock r]) ∧ h'.pxEnd = regionEnd r ∧ h'.xStart = h.xStart := by
  obtain ⟨f, chain, placed⟩ := b
  obtain ⟨touches, endNext, endSize, next, size⟩ := linkRegion_spec (h := h) hr
  have lt := alignUp_lt hr
  have up := le_alignUp r.1
  have le := regionEnd_le hr
  have top := hr.top
  unfold xBlockAllocatedBit at top
  have eq := defineRegion_next total f.endPos.ne' (by omega) hr
  have last : Touches [h.pxEnd] (linkRegion h r) (setNextFreeBlock (linkRegion h r) h.pxEnd (alignUp r.1)) :=
    touches_setNext
  have away {q : Nat} (far : Far h.pxEnd q) := last.sameLink (List.forall_mem_singleton.mpr far)
  have atEnd := away (q := regionEnd r) (.inl (by omega))
  have block := away (q := alignUp r.1) (.inl (by omega))
  rw [block.2, size] at eq
  have same {q : Nat} (far : Far h.pxEnd q) (out : ∀ p ∈ [regionEnd r, alignUp r.1], Far p q) :
      SameLink h (setNextFreeBlock (linkRegion h r) h.pxEnd (alignUp r.1)) q :=
    (touches.sameLink out).trans (away far)
  have start := same f.start.symm hr.start_far
  have below {s : Seg} (hs : s ∈ l) : SameLink h (setNextFreeBlock (linkRegion h r) h.pxEnd (alignUp r.1)) s.lo := by
    have far := (placed s hs).end_far f
    have lower := (placed s hs).lt
    refine same far.symm ?_
    unfold Far at far ⊢
    simp only [List.forall_mem_cons]
    exact ⟨by omega, by omega, fun _ hx => by cases hx⟩
  have old : SameLink h (linkRegion h r) h.pxEnd := touches.sameLink <| by
    unfold Far
    simp only [List.forall_mem_cons]
    exact ⟨by omega, by omega, fun _ hx => by cases hx⟩
  refine ⟨_, eq, ⟨?_, ?_, ?_⟩, rfl, rfl⟩
  · exact hr.fixed rfl rfl (atEnd.1.trans endNext) (atEnd.2.trans endSize) (start.2.trans f.startSize)
  · refine chain.extend start.1 (fun s hs => below hs) (size_setNext.trans (old.2.trans f.endSize)) ?_
    exact ⟨next_setNext (by omega), block.2.trans size, block.1.trans next⟩
  · refine List.forall_mem_append.mpr ⟨fun s hs => ?_, List.forall_mem_cons.mpr ⟨?_, List.forall_mem_singleton.mpr ?_⟩⟩
    · obtain ⟨lo, len, pos, lower, upper, far⟩ := placed s hs
      exact ⟨lo, len, pos, lower.trans (by change h.pxEnd < regionEnd r; omega),
        upper.trans (by change h.pxEnd ≤ regionEnd r; omega), far⟩
    · have far := f.start
      unfold Far at far
      refine ⟨f.endLo, dvd_zero _, f.endPos, ?_, ?_, ?_⟩
      · change h.pxEnd < regionEnd r
        omega
      · change h.pxEnd + 0 ≤ regionEnd r
        omega
      · change h.xStart + 16 ≤ h.pxEnd ∨ h.pxEnd + 16 ≤ h.xStart ∧ h.pxEnd + 0 ≤ h.xStart
        omega
    · exact hr.placed rfl rfl

theorem defineRegions_built (b : Built h l) (total : Nat) (usable : ∀ s ∈ regions, Usable h.xStart s)
    (ascending : regions.Pairwise fun r s => r.1 + r.2 ≤ s.1) (past : ∀ s ∈ regions, h.pxEnd + 64 ≤ s.1) :
    ∃ h', defineRegions regions false h total =
        some (h', total + FreeList.total (regionsBehind h.pxEnd regions)) ∧
      Built h' (l ++ regionsBehind h.pxEnd regions) ∧ h'.xStart = h.xStart := by
  induction regions generalizing h l total with
  | nil => exact ⟨h, rfl, by rwa [regionsBehind, List.append_nil], rfl⟩
  | cons r regions ih =>
    obtain ⟨hr, usable⟩ := List.forall_mem_cons.mp usable
    obtain ⟨behind, ascending⟩ := List.pairwise_cons.mp ascending
    obtain ⟨m, first, b, top, start⟩ := b.next total hr (past r List.mem_cons_self)
    have le := regionEnd_le hr
    obtain ⟨h', rest, b', start'⟩ := ih b (total + (regionBlock r).len) (start ▸ usable) ascending
      fun s hs => (top ▸ le).trans (behind s hs)
    have pos : 0 < r.2 := by
      have room := hr.room
      have up := le_alignUp r.1
      omega
    refine ⟨h', ?_, ?_, start'.trans start⟩
    · rw [defineRegions, if_pos pos, first, Option.bind_some]
      dsimp only
      rw [rest, top, regionsBehind, total_cons, total_cons, Nat.zero_add, Nat.add_assoc]
    · rw [List.append_assoc, top] at b'
      exact b'

/-- The regions become the free list. -/
theorem define_rep (R : Regions p) (m : Mem) :
    ∃ h, vPortDefineHeapRegions m p R.list = some h ∧ Rep h R.pool ∧ h.xStart = p := by
  obtain ⟨list, ne, usable, ascending⟩ := R
  obtain ⟨r, regions, rfl⟩ := List.exists_cons_of_ne_nil ne
  obtain ⟨hr, usable'⟩ := List.forall_mem_cons.mp usable
  obtain ⟨behind, ascending'⟩ := List.pairwise_cons.mp ascending
  obtain ⟨h₁, first, b, top, start⟩ := built_first (h := ⟨m, p, 0, 0, 0⟩) 0 hr rfl
  have le := regionEnd_le hr
  obtain ⟨h₂, rest, b', start'⟩ := defineRegions_built b (0 + (regionBlock r).len) (start ▸ usable')
    ascending' fun s hs => (top ▸ le).trans (behind s hs)
  have pos : 0 < r.2 := by
    have room := hr.room
    have up := le_alignUp r.1
    omega
  have total : 0 + (regionBlock r).len + FreeList.total (regionsBehind h₁.pxEnd regions) =
      FreeList.total (bootList (r :: regions)) := by
    rw [top, Nat.zero_add]
    rfl
  have some : FreeList.total (bootList (r :: regions)) ≠ 0 := by
    have lt := alignUp_lt hr
    have len : 0 < (regionBlock r).len := by
      unfold regionBlock
      dsimp only
      omega
    exact (len.trans_le (le_total List.mem_cons_self)).ne'
  rw [top] at b'
  refine ⟨{ h₂ with
    xFreeBytesRemaining := FreeList.total (bootList (r :: regions))
    xMinimumEverFreeBytesRemaining := FreeList.total (bootList (r :: regions)) }, ?_,
    ⟨b'.fixed.counters, b'.chain.vars rfl rfl, fun s hs => (b'.placed s hs).vars rfl rfl, fun _ hu => ?_, rfl,
      Nat.le_refl _⟩, start'.trans start⟩
  · rw [vPortDefineHeapRegions, defineRegions, if_pos pos, first, Option.bind_some]
    dsimp only
    rw [rest, total, Option.bind_some]
    exact if_pos some
  · cases hu

end define_

end En675.Heap5
