import En675.Core.HeapBlocks

/-! The free list in memory: `Chain h p l` is the list `l` behind the link at `p`, up to `pxEnd`.  What
`prvInsertBlockIntoFreeList` and the search of `pvPortMalloc` do to it. -/

namespace En675.Heap5

open Lib

section links

variable {h h' : Vars} {p q v i : Nat}

@[simp] theorem setNextFreeBlock_pxEnd : (setNextFreeBlock h p v).pxEnd = h.pxEnd := rfl

@[simp] theorem setBlockSize_pxEnd : (setBlockSize h p v).pxEnd = h.pxEnd := rfl

/-- The links at `p` and `q` do not overlap. -/
def Far (p q : Nat) : Prop := p + 16 ≤ q ∨ q + 16 ≤ p

theorem Far.symm (h : Far p q) : Far q p := Or.symm h

theorem Far.ne (h : Far p q) : p ≠ q := by
  unfold Far at h
  omega

theorem next_setNext (hv : v < 2 ^ 64) : pxNextFreeBlock (setNextFreeBlock h p v) p = v := Mem.load_store hv

theorem size_setSize (hv : v < 2 ^ 64) : xBlockSize (setBlockSize h p v) p = v := Mem.load_store hv

@[simp] theorem next_setSize : pxNextFreeBlock (setBlockSize h p v) p = pxNextFreeBlock h p :=
  Mem.load_store_of_ne (.inr le_rfl)

@[simp] theorem size_setNext : xBlockSize (setNextFreeBlock h p v) p = xBlockSize h p :=
  Mem.load_store_of_ne (.inl le_rfl)

/-- What the stores to the link at `p` leave. -/
def Outside (p i : Nat) : Prop := i < p ∨ p + 16 ≤ i

theorem setNext_mem (hi : Outside p i) : (setNextFreeBlock h p v).mem i = h.mem i :=
  Mem.store_other <| by
    unfold Outside at hi
    omega

theorem setSize_mem (hi : Outside p i) : (setBlockSize h p v).mem i = h.mem i :=
  Mem.store_other <| by
    unfold Outside at hi
    omega

/-- The two hold the same link at `p`. -/
def SameLink (h h' : Vars) (p : Nat) : Prop :=
  pxNextFreeBlock h' p = pxNextFreeBlock h p ∧ xBlockSize h' p = xBlockSize h p

theorem sameLink_of_mem (same : ∀ i, p ≤ i → i < p + 16 → h'.mem i = h.mem i) : SameLink h h' p :=
  ⟨Mem.load_congr fun i lower upper => same i lower (by omega),
    Mem.load_congr fun i lower upper => same i (by omega) (by omega)⟩

theorem SameLink.trans {h'' : Vars} (a : SameLink h h' p) (b : SameLink h' h'' p) : SameLink h h'' p :=
  ⟨b.1.trans a.1, b.2.trans a.2⟩

theorem sameLink_setNext (far : Far p q) : SameLink h (setNextFreeBlock h p v) q :=
  sameLink_of_mem fun i lower upper => setNext_mem <| by
    unfold Far at far
    unfold Outside
    omega

theorem sameLink_setSize (far : Far p q) : SameLink h (setBlockSize h p v) q :=
  sameLink_of_mem fun i lower upper => setSize_mem <| by
    unfold Far at far
    unfold Outside
    omega

theorem next_lt : pxNextFreeBlock h p < 2 ^ 64 := Mem.load_lt _ _

/-- What is stored goes to the links at `ps`. -/
structure Touches (ps : List Nat) (h h' : Vars) : Prop where
  vars : h' = { h with mem := h'.mem }
  mem : ∀ {i}, (∀ p ∈ ps, Outside p i) → h'.mem i = h.mem i

theorem touches_setNext : Touches [p] h (setNextFreeBlock h p v) :=
  ⟨rfl, fun out => setNext_mem (out p List.mem_cons_self)⟩

theorem touches_setSize : Touches [p] h (setBlockSize h p v) :=
  ⟨rfl, fun out => setSize_mem (out p List.mem_cons_self)⟩

theorem Touches.refl (ps : List Nat) (h : Vars) : Touches ps h h := ⟨rfl, fun _ => rfl⟩

theorem Touches.trans {ps : List Nat} {h'' : Vars} (a : Touches ps h h') (b : Touches ps h' h'') :
    Touches ps h h'' :=
  ⟨b.vars.trans (by rw [a.vars]), fun out => (b.mem out).trans (a.mem out)⟩

theorem Touches.mono {ps qs : List Nat} (a : Touches ps h h') (sub : ps ⊆ qs) : Touches qs h h' :=
  ⟨a.vars, fun out => a.mem fun p hp => out p (sub hp)⟩

theorem Touches.sameLink {ps : List Nat} (a : Touches ps h h') (far : ∀ p ∈ ps, Far p q) : SameLink h h' q :=
  sameLink_of_mem fun i lower upper => a.mem fun p hp => by
    have apart := far p hp
    unfold Far at apart
    unfold Outside
    omega

theorem Touches.pxEnd {ps : List Nat} (a : Touches ps h h') : h'.pxEnd = h.pxEnd := by
  rw [a.vars]

theorem Touches.xStart {ps : List Nat} (a : Touches ps h h') : h'.xStart = h.xStart := by
  rw [a.vars]

theorem touches_joinNext : Touches [q] h (joinNext h p q) := by
  unfold joinNext
  split
  · split
    · exact touches_setSize.trans touches_setNext
    · exact touches_setNext
  · exact touches_setNext

theorem touches_joinPrevious : Touches [p] h (joinPrevious h p q).1 := by
  unfold joinPrevious
  split
  · exact touches_setSize
  · exact .refl _ _

theorem touches_insertBehind : Touches [p, q] h (insertBehind h p q) := by
  have block : (joinPrevious h p q).2 ∈ [p, q] := by
    unfold joinPrevious
    split <;> simp
  have both : Touches [p, q] h (joinNext (joinPrevious h p q).1 p (joinPrevious h p q).2) :=
    (touches_joinPrevious.mono (by simp)).trans (touches_joinNext.mono fun x hx => List.mem_singleton.mp hx ▸ block)
  unfold insertBehind
  dsimp only
  split
  · exact both.trans (touches_setNext.mono (by simp))
  · exact both

end links

/-- Where a block may lie: aligned, in front of `pxEnd`, and nowhere near `xStart`. -/
structure Placed (h : Vars) (s : Seg) : Prop where
  lo : 64 ∣ s.lo
  len : 64 ∣ s.len
  pos : 0 < s.lo
  lt : s.lo < h.pxEnd
  le : s.hi ≤ h.pxEnd
  start : h.xStart + 16 ≤ s.lo ∨ s.lo + 16 ≤ h.xStart ∧ s.hi ≤ h.xStart

/-- The fixed part of the heap. -/
structure Fixed (h : Vars) : Prop where
  endPos : 0 < h.pxEnd
  endLo : 64 ∣ h.pxEnd
  endLt : h.pxEnd + 64 ≤ xBlockAllocatedBit
  endNext : pxNextFreeBlock h h.pxEnd = 0
  endSize : xBlockSize h h.pxEnd = 0
  startSize : xBlockSize h h.xStart = 0
  start : Far h.xStart h.pxEnd

def Chain (h : Vars) : Nat → List Seg → Prop
  | p, [] => pxNextFreeBlock h p = h.pxEnd
  | p, s :: l => pxNextFreeBlock h p = s.lo ∧ xBlockSize h s.lo = s.len ∧ Chain h s.lo l

section placed

variable {h : Vars} {s t : Seg}

theorem Placed.join (ps : Placed h s) (pt : Placed h t) (touch : s.hi = t.lo) : Placed h (s.join t) where
  lo := ps.lo
  len := Nat.dvd_add ps.len pt.len
  pos := ps.pos
  lt := ps.lt
  le := (Seg.join_hi touch).trans_le pt.le
  start := by
    have hs := ps.start
    have ht := pt.start
    rw [Seg.join_lo, Seg.join_hi touch]
    omega

theorem Placed.start_far (ps : Placed h s) : Far h.xStart s.lo := by
  have start := ps.start
  unfold Far
  omega

theorem Placed.end_far (ps : Placed h s) (f : Fixed h) : Far s.lo h.pxEnd := by
  obtain ⟨a, ha⟩ := ps.lo
  obtain ⟨b, hb⟩ := f.endLo
  have lt := ps.lt
  unfold Far
  omega

theorem far_of_lt {a b : Nat} (ha : 64 ∣ a) (hb : 64 ∣ b) (lt : a < b) : Far a b := by
  obtain ⟨x, rfl⟩ := ha
  obtain ⟨y, rfl⟩ := hb
  unfold Far
  omega

theorem Placed.far (ps : Placed h s) (pt : Placed h t) (apart : s.Apart t) : Far s.lo t.lo :=
  apart.elim (fun b => far_of_lt ps.lo pt.lo b.1) fun b => (far_of_lt pt.lo ps.lo b.1).symm

end placed

section chain

variable {h h' : Vars} {p q n w : Nat} {b s : Seg} {l r : List Seg}

/-- A chain hangs on any link that holds its head. -/
theorem Chain.move (c : Chain h p l) (head : pxNextFreeBlock h' q = pxNextFreeBlock h p) (hend : h'.pxEnd = h.pxEnd)
    (same : ∀ s ∈ l, SameLink h h' s.lo) : Chain h' q l := by
  induction l generalizing p q with
  | nil => exact (head.trans c).trans hend.symm
  | cons s l ih =>
    obtain ⟨next, size, rest⟩ := c
    have here := same s List.mem_cons_self
    exact ⟨head.trans next, here.2.trans size, ih rest here.1 fun t ht => same t (List.mem_cons_of_mem _ ht)⟩

/-- A block and the chain behind it. -/
def Heads (h : Vars) (a : Nat) (l : List Seg) : Prop :=
  ∃ s rest, l = s :: rest ∧ s.lo = a ∧ xBlockSize h a = s.len ∧ Chain h a rest

theorem Heads.chain (c : Heads h q l) (head : pxNextFreeBlock h p = q) : Chain h p l := by
  obtain ⟨s, rest, rfl, rfl, size, c⟩ := c
  exact ⟨head, size, c⟩

theorem Heads.move (c : Heads h q l) (hend : h'.pxEnd = h.pxEnd) (here : SameLink h h' q)
    (same : ∀ s ∈ l, SameLink h h' s.lo) : Heads h' q l := by
  obtain ⟨s, rest, rfl, rfl, size, c⟩ := c
  exact ⟨s, rest, rfl, rfl, here.2.trans size, c.move here.1 hend fun t ht => same t (List.mem_cons_of_mem _ ht)⟩

/-- The second half of an insertion. -/
theorem joinNext_heads (endLt : h.pxEnd < xBlockAllocatedBit) (c : Chain h p l) (size : xBlockSize h b.lo = b.len)
    (pb : Placed h b) (pl : ∀ t ∈ l, Placed h t) (before : ∀ t ∈ l, b.Before t) (near : p = b.lo ∨ Far b.lo p) :
    Heads (joinNext h p b.lo) b.lo (FreeList.attach b l) := by
  have far (t : Seg) (ht : t ∈ l) : Far b.lo t.lo := far_of_lt pb.lo (pl t ht).lo (before t ht).1
  have same (t : Seg) (ht : t ∈ l) : SameLink h (joinNext h p b.lo) t.lo :=
    touches_joinNext.sameLink (List.forall_mem_singleton.mpr (far t ht))
  have hend : (joinNext h p b.lo).pxEnd = h.pxEnd := touches_joinNext.pxEnd
  unfold xBlockAllocatedBit at endLt
  cases l with
  | nil =>
    have eq : joinNext h p b.lo = setNextFreeBlock h b.lo h.pxEnd := by
      unfold joinNext
      rw [show pxNextFreeBlock h p = h.pxEnd from c, if_neg (not_not.2 rfl), ite_self]
    refine ⟨b, [], rfl, rfl, ?_, ?_⟩
    · rw [eq, size_setNext, size]
    · change _ = _
      rw [eq, next_setNext (by omega)]
      rfl
  | cons t l =>
    obtain ⟨next, tsize, rest⟩ := c
    have pt := pl t List.mem_cons_self
    have notEnd : pxNextFreeBlock h p ≠ h.pxEnd := next ▸ pt.lt.ne
    have thi : t.lo + t.len ≤ h.pxEnd := pt.le
    rw [FreeList.attach]
    split
    · rename_i touch
      have eq : joinNext h p b.lo = setNextFreeBlock (setBlockSize h b.lo (b.len + t.len)) b.lo
          (pxNextFreeBlock h t.lo) := by
        have kept (r : Nat) (hr : r = b.lo ∨ Far b.lo r) :
            pxNextFreeBlock (setBlockSize h b.lo (b.len + t.len)) r = pxNextFreeBlock h r := by
          rcases hr with rfl | hr
          · exact next_setSize
          · exact (sameLink_setSize hr).1
        unfold joinNext
        rw [size, if_pos (by rw [next]; exact touch), if_pos notEnd]
        dsimp only
        rw [next, tsize, kept p near, next, kept t.lo (.inr (far t List.mem_cons_self))]
      refine ⟨b.join t, l, rfl, rfl, ?_, ?_⟩
      · rw [eq, size_setNext, size_setSize (by unfold Seg.hi at touch; omega)]
        rfl
      · refine rest.move ?_ hend fun u hu => same u (List.mem_cons_of_mem _ hu)
        rw [eq, next_setNext next_lt]
    · rename_i gap
      have eq : joinNext h p b.lo = setNextFreeBlock h b.lo t.lo := by
        unfold joinNext
        rw [size, next]
        exact if_neg gap
      have other := same t List.mem_cons_self
      refine ⟨b, t :: l, rfl, rfl, ?_, ?_, other.2.trans tsize, ?_⟩
      · rw [eq, size_setNext, size]
      · rw [eq, next_setNext (by omega)]
      · exact rest.move other.1 hend fun u hu => same u (List.mem_cons_of_mem _ hu)

theorem Placed.vars (ps : Placed h s) (top : h'.pxEnd = h.pxEnd) (first : h'.xStart = h.xStart) : Placed h' s := by
  obtain ⟨lo, len, pos, lt, le, start⟩ := ps
  rw [← top] at lt le
  rw [← first] at start
  exact ⟨lo, len, pos, lt, le, start⟩

theorem Touches.placed {ps : List Nat} (a : Touches ps h h') (pb : Placed h s) : Placed h' s :=
  pb.vars a.pxEnd a.xStart

/-- Behind a block that ends where the new one begins. -/
theorem insertBehind_touch (endLt : h.pxEnd < xBlockAllocatedBit) (c : Chain h s.lo l) (ssize : xBlockSize h s.lo = s.len)
    (bsize : xBlockSize h b.lo = b.len) (ps : Placed h s) (pb : Placed h b) (pl : ∀ t ∈ l, Placed h t)
    (before : ∀ t ∈ l, (s.join b).Before t) (touch : s.hi = b.lo) :
    Heads (insertBehind h s.lo b.lo) s.lo (FreeList.attach (s.join b) l) ∧
      Touches [s.lo] h (insertBehind h s.lo b.lo) := by
  have join : joinPrevious h s.lo b.lo = (setBlockSize h s.lo (s.len + b.len), s.lo) := by
    unfold joinPrevious
    rw [ssize, bsize]
    exact if_pos touch
  have eq : insertBehind h s.lo b.lo = joinNext (setBlockSize h s.lo (s.len + b.len)) s.lo s.lo := by
    unfold insertBehind
    rw [join]
    exact if_neg (not_not.2 rfl)
  have stored : Touches [s.lo] h (setBlockSize h s.lo (s.len + b.len)) := touches_setSize
  have far (t : Seg) (ht : t ∈ l) : Far s.lo t.lo := far_of_lt ps.lo (pl t ht).lo (before t ht).1
  rw [eq]
  refine ⟨?_, stored.trans touches_joinNext⟩
  refine joinNext_heads (b := s.join b) endLt ?_ ?_ ?_ (fun t ht => stored.placed (pl t ht)) before (.inl rfl)
  · exact c.move next_setSize rfl fun t ht => sameLink_setSize (far t ht)
  · have le : b.lo + b.len ≤ h.pxEnd := pb.le
    unfold xBlockAllocatedBit at endLt
    unfold Seg.hi at touch
    exact size_setSize (by omega)
  · exact stored.placed (ps.join pb touch)

/-- Behind a link whose block ends elsewhere. -/
theorem insertBehind_gap (endLt : h.pxEnd < xBlockAllocatedBit) (c : Chain h p l) (size : xBlockSize h b.lo = b.len)
    (pb : Placed h b) (pl : ∀ t ∈ l, Placed h t) (before : ∀ t ∈ l, b.Before t) (far : Far b.lo p)
    (fars : ∀ t ∈ l, Far p t.lo) (gap : p + xBlockSize h p ≠ b.lo) :
    Chain (insertBehind h p b.lo) p (FreeList.attach b l) ∧
      xBlockSize (insertBehind h p b.lo) p = xBlockSize h p := by
  have eq : insertBehind h p b.lo = setNextFreeBlock (joinNext h p b.lo) p b.lo := by
    unfold insertBehind joinPrevious
    rw [if_neg gap]
    exact if_pos far.ne.symm
  have le : b.lo < h.pxEnd := pb.lt
  unfold xBlockAllocatedBit at endLt
  have heads := joinNext_heads endLt c size pb pl before (.inr far)
  have all : ∀ t ∈ FreeList.attach b l, Far p t.lo := by
    refine FreeList.forall_attach (P := fun t => Far p t.lo) (fun hs _ _ => hs) far.symm fars
  rw [eq]
  refine ⟨Heads.chain ?_ (next_setNext (by omega)), ?_⟩
  · exact heads.move rfl (sameLink_setNext far.symm) fun t ht => sameLink_setNext (all t ht)
  · rw [size_setNext]
    exact (touches_joinNext.sameLink (List.forall_mem_singleton.mpr far)).2

theorem lowerBlock_stop (n : Nat) (ge : ¬ pxNextFreeBlock h p < q) : lowerBlock n h p q = some p :=
  whileDo_exit n (decide_eq_false ge)

theorem lowerBlock_step (n : Nat) (lt : pxNextFreeBlock h p < q) :
    lowerBlock (n + 1) h p q = lowerBlock n h (pxNextFreeBlock h p) q :=
  whileDo_next (decide_eq_true lt) rfl

/-- The loop gets to the place where `insert` puts the block. -/
theorem insert_chain (endLt : h.pxEnd < xBlockAllocatedBit) (c : Chain h p l) (hn : l.length ≤ n)
    (size : xBlockSize h b.lo = b.len) (pb : Placed h b) (pl : ∀ t ∈ l, Placed h t) (parted : l.Pairwise Seg.Parted)
    (apart : ∀ t ∈ l, t.Apart b) (far : Far b.lo p) (fars : ∀ t ∈ l, Far p t.lo)
    (gap : p + xBlockSize h p ≠ b.lo) :
    ∃ q, lowerBlock n h p b.lo = some q ∧ Chain (insertBehind h q b.lo) p (FreeList.insert b l) ∧
      xBlockSize (insertBehind h q b.lo) p = xBlockSize h p ∧
      Touches (p :: b.lo :: l.map Seg.lo) h (insertBehind h q b.lo) := by
  induction l generalizing n p with
  | nil =>
    have ge : ¬ pxNextFreeBlock h p < b.lo := by
      rw [show pxNextFreeBlock h p = h.pxEnd from c]
      exact Nat.not_lt.2 pb.lt.le
    obtain ⟨chain, same⟩ := insertBehind_gap endLt c size pb pl (fun _ ht => by cases ht) far fars gap
    exact ⟨p, lowerBlock_stop n ge, chain, same, touches_insertBehind⟩
  | cons s l ih =>
    obtain ⟨behind, rest⟩ := List.pairwise_cons.mp parted
    obtain ⟨here, there⟩ := List.forall_mem_cons.mp apart
    obtain ⟨ps, pl'⟩ := List.forall_mem_cons.mp pl
    rw [FreeList.insert]
    split
    · rename_i lt
      obtain ⟨n, rfl⟩ := Nat.exists_eq_succ_of_ne_zero (Nat.ne_of_gt (Nat.lt_of_lt_of_le l.length.succ_pos hn))
      obtain ⟨next, ssize, c'⟩ := c
      have step : lowerBlock (n + 1) h p b.lo = lowerBlock n h s.lo b.lo := by
        rw [lowerBlock_step n (next ▸ lt), next]
      have sfar : Far b.lo s.lo := (ps.far pb here).symm
      have fars' (t : Seg) (ht : t ∈ l) : Far s.lo t.lo := far_of_lt ps.lo (pl' t ht).lo (behind t ht).1.1
      split
      · rename_i touch
        have past (t : Seg) (ht : t ∈ l) : b.Before t := (there t ht).symm.before <| by
          have le := (behind t ht).1.2
          have ne := ((pl' t ht).far pb (there t ht)).ne
          omega
        have ge : ¬ pxNextFreeBlock h s.lo < b.lo := by
          cases l with
          | nil =>
            rw [show pxNextFreeBlock h s.lo = h.pxEnd from c']
            exact Nat.not_lt.2 pb.lt.le
          | cons t l =>
            rw [c'.1]
            exact Nat.not_lt.2 (past t List.mem_cons_self).1.le
        obtain ⟨heads, touches⟩ := insertBehind_touch endLt c' ssize size ps pb pl'
          (fun t ht => ⟨lt.trans (past t ht).1, (Seg.join_hi touch).trans_le (past t ht).2⟩) touch
        have other : SameLink h (insertBehind h s.lo b.lo) p :=
          touches.sameLink (List.forall_mem_singleton.mpr (fars s List.mem_cons_self).symm)
        refine ⟨s.lo, step.trans (lowerBlock_stop n ge), heads.chain (other.1.trans next), other.2,
          touches.mono fun x hx => ?_⟩
        rw [List.mem_singleton.mp hx]
        simp
      · rename_i away
        obtain ⟨q, found, chain, same, touches⟩ := ih c' (Nat.le_of_succ_le_succ hn) pl' rest there sfar fars'
          (by rwa [ssize])
        have other : SameLink h (insertBehind h q b.lo) p := touches.sameLink <| by
          simp only [List.forall_mem_cons, List.forall_mem_map]
          exact ⟨(fars s List.mem_cons_self).symm, far, fun t ht => (fars t (List.mem_cons_of_mem _ ht)).symm⟩
        refine ⟨q, step.trans found, ⟨other.1.trans next, same.trans ssize, chain⟩, other.2,
          touches.mono fun x hx => ?_⟩
        simp only [List.map_cons, List.mem_cons] at hx ⊢
        tauto
    · rename_i ge
      have front : b.Before s := here.resolve_left fun h => ge h.1
      obtain ⟨chain, same⟩ := insertBehind_gap endLt c size pb pl
        (List.forall_mem_cons.mpr ⟨front, fun t ht => front.trans (behind t ht).1⟩) far fars gap
      refine ⟨p, lowerBlock_stop n (by rwa [c.1]), chain, same, touches_insertBehind.mono fun x hx => ?_⟩
      simp only [List.mem_cons] at hx ⊢
      tauto

theorem findBlock_stop (n : Nat) (done : ¬ (xBlockSize h (pxNextFreeBlock h p) < w ∧
    pxNextFreeBlock h (pxNextFreeBlock h p) ≠ 0)) : findBlock n h w p = some (p, pxNextFreeBlock h p) :=
  whileDo_exit n (decide_eq_false done)

theorem findBlock_step (n : Nat) (on : xBlockSize h (pxNextFreeBlock h p) < w ∧
    pxNextFreeBlock h (pxNextFreeBlock h p) ≠ 0) : findBlock (n + 1) h w p = findBlock n h w (pxNextFreeBlock h p) :=
  whileDo_next (decide_eq_true on) rfl

theorem Chain.next_ne (c : Chain h p l) (pl : ∀ t ∈ l, Placed h t) (pos : 0 < h.pxEnd) : pxNextFreeBlock h p ≠ 0 := by
  cases l with
  | nil =>
    rw [show pxNextFreeBlock h p = h.pxEnd from c]
    exact pos.ne'
  | cons t l =>
    rw [c.1]
    exact (pl t List.mem_cons_self).pos.ne'

theorem findBlock_none (f : Fixed h) (c : Chain h p l) (hn : l.length ≤ n) (pl : ∀ t ∈ l, Placed h t)
    (none : FreeList.firstFit w l = none) : ∃ q, findBlock n h w p = some (q, h.pxEnd) := by
  induction l generalizing n p with
  | nil =>
    have last : pxNextFreeBlock h p = h.pxEnd := c
    refine ⟨p, ?_⟩
    rw [findBlock_stop n, last]
    rw [last]
    exact fun on => on.2 f.endNext
  | cons t l ih =>
    obtain ⟨next, size, rest⟩ := c
    obtain ⟨pt, pl⟩ := List.forall_mem_cons.mp pl
    obtain ⟨n, rfl⟩ := Nat.exists_eq_succ_of_ne_zero (Nat.ne_of_gt (Nat.lt_of_lt_of_le l.length.succ_pos hn))
    have short := FreeList.firstFit_none.mp none
    rw [findBlock_step n, next]
    · exact ih rest (Nat.le_of_succ_le_succ hn) pl
        (FreeList.firstFit_none.mpr fun s hs => short s (List.mem_cons_of_mem _ hs))
    · rw [next, size]
      exact ⟨short t List.mem_cons_self, rest.next_ne pl (pt.pos.trans pt.lt)⟩

/-- The search finds the first fit, and the link before it. -/
theorem findBlock_some (c : Chain h p l) (hn : l.length ≤ n) (pl : ∀ t ∈ l, Placed h t)
    (parted : l.Pairwise Seg.Parted) (fars : ∀ t ∈ l, Far p t.lo) (fits : FreeList.firstFit w l = some (s, r)) :
    ∃ q, findBlock n h w p = some (q, s.lo) ∧ pxNextFreeBlock h q = s.lo ∧ q ∈ p :: l.map Seg.lo ∧
      xBlockSize (setNextFreeBlock h q (pxNextFreeBlock h s.lo)) s.lo = s.len ∧
      Chain (setNextFreeBlock h q (pxNextFreeBlock h s.lo)) p r := by
  induction l generalizing n p r with
  | nil => cases fits
  | cons t l ih =>
    obtain ⟨next, size, rest⟩ := c
    obtain ⟨behind, parted⟩ := List.pairwise_cons.mp parted
    obtain ⟨pt, pl'⟩ := List.forall_mem_cons.mp pl
    obtain ⟨ft, fl⟩ := List.forall_mem_cons.mp fars
    rw [FreeList.firstFit] at fits
    split at fits
    · rename_i large
      cases fits
      refine ⟨p, ?_, next, List.mem_cons_self, (sameLink_setNext ft).2.trans size, ?_⟩
      · rw [findBlock_stop n, next]
        rw [next, size]
        exact fun on => Nat.not_lt.2 large on.1
      · exact rest.move (next_setNext next_lt) rfl fun u hu => sameLink_setNext (fl u hu)
    · rename_i small
      simp only [Option.map_eq_some_iff, Prod.mk.injEq, Prod.exists] at fits
      obtain ⟨u, q, fits, rfl, rfl⟩ := fits
      obtain ⟨n, rfl⟩ := Nat.exists_eq_succ_of_ne_zero (Nat.ne_of_gt (Nat.lt_of_lt_of_le l.length.succ_pos hn))
      have fars' (u : Seg) (hu : u ∈ l) : Far t.lo u.lo := far_of_lt pt.lo (pl' u hu).lo (behind u hu).1.1
      obtain ⟨x, found, hx, mem, usize, chain⟩ := ih rest (Nat.le_of_succ_le_succ hn) pl' parted fars' fits
      have apart : Far x p := by
        rcases List.mem_cons.mp mem with rfl | mem
        · exact ft.symm
        · obtain ⟨y, hy, rfl⟩ := List.mem_map.mp mem
          exact (fl y hy).symm
      refine ⟨x, ?_, hx, List.mem_cons_of_mem _ mem, usize, ?_, ?_, chain⟩
      · rw [findBlock_step n, next, found]
        rw [next, size]
        exact ⟨Nat.not_le.1 small, rest.next_ne pl' (pt.pos.trans pt.lt)⟩
      · exact (sameLink_setNext apart).1.trans next
      · rw [← size]
        rcases List.mem_cons.mp mem with rfl | mem
        · exact size_setNext
        · obtain ⟨y, hy, rfl⟩ := List.mem_map.mp mem
          exact (sameLink_setNext (fars' y hy).symm).2

end chain

end En675.Heap5
