import En675.Lib.Heap
import Mathlib.Data.List.Lex
import Mathlib.Data.UInt

/-! The file names of a recorder, `videnc_heap.c`: a min-heap by the part of the name that
holds the time. -/

namespace En675.Videnc

open Lib.Heap

section strcmp

/-- `strcmp` on strings without their closing NUL. -/
def strcmp : List UInt8 → List UInt8 → Int
  | [], [] => 0
  | [], b :: _ => -(b.toNat : Int)
  | a :: _, [] => a.toNat
  | a :: as, b :: bs => if a = b then strcmp as bs else a.toNat - b.toNat

theorem strcmp_neg_iff (as bs : List UInt8) (hb : 0 ∉ bs) :
    strcmp as bs < 0 ↔ as.map UInt8.toNat < bs.map UInt8.toNat := by
  induction as generalizing bs with
  | nil =>
    cases bs with
    | nil => simp [strcmp]
    | cons b bs =>
      have pos : b.toNat ≠ 0 := fun h => hb (List.mem_cons.mpr (.inl (UInt8.toNat_inj.mp h.symm)))
      simp only [strcmp, List.map_nil, List.map_cons, List.nil_lt_cons, iff_true]
      omega
  | cons a as ih =>
    cases bs with
    | nil => simp [strcmp]
    | cons b bs =>
      rw [strcmp, List.map_cons, List.map_cons, List.cons_lt_cons_iff]
      split
      · rename_i h
        rw [ih bs fun h => hb (List.mem_cons_of_mem b h), h]
        simp
      · rename_i h
        have ne : a.toNat ≠ b.toNat := fun h' => h (UInt8.toNat_inj.mp h')
        simp only [ne, false_and, or_false]
        omega

theorem strcmp_swap (as bs : List UInt8) : strcmp as bs = -strcmp bs as := by
  induction as generalizing bs with
  | nil => cases bs <;> simp [strcmp]
  | cons a as ih =>
    cases bs with
    | nil => simp [strcmp]
    | cons b bs =>
      rw [strcmp, strcmp]
      split
      · rename_i h
        rw [if_pos h.symm]
        exact ih bs
      · rename_i h
        rw [if_neg (Ne.symm h)]
        omega

end strcmp

/-- `char filename[24]`, without what follows the NUL. -/
structure EncHData where
  filename : List UInt8
  terminated : 0 ∉ filename
  fits : filename.length < 24

def EncHData.zero : EncHData := ⟨[], nofun, by decide⟩

/-- A name that has the octets that are not compared. -/
structure FileName extends EncHData where
  long : 4 ≤ filename.length

/-- `NOR_` or `EVT_` in front is not compared. -/
def encHeapFilenameCmpOffset : Nat := 4

def EncHData.stamp (d : EncHData) : List UInt8 := d.filename.drop encHeapFilenameCmpOffset

structure EncHeap where
  usedsize : Nat
  capacity : Nat
  node : Nat → EncHData
  delHData : EncHData

/-- `strcmp(a + 4, b + 4) < 0`. -/
def EncHData.older (a b : EncHData) : Bool := strcmp a.stamp b.stamp < 0

section source

/-- With a block from `pvPortCalloc`. -/
def encHeapCreate (h : EncHeap) (capacity : Nat) : EncHeap :=
  { h with usedsize := 0, capacity, node := fun _ => .zero }

def encHeapDeQueue (h : EncHeap) : EncHData × EncHeap :=
  if h.usedsize = 0 then (.zero, h)
  else
    let root := h.node 0
    let usedsize := h.usedsize - 1
    let node := swap (Function.update h.node 0 .zero) 0 usedsize
    (root, { h with usedsize, node := siftDown EncHData.older usedsize node usedsize 0 })

/-- The part of `encHeap_enQueue` behind the test for a full heap. -/
def EncHeap.insert (h : EncHeap) (data : EncHData) : EncHeap :=
  let node := Function.update h.node h.usedsize data
  { h with node := siftUp EncHData.older h.usedsize node h.usedsize, usedsize := h.usedsize + 1 }

def encHeapEnQueue (h : EncHeap) (data : EncHData) : Nat × EncHeap :=
  if h.usedsize = h.capacity then
    if 0 < strcmp (h.node 0).stamp data.stamp then (1, { h with delHData := data })
    else
      let (temp, h) := encHeapDeQueue h
      (1, { h with delHData := temp }.insert data)
  else (0, h.insert data)

def encHeapResetQueue (h : EncHeap) : EncHeap :=
  { h with usedsize := 0, node := fun i => if i < h.capacity then .zero else h.node i }

def encHeapDeleteQueue (h : EncHeap) : List UInt8 × EncHeap :=
  let (temp, h) := encHeapDeQueue h
  (if temp.filename.length ≠ 0 then temp.filename else [], h)

def encHeapAddQueue (h : EncHeap) (filename : FileName) : Nat × EncHeap :=
  encHeapEnQueue h filename.toEncHData

end source

inductive HeapOp
  | add (filename : FileName)
  | delete
  | reset

def EncHeap.step (h : EncHeap) : HeapOp → EncHeap
  | .add filename => (encHeapAddQueue h filename).2
  | .delete => (encHeapDeleteQueue h).2
  | .reset => encHeapResetQueue h

namespace EncHeap

/-- The names that are stored. -/
def names (h : EncHeap) : Multiset EncHData := contents h.node h.usedsize

/-- No stored name is older than its parent. -/
def IsHeap (h : EncHeap) : Prop :=
  ∀ i, 0 < i → i < h.usedsize → ¬ strcmp (h.node i).stamp (h.node (parent i)).stamp < 0

/-- `d` is one of the oldest names of `s`. -/
def Oldest (d : EncHData) (s : Multiset EncHData) : Prop :=
  d ∈ s ∧ ∀ a ∈ s, ¬ strcmp a.stamp d.stamp < 0

/-- The heap is in order, within its block, and nothing is written behind the block. -/
structure Sound (c : Nat) (h : EncHeap) : Prop where
  heap : h.IsHeap
  cap : h.capacity = c
  bounded : h.usedsize ≤ c
  behind : ∀ i, c ≤ i → h.node i = .zero

/-- What a deletion returns and leaves. -/
def Deletes (h : EncHeap) (filename : List UInt8) (h' : EncHeap) : Prop :=
  (h.usedsize = 0 → filename = [] ∧ h' = h) ∧
    (h.usedsize ≠ 0 → ∃ d, filename = d.filename ∧ Oldest d h.names ∧ h.names = d ::ₘ h'.names)

/-- What an addition returns and leaves. -/
def Adds (h : EncHeap) (d : EncHData) (ret : Nat) (h' : EncHeap) : Prop :=
  (h.usedsize < h.capacity → ret = 0 ∧ h'.names = d ::ₘ h.names ∧ h'.delHData = h.delHData) ∧
    (h.usedsize = h.capacity → ret = 1 ∧ Oldest h'.delHData (d ::ₘ h.names) ∧
      d ::ₘ h.names = h'.delHData ::ₘ h'.names)

section order

/-- `strcmp` orders the names as the lists of their octets are ordered. -/
def key (d : EncHData) : List Nat := d.stamp.map UInt8.toNat

theorem stamp_terminated (d : EncHData) : 0 ∉ d.stamp := fun h => d.terminated (List.mem_of_mem_drop h)

theorem older_iff (a b : EncHData) : a.older b = true ↔ key a < key b := by
  rw [EncHData.older, decide_eq_true_eq]
  exact strcmp_neg_iff a.stamp b.stamp (stamp_terminated b)

theorem not_older_iff (a b : EncHData) : ¬ strcmp a.stamp b.stamp < 0 ↔ key b ≤ key a := by
  rw [strcmp_neg_iff a.stamp b.stamp (stamp_terminated b)]
  exact not_lt

variable {h : EncHeap} {c : Nat}

theorem isHeap_iff : h.IsHeap ↔ Ordered key h.node h.usedsize := by
  refine forall_congr' fun i => forall_congr' fun pos => forall_congr' fun hi => ?_
  exact not_older_iff _ _

theorem oldest_root (ho : h.IsHeap) (pos : h.usedsize ≠ 0) : Oldest (h.node 0) h.names := by
  refine ⟨mem_contents.mpr ⟨0, Nat.pos_of_ne_zero pos, rfl⟩, fun a ha => ?_⟩
  exact (not_older_iff a (h.node 0)).mpr ((isHeap_iff.mp ho).root_minimal ha)

end order

section dequeue

variable {h : EncHeap} {c : Nat}

/-- The array `encHeap_deQueue` sifts. -/
theorem deQueue_cells (h : EncHeap) (n : Nat) :
    contents h.node (n + 1) = h.node 0 ::ₘ contents (swap (Function.update h.node 0 .zero) 0 n) n := by
  have cell (i : Nat) (hi : i < n) : swap (Function.update h.node 0 .zero) 0 n i = swap h.node 0 n i := by
    by_cases h0 : i = 0
    · subst h0
      rw [swap_left, swap_left, Function.update_of_ne (Nat.ne_of_gt hi)]
    · rw [swap_other _ h0 (Nat.ne_of_lt hi), swap_other _ h0 (Nat.ne_of_lt hi), Function.update_of_ne h0]
  have whole := contents_swap h.node (Nat.succ_pos n) (Nat.lt_succ_self n)
  rw [contents_succ, swap_right] at whole
  rw [← whole, contents_congr cell]

theorem deQueue_sinking (ho : h.IsHeap) (n : Nat) (hn : h.usedsize = n + 1) :
    Sinking key (swap (Function.update h.node 0 .zero) 0 n) n 0 := by
  refine ⟨fun j pos hj hp => ?_, fun h0 => absurd h0 (Nat.lt_irrefl 0)⟩
  have below := parent_lt pos
  rw [swap_other _ hp (by omega), swap_other _ (Nat.ne_of_gt pos) (by omega),
    Function.update_of_ne hp, Function.update_of_ne (Nat.ne_of_gt pos)]
  exact isHeap_iff.mp ho j pos (by omega)

/-- A heap that is not empty loses its root. -/
theorem deQueue_spec (s : Sound c h) (pos : h.usedsize ≠ 0) :
    (encHeapDeQueue h).1 = h.node 0 ∧ Sound c (encHeapDeQueue h).2 ∧
      (encHeapDeQueue h).2.usedsize + 1 = h.usedsize ∧ (encHeapDeQueue h).2.delHData = h.delHData ∧
      h.names = h.node 0 ::ₘ (encHeapDeQueue h).2.names := by
  obtain ⟨n, hn⟩ := Nat.exists_eq_succ_of_ne_zero pos
  have eq : encHeapDeQueue h = (h.node 0, { h with
      usedsize := n
      node := siftDown EncHData.older n (swap (Function.update h.node 0 .zero) 0 n) n 0 }) := by
    simp only [encHeapDeQueue, hn, Nat.succ_ne_zero, if_false, Nat.succ_eq_add_one, Nat.add_sub_cancel]
  rw [eq]
  have bounded := s.bounded
  refine ⟨rfl, ⟨?_, s.cap, by dsimp only; omega, fun i hi => ?_⟩, hn.symm, rfl, ?_⟩
  · exact isHeap_iff.mpr (siftDown_ordered older_iff n (Nat.le_refl n) (deQueue_sinking s.heap n hn))
  · dsimp only
    rcases Nat.eq_zero_or_pos n with h0 | npos
    · subst h0
      exact (swap_other _ (by omega) (by omega)).trans
        ((Function.update_of_ne (by omega) _ _).trans (s.behind i hi))
    · rw [siftDown_above n npos (by omega), swap_other _ (by omega) (by omega),
        Function.update_of_ne (by omega), s.behind i hi]
  · rw [names, names, hn, deQueue_cells h n]
    congr 1
    rcases Nat.eq_zero_or_pos n with h0 | npos
    · subst h0
      rfl
    · exact (siftDown_contents n npos).symm

end dequeue

section enqueue

variable {h : EncHeap} {c : Nat}

theorem insert_spec (s : Sound c h) (room : h.usedsize < c) (d : EncHData) :
    Sound c (h.insert d) ∧ (h.insert d).names = d ::ₘ h.names := by
  have below (i : Nat) (hi : i < h.usedsize) : Function.update h.node h.usedsize d i = h.node i :=
    Function.update_of_ne (Nat.ne_of_lt hi) _ _
  have rising : Rising key (Function.update h.node h.usedsize d) (h.usedsize + 1) h.usedsize := by
    refine ⟨fun j pos hj hne => ?_, fun _ j pos hj hp => ?_⟩
    · have higher := parent_lt pos
      rw [below j (by omega), below _ (by omega)]
      exact isHeap_iff.mp s.heap j pos (by omega)
    · have higher := parent_lt pos
      omega
  refine ⟨⟨?_, s.cap, room, fun i hi => ?_⟩, ?_⟩
  · exact isHeap_iff.mpr (siftUp_ordered older_iff _ (Nat.le_refl _) (Nat.lt_succ_self _) rising)
  · exact (siftUp_above _ (by omega)).trans
      ((Function.update_of_ne (by omega) _ _).trans (s.behind i hi))
  · change contents (siftUp _ _ _ _) (h.usedsize + 1) = _
    rw [siftUp_contents _ (Nat.lt_succ_self _), contents_succ, Function.update_self, contents_congr below]
    rfl

theorem enQueue_spec (s : Sound c h) (pos : 1 ≤ c) (d : EncHData) :
    Sound c (encHeapEnQueue h d).2 ∧ Adds h d (encHeapEnQueue h d).1 (encHeapEnQueue h d).2 := by
  have capacity := s.cap
  unfold encHeapEnQueue
  split
  · rename_i full
    have some : h.usedsize ≠ 0 := by omega
    have least := oldest_root s.heap some
    have rootMem := least.1
    split
    · -- the new name is the oldest of all and is not stored
      rename_i newer
      refine ⟨{ s with }, fun room => absurd full (Nat.ne_of_lt room), fun _ => ⟨rfl, ?_, rfl⟩⟩
      refine ⟨Multiset.mem_cons_self _ _, fun a ha => ?_⟩
      rw [not_older_iff]
      rcases Multiset.mem_cons.mp ha with rfl | ha
      · exact le_rfl
      · have root : key (h.node 0) ≤ key a := (not_older_iff _ _).mp (least.2 a ha)
        rw [strcmp_swap, Left.neg_pos_iff, strcmp_neg_iff _ _ (stamp_terminated _)] at newer
        exact (le_of_lt newer).trans root
    · rename_i older
      obtain ⟨temp, sound, size, _, lost⟩ := deQueue_spec s some
      have room : (encHeapDeQueue h).2.usedsize < c := by omega
      obtain ⟨sound', inserted⟩ := insert_spec (h := { (encHeapDeQueue h).2 with delHData := (encHeapDeQueue h).1 })
        { sound with } room d
      refine ⟨sound', fun room => absurd full (Nat.ne_of_lt room), fun _ => ⟨rfl, ?_, ?_⟩⟩
      · change Oldest (encHeapDeQueue h).1 _
        rw [temp]
        refine ⟨Multiset.mem_cons_of_mem rootMem, fun a ha => ?_⟩
        rcases Multiset.mem_cons.mp ha with rfl | ha
        · rw [strcmp_swap] at older
          omega
        · exact least.2 a ha
      · change _ = (encHeapDeQueue h).1 ::ₘ _
        rw [inserted, temp, lost, Multiset.cons_swap]
        rfl
  · rename_i room
    have bounded := s.bounded
    obtain ⟨sound, inserted⟩ := insert_spec s (by omega) d
    exact ⟨sound, fun _ => ⟨rfl, inserted, rfl⟩, fun full => absurd full room⟩

end enqueue

variable {h : EncHeap} {c : Nat}

theorem create_sound (h : EncHeap) (c : Nat) : Sound c (encHeapCreate h c) :=
  ⟨fun _ _ hi => absurd hi (Nat.not_lt_zero _), rfl, Nat.zero_le c, fun _ _ => rfl⟩

theorem reset_sound (s : Sound c h) : Sound c (encHeapResetQueue h) := by
  refine ⟨fun _ _ hi => absurd hi (Nat.not_lt_zero _), s.cap, Nat.zero_le c, fun i hi => ?_⟩
  exact (if_neg (by rw [s.cap]; omega)).trans (s.behind i hi)

theorem deleteQueue_spec (s : Sound c h) :
    Sound c (encHeapDeleteQueue h).2 ∧ Deletes h (encHeapDeleteQueue h).1 (encHeapDeleteQueue h).2 := by
  by_cases empty : h.usedsize = 0
  · have eq : encHeapDeleteQueue h = ([], h) := by
      rw [encHeapDeleteQueue, encHeapDeQueue, if_pos empty]
      rfl
    rw [eq]
    exact ⟨s, fun _ => ⟨rfl, rfl⟩, fun some => absurd empty some⟩
  · obtain ⟨temp, sound, _, _, lost⟩ := deQueue_spec s empty
    refine ⟨sound, fun h0 => absurd h0 empty, fun _ => ⟨h.node 0, ?_, oldest_root s.heap empty, lost⟩⟩
    change (if (encHeapDeQueue h).1.filename.length ≠ 0 then (encHeapDeQueue h).1.filename else []) = _
    rw [temp]
    split
    · rfl
    · rename_i short
      exact (List.length_eq_zero_iff.mp (not_not.mp short)).symm

theorem step_sound (s : Sound c h) (pos : 1 ≤ c) (op : HeapOp) : Sound c (h.step op) := by
  cases op with
  | add filename => exact (enQueue_spec s pos _).1
  | delete => exact (deleteQueue_spec s).1
  | reset => exact reset_sound s

theorem run_sound (h : EncHeap) (pos : 1 ≤ c) (ops : List HeapOp) :
    Sound c (ops.foldl step (encHeapCreate h c)) := by
  induction ops using List.reverseRecOn with
  | nil => exact create_sound h c
  | append_singleton ops op ih =>
    rw [List.foldl_append]
    exact step_sound ih pos op

/-- After any operations on a heap of any capacity: it is a heap within its block, and what each
operation would do next. -/
theorem encHeap_runs (h₀ : EncHeap) (capacity : Nat) (pos : 1 ≤ capacity) (ops : List HeapOp) :
    let h := ops.foldl step (encHeapCreate h₀ capacity)
    Sound capacity h ∧
      (∀ filename, Adds h filename.toEncHData (encHeapAddQueue h filename).1 (encHeapAddQueue h filename).2) ∧
      Deletes h (encHeapDeleteQueue h).1 (encHeapDeleteQueue h).2 ∧ (encHeapResetQueue h).names = 0 := by
  have sound := run_sound h₀ pos ops
  exact ⟨sound, fun filename => (enQueue_spec sound pos _).2, (deleteQueue_spec sound).2, rfl⟩

def sampleNames : List FileName :=
  [⟨⟨[78, 79, 82, 95, 51], by decide, by decide⟩, by decide⟩,
    ⟨⟨[69, 86, 84, 95, 50], by decide, by decide⟩, by decide⟩,
    ⟨⟨[78, 79, 82, 95, 52], by decide, by decide⟩, by decide⟩]

theorem encHeap_runs_full :
    let h := (sampleNames.map HeapOp.add).foldl step (encHeapCreate ⟨0, 0, fun _ => .zero, .zero⟩ 2)
    h.usedsize = h.capacity ∧ h.delHData.filename = [69, 86, 84, 95, 50] ∧ Sound 2 h := by
  refine ⟨by decide, by decide, ?_⟩
  exact (encHeap_runs ⟨0, 0, fun _ => .zero, .zero⟩ 2 (by decide) (sampleNames.map HeapOp.add)).1

end EncHeap

end En675.Videnc
