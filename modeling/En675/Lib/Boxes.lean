import En675.Lib.Bytes

/-! Files made of boxes, as MP4 and its relatives are: a big-endian size of four octets that
counts the whole box, a type of four octets, then fields, then boxes inside it.  Which types
hold boxes, and behind how many octets of fields, is a parameter of the reader. -/

namespace Lib

/-- Boxes in a row: the first one with the boxes inside it, and those behind it. -/
inductive Boxes
  | nil
  | cons (fcc fields : List UInt8) (kids rest : Boxes)
  deriving DecidableEq, Repr

namespace Boxes

def append : Boxes → Boxes → Boxes
  | nil, g => g
  | cons fcc fields kids rest, g => cons fcc fields kids (rest.append g)

def count : Boxes → Nat
  | nil => 0
  | cons _ _ _ rest => rest.count + 1

/-- Only the types. -/
def outline : Boxes → Boxes
  | nil => nil
  | cons fcc _ kids rest => cons fcc [] kids.outline rest.outline

/-- The head of a box of `size` octets, with its fields. -/
def head (fcc fields : List UInt8) (size : Nat) : List UInt8 := be 4 size ++ fcc ++ fields

def octets : Boxes → List UInt8
  | nil => []
  | cons fcc fields kids rest =>
    head fcc fields (8 + fields.length + kids.octets.length) ++ kids.octets ++ rest.octets

/-- A box with nothing behind it. -/
def box (fcc fields : List UInt8) (kids : Boxes) : Boxes := cons fcc fields kids nil

def leaf (fcc fields : List UInt8) : Boxes := box fcc fields nil

def concat : List Boxes → Boxes
  | [] => nil
  | f :: fs => f.append (concat fs)

@[simp] theorem append_nil (f : Boxes) : f.append nil = f := by
  induction f with
  | nil => rfl
  | cons fcc fields kids rest _ ih => rw [append, ih]

@[simp] theorem nil_append (f : Boxes) : nil.append f = f := rfl

@[simp] theorem cons_append (fcc fields : List UInt8) (kids rest f : Boxes) :
    (cons fcc fields kids rest).append f = cons fcc fields kids (rest.append f) := rfl

@[simp] theorem octets_nil : nil.octets = [] := rfl

theorem octets_cons (fcc fields : List UInt8) (kids rest : Boxes) : (cons fcc fields kids rest).octets =
    head fcc (fields ++ kids.octets) (8 + (fields ++ kids.octets).length) ++ rest.octets := by
  rw [octets, List.length_append, ← Nat.add_assoc]
  simp only [head, List.append_assoc]

theorem octets_box (fcc fields : List UInt8) (kids : Boxes) : (box fcc fields kids).octets =
    head fcc fields (8 + fields.length + kids.octets.length) ++ kids.octets :=
  List.append_nil _

@[simp] theorem octets_append (f g : Boxes) : (f.append g).octets = f.octets ++ g.octets := by
  induction f with
  | nil => rfl
  | cons fcc fields kids rest _ ih => simp only [append, octets, ih, List.append_assoc]

theorem octets_concat (fs : List Boxes) : (concat fs).octets = fs.flatMap octets := by
  induction fs with
  | nil => rfl
  | cons f fs ih => rw [concat, octets_append, ih, List.flatMap_cons]

theorem length_head {fcc : List UInt8} (h : fcc.length = 4) (fields : List UInt8) (size : Nat) :
    (head fcc fields size).length = 8 + fields.length := by
  simp [head, h]
  omega

theorem length_box {fcc : List UInt8} (h : fcc.length = 4) (fields : List UInt8) (kids : Boxes) :
    (box fcc fields kids).octets.length = 8 + fields.length + kids.octets.length := by
  rw [octets_box, List.length_append, length_head h]

theorem length_leaf {fcc : List UInt8} (h : fcc.length = 4) (fields : List UInt8) :
    (leaf fcc fields).octets.length = 8 + fields.length :=
  length_box h fields nil

theorem exists_body {fcc : List UInt8} (h : fcc.length = 4) (fields : List UInt8) (kids : Boxes) :
    ∃ body, (box fcc fields kids).octets = head fcc body (box fcc fields kids).octets.length := by
  refine ⟨fields ++ kids.octets, ?_⟩
  rw [length_box h, octets_box]
  simp only [head, List.append_assoc]

/-- `kind fcc` is `none` for a box that holds none, and else the length of its fields. -/
def Formed (kind : List UInt8 → Option Nat) : Boxes → Prop
  | nil => True
  | cons fcc fields kids rest =>
    fcc.length = 4 ∧
      (match kind fcc with
        | none => kids = nil
        | some n => fields.length = n) ∧
      kids.Formed kind ∧ rest.Formed kind

theorem Formed.append {kind : List UInt8 → Option Nat} {f g : Boxes} (hf : f.Formed kind)
    (hg : g.Formed kind) : (f.append g).Formed kind := by
  induction f with
  | nil => exact hg
  | cons fcc fields kids rest _ ih =>
    obtain ⟨h4, shape, inner, behind⟩ := hf
    exact ⟨h4, shape, inner, ih behind⟩

section formed

variable {kind : List UInt8 → Option Nat} {fcc fields : List UInt8}

theorem Formed.leaf (h4 : fcc.length = 4) (hk : kind fcc = none) : (leaf fcc fields).Formed kind := by
  refine ⟨h4, ?_, trivial, trivial⟩
  rw [hk]

theorem Formed.box {kids : Boxes} (h4 : fcc.length = 4) (hk : kind fcc = some fields.length)
    (h : kids.Formed kind) : (box fcc fields kids).Formed kind := by
  refine ⟨h4, ?_, h, trivial⟩
  rw [hk]

theorem Formed.concat {fs : List Boxes} (h : ∀ f ∈ fs, f.Formed kind) : (concat fs).Formed kind := by
  induction fs with
  | nil => trivial
  | cons f fs ih =>
    exact (h f List.mem_cons_self).append (ih fun g hg => h g (List.mem_cons_of_mem _ hg))

end formed

/-- What a box announces about the records behind its fields: a word at `at_` counts records
of `width` octets that fill the rest of the fields, or the boxes inside it. -/
inductive Announces
  | records (at_ width : Nat)
  | boxes (at_ : Nat)
  deriving DecidableEq

/-- Every announced number is that of the records, or boxes, that are there. -/
def Counted (table : List UInt8 → Option Announces) : Boxes → Prop
  | nil => True
  | cons fcc fields kids rest =>
    (match table fcc with
      | none => True
      | some (.records i width) => fields.length = i + 4 + width * readBE (slice fields i 4)
      | some (.boxes i) => kids.count = readBE (slice fields i 4)) ∧
      kids.Counted table ∧ rest.Counted table

section counted

variable {table : List UInt8 → Option Announces} {fcc fields : List UInt8} {kids : Boxes}

theorem counted_append {f g : Boxes} :
    (f.append g).Counted table ↔ f.Counted table ∧ g.Counted table := by
  induction f with
  | nil => exact (and_iff_right trivial).symm
  | cons fcc fields kids rest _ ih => simp only [append, Counted, ih, and_assoc]

theorem counted_concat {fs : List Boxes} :
    (concat fs).Counted table ↔ ∀ f ∈ fs, f.Counted table := by
  induction fs with
  | nil => simp [concat, Counted]
  | cons f fs ih => simp only [concat, counted_append, ih, List.forall_mem_cons]

theorem counted_box (ht : table fcc = none) : (box fcc fields kids).Counted table ↔ kids.Counted table := by
  simp only [box, Counted, ht, true_and, and_true]

theorem counted_leaf (ht : table fcc = none) : (leaf fcc fields).Counted table :=
  (counted_box ht).mpr trivial

theorem counted_records (ht : table fcc = some (.records i width)) :
    (leaf fcc fields).Counted table ↔ fields.length = i + 4 + width * readBE (slice fields i 4) := by
  simp only [leaf, box, Counted, ht, and_true]

theorem counted_boxes (ht : table fcc = some (.boxes i)) : (box fcc fields kids).Counted table ↔
    kids.count = readBE (slice fields i 4) ∧ kids.Counted table := by
  simp only [box, Counted, ht, and_true]

end counted

end Boxes

open Boxes

section read

variable (kind : List UInt8 → Option Nat)

/-- Reads boxes until the octets are used up; `none` if a size runs over them, or is too small
for the head. -/
def readBoxes : Nat → List UInt8 → Option Boxes
  | _, [] => some nil
  | 0, _ :: _ => none
  | n + 1, b :: bs =>
    let size := readBE ((b :: bs).take 4)
    let fcc := slice (b :: bs) 4 4
    let body := slice (b :: bs) 8 (size - 8)
    if size < 8 ∨ (b :: bs).length < size then none
    else
      match kind fcc with
      | none => (readBoxes n ((b :: bs).drop size)).map (cons fcc body nil)
      | some k =>
        if body.length < k then none
        else (readBoxes n (body.drop k)).bind fun kids =>
          (readBoxes n ((b :: bs).drop size)).map (cons fcc (body.take k) kids)

/-- All of `bs`; a box takes eight octets, so there are fewer boxes than octets. -/
def readAll (bs : List UInt8) : Option Boxes := readBoxes kind bs.length bs

variable {kind}

@[simp] theorem readBoxes_nil (n : Nat) : readBoxes kind n [] = some nil := by
  cases n <;> rfl

/-- Fewer octets than a head. -/
theorem readBoxes_short {bs : List UInt8} (h : bs ≠ []) (h8 : bs.length < 8) :
    readBoxes kind n bs = none := by
  cases bs with
  | nil => exact absurd rfl h
  | cons b bs =>
    cases n with
    | zero => rfl
    | succ n =>
      rw [readBoxes, if_pos]
      omega

variable {fcc body tail : List UInt8} {size : Nat}

theorem head_take (hs : size < 2 ^ 32) (fcc fields rest : List UInt8) :
    readBE ((head fcc fields size ++ rest).take 4) = size := by
  rw [head, List.append_assoc, List.append_assoc, List.take_left' (length_be 4 size)]
  exact readBE_be_of_lt hs

/-- A size that runs over the octets. -/
theorem readBoxes_over (hs : size < 2 ^ 32) (h : (head fcc body size).length < size) :
    readBoxes kind n (head fcc body size) = none := by
  obtain ⟨b, bs, e⟩ := List.exists_cons_of_ne_nil
    (show head fcc body size ≠ [] from fun h => by simp [head, be] at h)
  cases n with
  | zero =>
    rw [e]
    rfl
  | succ n =>
    have size_eq := head_take hs fcc body []
    rw [List.append_nil] at size_eq
    rw [e] at size_eq h ⊢
    rw [readBoxes, if_pos]
    rw [size_eq]
    exact .inr h

theorem readBoxes_head (hf : fcc.length = 4) (hs : size < 2 ^ 32) (hb : 8 + body.length = size) :
    readBoxes kind (n + 1) (head fcc body size ++ tail) =
      match kind fcc with
      | none => (readBoxes kind n tail).map (cons fcc body nil)
      | some k =>
        if body.length < k then none
        else (readBoxes kind n (body.drop k)).bind fun kids =>
          (readBoxes kind n tail).map (cons fcc (body.take k) kids) := by
  have size_eq := head_take hs fcc body tail
  have fcc_eq : slice (head fcc body size ++ tail) 4 4 = fcc := by
    rw [head, List.append_assoc]
    exact slice_append _ _ _ hf (length_be 4 size)
  have body_eq : slice (head fcc body size ++ tail) 8 (size - 8) = body := by
    rw [head]
    exact slice_append _ _ _ (by omega) (by simp [hf])
  have tail_eq : (head fcc body size ++ tail).drop size = tail :=
    List.drop_left' ((length_head hf body size).trans hb)
  have len : ¬ (size < 8 ∨ (head fcc body size ++ tail).length < size) := by
    rw [List.length_append, length_head hf]
    omega
  obtain ⟨b, bs, e⟩ := List.exists_cons_of_ne_nil
    (show head fcc body size ++ tail ≠ [] from fun h => by simp [head, be] at h)
  rw [e] at size_eq fcc_eq body_eq tail_eq len ⊢
  simp only [readBoxes, size_eq, fcc_eq, body_eq, tail_eq, if_neg len]

/-- Octets inside a box that are no boxes. -/
theorem readBoxes_inside (hf : fcc.length = 4) (hs : size < 2 ^ 32) (hb : 8 + body.length = size)
    (hk : kind fcc = some k) (h : ∀ n, readBoxes kind n (body.drop k) = none) :
    readBoxes kind n (head fcc body size ++ tail) = none := by
  cases n with
  | zero =>
    obtain ⟨b, bs, e⟩ := List.exists_cons_of_ne_nil
      (show head fcc body size ++ tail ≠ [] from fun h => by simp [head, be] at h)
    rw [e]
    rfl
  | succ n =>
    rw [readBoxes_head hf hs hb, hk]
    dsimp only
    split
    · rfl
    · rw [h n]
      rfl

/-- What a writer of boxes lays down is read back. -/
theorem readBoxes_octets {f : Boxes} (h : f.Formed kind) (hs : f.octets.length < 2 ^ 32)
    (hn : f.octets.length ≤ n) : readBoxes kind n f.octets = some f := by
  induction f generalizing n with
  | nil => exact readBoxes_nil n
  | cons fcc fields kids rest ihk ihr =>
    obtain ⟨h4, shape, inner, behind⟩ := h
    rw [octets_cons] at hs hn ⊢
    rw [List.length_append, length_head h4] at hs hn
    have inside : kids.octets.length ≤ (fields ++ kids.octets).length := by simp
    cases n with
    | zero => omega
    | succ n =>
      rw [readBoxes_head h4 (by omega) rfl, ihr behind (by omega) (by omega)]
      cases hk : kind fcc with
      | none =>
        rw [hk] at shape
        obtain rfl := shape
        simp
      | some k =>
        rw [hk] at shape
        obtain rfl := shape
        have reaches : ¬ (fields ++ kids.octets).length < fields.length := by
          rw [List.length_append]
          omega
        simp only [if_neg reaches, List.drop_left, List.take_left, ihk inner (by omega) (by omega : _ ≤ n)]
        rfl

/-- Octets behind boxes that are none. -/
theorem readBoxes_behind {f : Boxes} (h : f.Formed kind) (hs : f.octets.length < 2 ^ 32)
    (fails : ∀ n, readBoxes kind n tail = none) : readBoxes kind n (f.octets ++ tail) = none := by
  induction f generalizing n with
  | nil => exact fails n
  | cons fcc fields kids rest _ ih =>
    obtain ⟨h4, shape, inner, behind⟩ := h
    rw [octets_cons] at hs ⊢
    rw [List.length_append, length_head h4] at hs
    rw [List.append_assoc]
    cases n with
    | zero => simp [readBoxes, head, be]
    | succ n =>
      rw [readBoxes_head h4 (by omega) rfl, ih behind (by omega)]
      split
      · rfl
      · split
        · rfl
        · cases readBoxes kind n _ <;> rfl

theorem readAll_octets {f : Boxes} (h : f.Formed kind) (hs : f.octets.length < 2 ^ 32) :
    readAll kind f.octets = some f :=
  readBoxes_octets h hs (le_refl _)

end read

end Lib
