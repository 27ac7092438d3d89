import En675.Http.FsFileList
import En675.Lib.Compar

/-! The order of the list (`webls_compar`): what the comparison is to `qsort`, and which arrays it
sorts as it should. -/

namespace En675.Http

open Lib

/-- An entry of the array: a file or a directory, with a name that is a C string. -/
abbrev Listed :=
  { it : FsFileList // 0 ∉ it.name ∧ (it.fattrib &&& amDir ≠ 0 ∨ it.fattrib &&& amArc ≠ 0) }

def weblsCompar (a b : Listed) : Int :=
  if a.1.fattrib ≠ b.1.fattrib then if a.1.fattrib &&& amDir ≠ 0 then 0 else 1
  else if a.1.fattrib &&& amDir ≠ 0 then
    if strcmp a.1.name (ascii "..") = 0 then 0
    else if strcmp b.1.name (ascii "..") = 0 then 1
    else strcmp a.1.name b.1.name
  else strcmp a.1.name b.1.name

section order

/-- `..` comes first, then the directories, then the files. -/
def rank (a : Listed) : Nat :=
  if a.1.fattrib &&& amDir ≠ 0 then if a.1.name = ascii ".." then 0 else 1 else 2

/-- In a group the order is that of the names. -/
def Ordered (a b : Listed) : Prop :=
  rank a < rank b ∨ rank a = rank b ∧ strcmp a.1.name b.1.name ≤ 0

/-- What the list is sorted for. -/
structure Sorts (l : List Listed) : Prop where
  consistent : Consistent weblsCompar l
  ordered : ∀ l', SortedTo weblsCompar l l' → l'.Pairwise Ordered

/-- The condition on two entries: equal attributes, and not one of them `..` beside another
directory; or two directories of one name. -/
def Alike (a b : Listed) : Prop :=
  a.1.fattrib = b.1.fattrib ∧
      (a.1.fattrib &&& amDir ≠ 0 → (a.1.name = ascii ".." ↔ b.1.name = ascii "..")) ∨
    a.1.fattrib &&& amDir ≠ 0 ∧ b.1.fattrib &&& amDir ≠ 0 ∧ a.1.name = b.1.name

end order

section compar

variable {a b d : Listed} {l : List Listed}

theorem dots_iff (a : Listed) : strcmp a.1.name (ascii "..") = 0 ↔ a.1.name = ascii ".." := by
  constructor
  · exact eq_of_strcmp a.2.1 (by decide)
  · intro h
    rw [h, strcmp_self]

theorem compar_of_ne (ne : a.1.fattrib ≠ b.1.fattrib) :
    weblsCompar a b = if a.1.fattrib &&& amDir ≠ 0 then 0 else 1 := if_pos ne

theorem compar_of_file (same : a.1.fattrib = b.1.fattrib) (file : ¬ a.1.fattrib &&& amDir ≠ 0) :
    weblsCompar a b = strcmp a.1.name b.1.name := by
  rw [weblsCompar, if_neg (not_not.2 same), if_neg file]

theorem compar_of_dir (same : a.1.fattrib = b.1.fattrib) (dir : a.1.fattrib &&& amDir ≠ 0) :
    weblsCompar a b = if a.1.name = ascii ".." then 0 else if b.1.name = ascii ".." then 1 else
      strcmp a.1.name b.1.name := by
  rw [weblsCompar, if_neg (not_not.2 same), if_pos dir]
  simp only [dots_iff]

/-- Entries that meet the condition are compared by name. -/
theorem Alike.compar (h : Alike a b) : weblsCompar a b = strcmp a.1.name b.1.name := by
  rcases h with ⟨same, dots⟩ | ⟨dirA, dirB, names⟩
  · by_cases dir : a.1.fattrib &&& amDir ≠ 0
    · rw [compar_of_dir same dir]
      by_cases top : a.1.name = ascii ".."
      · rw [if_pos top, top, ((dots dir).1 top), strcmp_self]
      · rw [if_neg top, if_neg fun hb => top ((dots dir).2 hb)]
    · exact compar_of_file same dir
  · rw [← names, strcmp_self]
    by_cases same : a.1.fattrib = b.1.fattrib
    · rw [compar_of_dir same dirA, ← names, strcmp_self]
      split <;> rfl
    · rw [compar_of_ne same, if_pos dirA]

theorem Alike.rank_eq (h : Alike a b) : rank a = rank b := by
  unfold rank
  rcases h with ⟨same, dots⟩ | ⟨dirA, dirB, names⟩
  · rw [← same]
    split
    case isTrue dir => simp only [dots dir]
    case isFalse => rfl
  · rw [if_pos dirA, if_pos dirB, names]

theorem sorts_of_alike (h : ∀ a ∈ l, ∀ b ∈ l, Alike a b) : Sorts l where
  consistent :=
    { antisymm := fun a ha b hb => by
        rw [(h a ha b hb).compar, (h b hb a ha).compar, strcmp_swap, Int.sign_neg]
      trans := fun a ha b hb d hd hab hbd => by
        rw [(h a ha b hb).compar] at hab
        rw [(h b hb d hd).compar] at hbd
        rw [(h a ha d hd).compar]
        exact strcmp_trans a.2.1 b.2.1 d.2.1 hab hbd }
  ordered l' sorted := by
    refine sorted.sorted.imp_of_mem fun {a b} ha hb le => .inr ?_
    have alike := h a (sorted.perm.mem_iff.1 ha) b (sorted.perm.mem_iff.1 hb)
    rw [alike.compar] at le
    exact ⟨alike.rank_eq, le⟩

/-- Two directories that compare as equal may come out either way. -/
theorem Sorts.names_eq (h : Sorts l) (ha : a ∈ l) (hb : b ∈ l) (hab : weblsCompar a b = 0)
    (hba : weblsCompar b a = 0) : a.1.name = b.1.name := by
  by_cases same : a = b
  · rw [same]
  · obtain ⟨l₁, sorted₁, sub₁⟩ := h.consistent.before ha hb same hab.le
    obtain ⟨l₂, sorted₂, sub₂⟩ := h.consistent.before hb ha (fun e => same e.symm) hba.le
    have one := List.rel_of_pairwise_cons ((h.ordered l₁ sorted₁).sublist sub₁) (List.mem_singleton.2 rfl)
    have two := List.rel_of_pairwise_cons ((h.ordered l₂ sorted₂).sublist sub₂) (List.mem_singleton.2 rfl)
    unfold Ordered at one two
    have swap := strcmp_swap a.1.name b.1.name
    exact eq_of_strcmp a.2.1 b.2.1 (by omega)

theorem Sorts.alike (h : Sorts l) (ha : a ∈ l) (hb : b ∈ l) : Alike a b := by
  have anti := h.consistent.antisymm a ha b hb
  by_cases same : a.1.fattrib = b.1.fattrib
  · refine .inl ⟨same, fun dir => ?_⟩
    rw [compar_of_dir same dir, compar_of_dir same.symm (same ▸ dir)] at anti
    by_cases topA : a.1.name = ascii ".."
    · by_cases topB : b.1.name = ascii ".."
      · exact iff_of_true topA topB
      · rw [if_pos topA, if_neg topB, if_pos topA] at anti
        exact absurd anti (by decide)
    · by_cases topB : b.1.name = ascii ".."
      · rw [if_neg topA, if_pos topB, if_pos topB] at anti
        exact absurd anti (by decide)
      · exact iff_of_false topA topB
  · have differ : b.1.fattrib ≠ a.1.fattrib := fun e => same e.symm
    have ab := compar_of_ne same
    have ba := compar_of_ne differ
    rw [ab, ba] at anti
    by_cases dirA : a.1.fattrib &&& amDir ≠ 0
    · by_cases dirB : b.1.fattrib &&& amDir ≠ 0
      · rw [if_pos dirA] at ab
        rw [if_pos dirB] at ba
        exact .inr ⟨dirA, dirB, h.names_eq ha hb ab ba⟩
      · rw [if_pos dirA, if_neg dirB] at anti
        exact absurd anti (by decide)
    · rw [if_neg dirA] at anti
      split at anti
      · exact absurd anti (by decide)
      · exact absurd anti (by decide)

end compar

/-- The comparison sorts an array exactly if any two of its entries are alike. -/
theorem webls_sorts_iff (l : List Listed) : Sorts l ↔ ∀ a ∈ l, ∀ b ∈ l, Alike a b :=
  ⟨fun h _ ha _ hb => h.alike ha hb, sorts_of_alike⟩

def demoEntry (name : String) (fattrib : UInt8) : FsFileList :=
  ⟨none, ascii name, fattrib, 0, 0, 0, 0⟩

def dirB : Listed := ⟨demoEntry "b" amDir, by decide⟩
def fileA : Listed := ⟨demoEntry "a" amArc, by decide⟩

/-- A directory and a file: neither is below the other, and the file may come first. -/
theorem webls_missorts : weblsCompar dirB fileA = 0 ∧ weblsCompar fileA dirB = 1 ∧ ¬ Sorts [fileA, dirB] := by
  refine ⟨by decide, by decide, fun h => ?_⟩
  exact absurd (h.consistent.antisymm dirB (by simp) fileA (by simp)) (by decide)

end En675.Http
