import Mathlib.Algebra.Order.Group.Multiset
import Mathlib.Data.Multiset.Filter
import Mathlib.Tactic.Abel

/-! A table searched from its front, up to a limit of its own: the first entry that passes a test is
replaced.  The limit may be larger than the table. -/

universe u v

namespace Lib

variable {σ : Type u} {κ : Type v}

inductive Scan (σ : Type u) where
  | hit (es : List σ)
  | missed
  /-- The search looks past the end. -/
  | beyond
  deriving DecidableEq

namespace Scan

def cons (e : σ) : Scan σ → Scan σ
  | .hit es => .hit (e :: es)
  | .missed => .missed
  | .beyond => .beyond

@[simp] theorem cons_eq_missed {e : σ} {s : Scan σ} : s.cons e = .missed ↔ s = .missed := by
  cases s <;> simp [cons]

@[simp] theorem cons_eq_beyond {e : σ} {s : Scan σ} : s.cons e = .beyond ↔ s = .beyond := by
  cases s <;> simp [cons]

theorem cons_eq_hit {e : σ} {s : Scan σ} {es : List σ} :
    s.cons e = .hit es ↔ ∃ fs, s = .hit fs ∧ es = e :: fs := by
  cases s <;> simp [cons, eq_comm]

/-- The table afterwards. -/
def table (es : List σ) : Scan σ → List σ
  | .hit es' => es'
  | _ => es

def isHit : Scan σ → Bool
  | .hit _ => true
  | _ => false

end Scan

section scan

variable (p : σ → Bool) (f : σ → σ)

def scan : Nat → List σ → Scan σ
  | 0, _ => .missed
  | _ + 1, [] => .beyond
  | n + 1, e :: es => if p e then .hit (f e :: es) else (scan n es).cons e

variable {p f} {n : Nat} {es es' : List σ}

/-- A hit replaces one entry, the first that passes. -/
theorem scan_hit (h : scan p f n es = .hit es') :
    ∃ pre e post, es = pre ++ e :: post ∧ es' = pre ++ f e :: post ∧ p e = true ∧
      (∀ x ∈ pre, p x = false) ∧ pre.length < n := by
  induction n generalizing es es' with
  | zero => cases h
  | succ n ih =>
    cases es with
    | nil => cases h
    | cons e es =>
      rw [scan] at h
      split at h
      · obtain rfl := Scan.hit.inj h
        exact ⟨[], e, es, rfl, rfl, ‹_›, fun _ hx => absurd hx List.not_mem_nil, Nat.succ_pos _⟩
      · rename_i skip
        obtain ⟨fs, hs, rfl⟩ := Scan.cons_eq_hit.1 h
        obtain ⟨pre, x, post, rfl, rfl, hx, hpre, lt⟩ := ih hs
        exact ⟨e :: pre, x, post, rfl, rfl, hx,
          List.forall_mem_cons.2 ⟨Bool.eq_false_of_not_eq_true skip, hpre⟩, Nat.succ_lt_succ lt⟩

theorem scan_missed : scan p f n es = .missed ↔ n ≤ es.length ∧ ∀ x ∈ es.take n, p x = false := by
  induction n generalizing es with
  | zero => simp [scan]
  | succ n ih =>
    cases es with
    | nil => simp [scan]
    | cons e es =>
      rw [scan, List.length_cons, Nat.succ_le_succ_iff, List.take_succ_cons, List.forall_mem_cons]
      split
      · rename_i pass
        simp [pass]
      · rename_i skip
        rw [Scan.cons_eq_missed, ih]
        simp [skip]

theorem scan_beyond : scan p f n es = .beyond ↔ es.length < n ∧ ∀ x ∈ es, p x = false := by
  induction n generalizing es with
  | zero => simp [scan]
  | succ n ih =>
    cases es with
    | nil => simp [scan]
    | cons e es =>
      rw [scan, List.length_cons, Nat.succ_lt_succ_iff, List.forall_mem_cons]
      split
      · rename_i pass
        simp [pass]
      · rename_i skip
        rw [Scan.cons_eq_beyond, ih]
        simp [skip]

/-- A table at least as long as the limit is not left. -/
theorem scan_ne_beyond (h : n ≤ es.length) : scan p f n es ≠ .beyond := fun hs =>
  absurd (scan_beyond.1 hs).1 (Nat.not_lt.2 h)

/-- An entry that passes is found. -/
theorem exists_scan_hit (found : ∃ e ∈ es.take n, p e = true) : ∃ es', scan p f n es = .hit es' := by
  obtain ⟨e, he, pass⟩ := found
  cases hs : scan p f n es with
  | hit es' => exact ⟨es', rfl⟩
  | missed => exact absurd ((scan_missed.1 hs).2 e he) (by simp [pass])
  | beyond => exact absurd ((scan_beyond.1 hs).2 e (List.mem_of_mem_take he)) (by simp [pass])

/-- The search does not depend on what lies behind the limit. -/
theorem scan_take {m : Nat} (hm : n ≤ m) (h : scan p f n es = .hit es') :
    scan p f n (es.take m) = .hit (es'.take m) := by
  induction n generalizing es es' m with
  | zero => cases h
  | succ n ih =>
    cases m with
    | zero => exact absurd hm (Nat.not_succ_le_zero n)
    | succ m =>
      cases es with
      | nil => cases h
      | cons e es =>
        rw [scan] at h
        rw [List.take_succ_cons, scan]
        split at h
        · rw [if_pos ‹_›]
          obtain rfl := Scan.hit.inj h
          rfl
        · rw [if_neg ‹_›]
          obtain ⟨fs, hs, rfl⟩ := Scan.cons_eq_hit.1 h
          rw [ih (Nat.le_of_succ_le_succ hm) hs]
          rfl

theorem hit_length (h : scan p f n es = .hit es') : es'.length = es.length := by
  obtain ⟨pre, e, post, rfl, rfl, -⟩ := scan_hit h
  simp

/-- What lies at the limit or behind it stays. -/
theorem hit_drop (h : scan p f n es = .hit es') : es'.drop n = es.drop n := by
  obtain ⟨pre, e, post, rfl, rfl, -, -, lt⟩ := scan_hit h
  obtain ⟨k, rfl⟩ := Nat.exists_eq_add_of_lt lt
  simp [List.drop_append, Nat.add_assoc]

end scan

section contents

variable (entry : σ → Option κ)

/-- The keys of the entries in use. -/
def contents (es : List σ) : Multiset κ := (es.filterMap entry : List κ)

def held : Option κ → Multiset κ
  | none => 0
  | some k => {k}

@[simp] theorem held_none : held (none : Option κ) = 0 := rfl

@[simp] theorem held_some (k : κ) : held (some k) = {k} := rfl

variable {entry}

theorem mem_contents {es : List σ} {k : κ} : k ∈ contents entry es ↔ ∃ e ∈ es, entry e = some k := by
  rw [contents, Multiset.mem_coe, List.mem_filterMap]

@[simp] theorem contents_append (es fs : List σ) :
    contents entry (es ++ fs) = contents entry es + contents entry fs := by
  rw [contents, List.filterMap_append, ← Multiset.coe_add]
  rfl

@[simp] theorem contents_cons (e : σ) (es : List σ) :
    contents entry (e :: es) = held (entry e) + contents entry es := by
  rw [contents, List.filterMap_cons]
  cases entry e with
  | none => exact (zero_add _).symm
  | some k => rfl

theorem card_contents_le (es : List σ) : Multiset.card (contents entry es) ≤ es.length := by
  rw [contents, Multiset.coe_card]
  exact List.length_filterMap_le _ _

/-- Entries in use count. -/
theorem le_card_contents {n : Nat} {es : List σ} (hn : n ≤ es.length)
    (used : ∀ e ∈ es.take n, entry e ≠ none) : n ≤ Multiset.card (contents entry es) := by
  induction n generalizing es with
  | zero => exact Nat.zero_le _
  | succ n ih =>
    cases es with
    | nil => exact absurd hn (Nat.not_succ_le_zero n)
    | cons e es =>
      rw [List.take_succ_cons, List.forall_mem_cons] at used
      obtain ⟨k, hk⟩ := Option.ne_none_iff_exists'.1 used.1
      have rest := ih (Nat.le_of_succ_le_succ hn) used.2
      rw [contents_cons, hk, held_some, Multiset.card_add, Multiset.card_singleton]
      omega

section hit

variable {p : σ → Bool} {f : σ → σ} {n : Nat} {es es' : List σ} {k : κ}

/-- A hit takes the old key out and puts the new one in. -/
theorem contents_hit (entry : σ → Option κ) (h : scan p f n es = .hit es') :
    ∃ e ∈ es, p e = true ∧
      contents entry es' + held (entry e) = contents entry es + held (entry (f e)) := by
  obtain ⟨pre, e, post, rfl, rfl, he, -⟩ := scan_hit h
  refine ⟨e, by simp, he, ?_⟩
  simp only [contents_append, contents_cons]
  abel

theorem contents_fill (h : scan p f n es = .hit es') (free : ∀ e, p e = true → entry e = none)
    (filled : ∀ e, entry (f e) = some k) : contents entry es' = k ::ₘ contents entry es := by
  obtain ⟨e, -, he, moved⟩ := contents_hit entry h
  rwa [free e he, filled, held_none, held_some, add_zero, add_comm, Multiset.singleton_add] at moved

theorem contents_clear (h : scan p f n es = .hit es') (used : ∀ e, p e = true → entry e = some k)
    (cleared : ∀ e, entry (f e) = none) : contents entry es = k ::ₘ contents entry es' := by
  obtain ⟨e, -, he, moved⟩ := contents_hit entry h
  rw [used e he, cleared, held_none, held_some, add_zero, add_comm, Multiset.singleton_add] at moved
  exact moved.symm

end hit

end contents

end Lib
