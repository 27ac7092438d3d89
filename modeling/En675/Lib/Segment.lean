import En675.Lib.Transition
import Mathlib.Data.List.Basic
import Mathlib.Data.List.TakeWhile

/-! Cutting a stream into segments.  Elements arrive in a pending list and move, in
order, into the current segment; a segment starts at a key element, and the current
one is closed while a key element is at the head of the pending list. -/

universe u

namespace Lib

structure Segments (α : Type u) where
  arrived : List α
  pending : List α
  closed : List (List α)
  current : Option (List α)

namespace Segments

inductive Step (key : α → Bool) : Segments α → Unit → Segments α → Prop
  | arrive (a : α) : Step key ⟨ar, p, c, o⟩ () ⟨ar ++ [a], p ++ [a], c, o⟩
  | skip : key a = false → Step key ⟨ar, a :: p, [], some []⟩ () ⟨ar, p, [], some []⟩
  | begin : Step key ⟨ar, p, c, none⟩ () ⟨ar, p, c, some []⟩
  | take : f ≠ [] ∨ key a = true → Step key ⟨ar, a :: p, c, some f⟩ () ⟨ar, p, c, some (f ++ [a])⟩
  | roll : key a = true → f ≠ [] →
      Step key ⟨ar, a :: p, c, some f⟩ () ⟨ar, a :: p, c ++ [f], none⟩

def lts (key : α → Bool) : Lts (Segments α) Unit where
  init s := s = ⟨[], [], [], none⟩
  step := Step key

variable {α : Type u} {key : α → Bool}

/-- Empty, or starting at a key element. -/
def Keyed (key : α → Bool) (f : List α) : Prop := ∀ a, f.head? = some a → key a = true

/-- The elements stored so far. -/
def stored (s : Segments α) : List α := s.closed.flatten ++ s.current.getD []

def segments (s : Segments α) : List (List α) := s.closed ++ s.current.toList

structure Ordered (key : α → Bool) (s : Segments α) : Prop where
  order : ∃ used, s.arrived = used ++ s.pending ∧ s.stored = used.dropWhile (fun a => !key a)
  closed : ∀ f ∈ s.closed, f ≠ [] ∧ Keyed key f
  current : ∀ f, s.current = some f → Keyed key f
  waiting : s.closed ≠ [] → s.current.getD [] = [] →
    ∃ a p, s.pending = a :: p ∧ key a = true

theorem Keyed.append {f : List α} (h : Keyed key f) (ha : f ≠ [] ∨ key a = true) :
    Keyed key (f ++ [a]) := by
  cases f with
  | nil =>
    intro b hb
    cases hb
    exact ha.resolve_left (fun h => h rfl)
  | cons b f => exact h

/-- What was dropped by `dropWhile` stays dropped when an element is taken. -/
theorem dropWhile_take {used : List α} (h : used.dropWhile (fun a => !key a) ≠ [] ∨ key a = true) :
    (used ++ [a]).dropWhile (fun a => !key a) = used.dropWhile (fun a => !key a) ++ [a] := by
  rw [List.dropWhile_append]
  by_cases e : used.dropWhile (fun a => !key a) = []
  · simp [e, h.resolve_left (fun h => h e)]
  · simp [e]

theorem ordered_step (h : Ordered key s) (st : Step key s l t) : Ordered key t := by
  obtain ⟨used, split, stored⟩ := h.order
  cases st with
  | arrive a =>
    refine ⟨⟨used, ?_, stored⟩, h.closed, h.current, ?_⟩
    · simp only at split
      simp only [split, List.append_assoc]
    · intro hc hp
      obtain ⟨b, p, hb, kb⟩ := h.waiting hc hp
      obtain rfl := hb
      exact ⟨b, p ++ [a], rfl, kb⟩
  | skip ka =>
    refine ⟨⟨used ++ [_], by simpa using split, ?_⟩, h.closed, h.current, fun e => absurd rfl e⟩
    have none : used.dropWhile (fun a => !key a) = [] := by simpa [Segments.stored] using stored.symm
    rw [List.dropWhile_append]
    simp [none, ka, Segments.stored]
  | begin =>
    refine ⟨⟨used, split, by simpa [Segments.stored] using stored⟩, h.closed, ?_, ?_⟩
    · intro f hf
      cases hf
      exact fun a ha => by cases ha
    · exact fun hc _ => h.waiting hc rfl
  | @take f a ar p c ha =>
    refine ⟨⟨used ++ [a], by simpa using split, ?_⟩, h.closed, ?_, ?_⟩
    · rw [dropWhile_take, ← stored]
      · simp [Segments.stored]
      · rw [← stored]
        refine ha.imp_left (fun hf e => hf ?_)
        exact (List.append_eq_nil_iff.mp e).2
    · intro g hg
      cases hg
      exact (h.current f rfl).append ha
    · intro _ e
      simp at e
  | @roll a f ar p c ka hf =>
    refine ⟨⟨used, split, by simpa [Segments.stored] using stored⟩, ?_, ?_, ?_⟩
    · intro g hg
      rcases List.mem_append.mp hg with hg | hg
      · exact h.closed g hg
      · obtain rfl := List.mem_singleton.mp hg
        exact ⟨hf, h.current g rfl⟩
    · intro g hg
      cases hg
    · exact fun _ _ => ⟨a, p, rfl, ka⟩

theorem ordered : (lts key).Inductive Lts.any (Ordered key) where
  init h := by
    subst h
    exact ⟨⟨[], rfl, rfl⟩, by simp, by simp, by simp⟩
  step h _ st := ordered_step h st

/-- Either segment `k` still has no element and `a` is next, or `a` is its first one. -/
def Next (k : Nat) (a : α) (s : Segments α) : Prop :=
  (s.closed.length = k ∧ s.current.getD [] = [] ∧ ∃ p, s.pending = a :: p) ∨
    ∃ f, s.segments[k]? = some f ∧ f.head? = some a

theorem next_step (hk : k ≠ 0) (h : Next k a s) (st : Step key s l t) : Next k a t := by
  cases st with
  | arrive b =>
    refine h.imp ?_ id
    rintro ⟨hc, ho, p, hp⟩
    exact ⟨hc, ho, p ++ [b], by simp only at hp ⊢; rw [hp, List.cons_append]⟩
  | skip kb =>
    rcases h with ⟨hc, _⟩ | ⟨f, hf, ha⟩
    · exact absurd hc.symm hk
    · exact .inr ⟨f, hf, ha⟩
  | begin =>
    rcases h with ⟨hc, _, hp⟩ | ⟨f, hf, ha⟩
    · exact .inl ⟨hc, rfl, hp⟩
    · refine .inr ⟨f, ?_, ha⟩
      simp only [segments, Option.toList_none, List.append_nil] at hf
      simp only [segments]
      rw [List.getElem?_append_left (List.getElem?_eq_some_iff.mp hf).1, hf]
  | @take f b ar p c hb =>
    rcases h with ⟨hc, ho, q, hq⟩ | ⟨g, hg, ha⟩
    · simp only [List.cons.injEq] at hq
      simp only [Option.getD_some] at ho
      refine .inr ⟨[b], ?_, by rw [hq.1]; rfl⟩
      simp only at hc
      simp [segments, ho, ← hc]
    · refine .inr ?_
      simp only [segments, Option.toList_some] at hg ⊢
      rcases Nat.lt_trichotomy k c.length with hlt | rfl | hgt
      · rw [List.getElem?_append_left hlt] at hg ⊢
        exact ⟨g, hg, ha⟩
      · simp only [List.getElem?_concat_length, Option.some.injEq] at hg ⊢
        subst hg
        exact ⟨_, rfl, by rw [List.head?_append, ha]; rfl⟩
      · rw [List.getElem?_eq_none (by simp; omega)] at hg
        cases hg
  | @roll b f ar p c kb hf =>
    rcases h with ⟨_, ho, _⟩ | ⟨g, hg, ha⟩
    · exact absurd ho hf
    · exact .inr ⟨g, by simpa [segments] using hg, ha⟩

/-- A key element that closes a segment is the first element of the next one. -/
theorem next_steps (hk : k ≠ 0) (h : Steps (lts key) Lts.any s t) (n : Next k a s) :
    Next k a t :=
  h.inductive (I := Next k a) (fun n _ st => next_step hk n st) n

end Segments

end Lib
