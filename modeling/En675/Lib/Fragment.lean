/-! Units carried whole or as runs of fragments with start and end flags, and the
strict receiver that puts them together again. -/

universe u

namespace Lib

/-- A parse of a list starts with a parse of its head. -/
theorem mapM_cons_some {α β : Type u} {f : α → Option β} {x : α} {xs : List α} {zs : List β}
    (h : (x :: xs).mapM f = some zs) :
    ∃ y ys, zs = y :: ys ∧ f x = some y ∧ xs.mapM f = some ys := by
  rw [List.mapM_cons] at h
  obtain ⟨y, hy, h⟩ := Option.bind_eq_some_iff.1 h
  obtain ⟨ys, hys, h⟩ := Option.bind_eq_some_iff.1 h
  cases h
  exact ⟨y, ys, rfl, hy, hys⟩

inductive Item (H : Type u) (α : Type u)
  | single : List α → Item H α
  | frag (start stop : Bool) (hdr : H) (data : List α) : Item H α
  deriving DecidableEq

namespace Item

variable {H α : Type u}

/-- The first fragment has the start flag only, the last the end flag only, those
between have neither, and a run has at least these two. -/
inductive Run (h : H) : List (Item H α) → List α → Prop
  | last (d : List α) : Run h [frag false true h d] d
  | more : Run h xs ys → Run h (frag false false h d :: xs) (d ++ ys)

inductive Carries (rebuild : H → List α → List α) : List (Item H α) → List (List α) → Prop
  | nil : Carries rebuild [] []
  | single : Carries rebuild xs us → Carries rebuild (.single u :: xs) (u :: us)
  | run : Run h ys tl → Carries rebuild xs us →
      Carries rebuild (frag true false h d :: (ys ++ xs)) (rebuild h (d ++ tl) :: us)

/-- A receiver with at most one unit under construction; anything out of place is
an error. -/
def reassemble [DecidableEq H] (rebuild : H → List α → List α) :
    Option (H × List α) → List (Item H α) → Option (List (List α))
  | none, [] => some []
  | some _, [] => none
  | none, .single u :: xs => (reassemble rebuild none xs).map (u :: ·)
  | none, .frag true false h d :: xs => reassemble rebuild (some (h, d)) xs
  | some (h, acc), .frag false stop h' d :: xs =>
    if h = h' then
      if stop then (reassemble rebuild none xs).map (rebuild h (acc ++ d) :: ·)
      else reassemble rebuild (some (h, acc ++ d)) xs
    else none
  | _, _ => none

theorem Run.reassemble [DecidableEq H] {rebuild : H → List α → List α} {h : H}
    {ys : List (Item H α)} (r : Run h ys tl) (acc : List α) (xs : List (Item H α)) :
    Item.reassemble rebuild (some (h, acc)) (ys ++ xs) =
      (Item.reassemble rebuild none xs).map (rebuild h (acc ++ tl) :: ·) := by
  induction r generalizing acc with
  | last d => simp [Item.reassemble]
  | more _ ih => simp [Item.reassemble, ih]

/-- The receiver accepts what is carried and gives it back. -/
theorem Carries.reassemble [DecidableEq H] {rebuild : H → List α → List α}
    {xs : List (Item H α)} (c : Carries rebuild xs us) :
    Item.reassemble rebuild none xs = some us := by
  induction c with
  | nil => rfl
  | single _ ih => simp [Item.reassemble, ih]
  | run r _ ih => simp [Item.reassemble, r.reassemble, ih]

end Item

end Lib
