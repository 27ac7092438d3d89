import Mathlib.Logic.Function.Basic
import En675.Lib.Transition

/-! A lock word and the parties that want it.  A `mutex` is read and taken in one step; a plain
flag is tested in one step and set in another. -/

universe u

namespace Lib

inductive LockPhase where
  | out
  | passed
  | inside
  deriving DecidableEq

structure SpinLock (ι : Type u) where
  taken : Bool
  phase : ι → LockPhase

inductive LockOp (ι : Type u)
  | test (p : ι)
  | set (p : ι)
  | leave (p : ι)

namespace SpinLock

variable {ι : Type u}

/-- At most one party is inside. -/
def Exclusive (s : SpinLock ι) : Prop :=
  ∀ p q, s.phase p = .inside → s.phase q = .inside → p = q

/-- No test passes while a party that has passed its own has not set the flag. -/
def Apart (s : SpinLock ι) : LockOp ι → Prop
  | .test _ => s.taken = false → ∀ q, s.phase q ≠ .passed
  | _ => True

structure Owned (s : SpinLock ι) : Prop where
  alone : ∀ {p q}, s.phase p ≠ .out → s.phase q ≠ .out → p = q
  taken : ∀ {p}, s.phase p = .inside → s.taken = true
  free : ∀ {p}, s.phase p = .passed → s.taken = false

theorem Owned.exclusive {s : SpinLock ι} (h : Owned s) : Exclusive s := by
  intro p q hp hq
  apply h.alone
  · rw [hp]
    exact nofun
  · rw [hq]
    exact nofun

/-- Whoever is not out keeps a free lock from being free, unless it has only passed its test. -/
theorem Owned.all_out {s : SpinLock ι} (h : Owned s) (free : s.taken = false)
    (apart : ∀ q, s.phase q ≠ .passed) (q : ι) : s.phase q = .out := by
  cases e : s.phase q with
  | out => rfl
  | passed => exact absurd e (apart q)
  | inside =>
    rw [h.taken e] at free
    cases free

variable [DecidableEq ι]

inductive Step (mutex : Bool) : SpinLock ι → LockOp ι → SpinLock ι → Prop
  | spin : s.phase p = .out → s.taken = true → Step mutex s (.test p) s
  | take : s.phase p = .out → s.taken = false → mutex = true →
      Step mutex s (.test p) ⟨true, Function.update s.phase p .inside⟩
  | pass : s.phase p = .out → s.taken = false → mutex = false →
      Step mutex s (.test p) ⟨false, Function.update s.phase p .passed⟩
  | set : s.phase p = .passed → Step mutex s (.set p) ⟨true, Function.update s.phase p .inside⟩
  | leave : s.phase p = .inside → Step mutex s (.leave p) ⟨false, Function.update s.phase p .out⟩

def spins (mutex : Bool) : Lts (SpinLock ι) (LockOp ι) where
  init s := s = ⟨false, fun _ => .out⟩
  step := Step mutex

theorem phase_update {s : SpinLock ι} {p q : ι} {f : LockPhase} (b : Bool)
    (h : (⟨b, Function.update s.phase p f⟩ : SpinLock ι).phase q ≠ .out) : q = p ∨ s.phase q ≠ .out := by
  by_cases e : q = p
  · exact .inl e
  · right
    simp only [Function.update_of_ne e] at h
    exact h

/-- When every other party is out, the phase of one decides about the lock. -/
theorem owned_update {s : SpinLock ι} {p : ι} (others : ∀ q, s.phase q ≠ .out → q = p)
    (b : Bool) (f : LockPhase) (inside : f = .inside → b = true) (passed : f = .passed → b = false) :
    Owned ⟨b, Function.update s.phase p f⟩ := by
  have only : ∀ {q}, (⟨b, Function.update s.phase p f⟩ : SpinLock ι).phase q ≠ .out → q = p := by
    intro q h
    rcases phase_update b h with h | h
    · exact h
    · exact others q h
  refine ⟨fun hp hq => (only hp).trans (only hq).symm, ?_, ?_⟩
  · intro q h
    obtain rfl := only (by rw [h]; exact nofun)
    simp only [Function.update_self] at h
    exact inside h
  · intro q h
    obtain rfl := only (by rw [h]; exact nofun)
    simp only [Function.update_self] at h
    exact passed h

theorem Owned.step {mutex : Bool} {s t : SpinLock ι} {op : LockOp ι} (h : Owned s) (apart : Apart s op)
    (st : Step mutex s op t) : Owned t := by
  cases st with
  | spin => exact h
  | take hp free =>
    refine owned_update (fun q hq => ?_) _ _ (fun _ => rfl) nofun
    exact absurd (h.all_out free (apart free) q) hq
  | pass hp free =>
    refine owned_update (fun q hq => ?_) _ _ nofun (fun _ => rfl)
    exact absurd (h.all_out free (apart free) q) hq
  | set hp =>
    refine owned_update (fun q hq => h.alone hq ?_) _ _ (fun _ => rfl) nofun
    rw [hp]
    exact nofun
  | leave hp =>
    refine owned_update (fun q hq => h.alone hq ?_) _ _ nofun nofun
    rw [hp]
    exact nofun

theorem owned_inductive (mutex : Bool) : (spins mutex).Inductive Apart (Owned : SpinLock ι → Prop) where
  init := by
    rintro s rfl
    exact ⟨fun h => absurd rfl h, nofun, nofun⟩
  step := Owned.step

/-- With a mutex no party is ever between its test and its setting of the lock. -/
theorem mutex_inductive : (spins true).Inductive Lts.any (fun s : SpinLock ι => ∀ q, s.phase q ≠ .passed) where
  init := by
    rintro s rfl q
    exact nofun
  step := by
    intro s op t none _ st q
    have keep : ∀ (p : ι) (f : LockPhase), f ≠ .passed → Function.update s.phase p f q ≠ .passed := by
      intro p f hf
      by_cases e : q = p
      · rw [e, Function.update_self]
        exact hf
      · rw [Function.update_of_ne e]
        exact none q
    cases st with
    | spin => exact none q
    | take => exact keep _ _ nofun
    | pass _ _ h => cases h
    | set => exact keep _ _ nofun
    | leave => exact keep _ _ nofun

theorem mutex_owned {s : SpinLock ι} (h : Reach (spins true) Lts.any s) : Owned s := by
  refine mutex_inductive.reach_of (I := Owned) (owned_inductive true).init ?_ h
  intro s op t none owned _ st
  refine owned.step ?_ st
  cases op with
  | test => exact fun _ => none
  | set => trivial
  | leave => trivial

end SpinLock

end Lib
