import Mathlib.Data.Prod.Lex

/-! What the calls of a partial function settle on.  `Leads f P Q` says that enough calls bring every state of
`P` to one of `Q`; a rank into a well-founded order gives it call by call. -/

universe u v

namespace Lib

variable {S : Type u} {f : S → Option S} {P Q R : S → Prop}

/-- `n` calls. -/
def callTimes (f : S → Option S) : Nat → S → Option S
  | 0, s => some s
  | n + 1, s => (f s).bind (callTimes f n)

@[simp] theorem callTimes_zero (s : S) : callTimes f 0 s = some s := rfl

theorem callTimes_succ (h : f s = some t) (n : Nat) : callTimes f (n + 1) s = callTimes f n t := by
  rw [callTimes, h, Option.bind_some]

theorem callTimes_add (m n : Nat) (s : S) : callTimes f (m + n) s = (callTimes f m s).bind (callTimes f n) := by
  induction m generalizing s with
  | zero => rw [Nat.zero_add, callTimes_zero, Option.bind_some]
  | succ m ih =>
    rw [Nat.succ_add, callTimes, callTimes, Option.bind_assoc]
    exact congrArg _ (funext ih)

/-- The next call ends in `Q`. -/
def Next (f : S → Option S) (Q : S → Prop) (s : S) : Prop := ∃ t, f s = some t ∧ Q t

theorem Next.mono (h : Next f Q s) (sub : ∀ t, Q t → R t) : Next f R s :=
  have ⟨t, ht, q⟩ := h
  ⟨t, ht, sub t q⟩

def Leads (f : S → Option S) (P Q : S → Prop) : Prop := ∀ s, P s → ∃ n t, callTimes f n s = some t ∧ Q t

namespace Leads

theorem of_imp (h : ∀ s, P s → Q s) : Leads f P Q := fun s p => ⟨0, s, rfl, h s p⟩

theorem trans (h : Leads f P Q) (k : Leads f Q R) : Leads f P R := by
  intro s p
  obtain ⟨m, t, ht, q⟩ := h s p
  obtain ⟨n, u, hu, r⟩ := k t q
  exact ⟨m + n, u, by rw [callTimes_add, ht, Option.bind_some, hu], r⟩

theorem mono (h : Leads f P Q) (sub : ∀ s, Q s → R s) : Leads f P R := h.trans (of_imp sub)

/-- One call more. -/
theorem of_next (h : ∀ s, P s → Next f Q s) (k : Leads f Q R) : Leads f P R := by
  intro s p
  obtain ⟨t, ht, q⟩ := h s p
  obtain ⟨n, u, hu, r⟩ := k t q
  exact ⟨n + 1, u, (callTimes_succ ht n).trans hu, r⟩

/-- Every call short of the goal reaches it or lowers the rank. -/
theorem of_rank {α : Type v} [LT α] [WellFoundedLT α] (μ : S → α)
    (h : ∀ s, P s → Q s ∨ Next f (fun t => Q t ∨ P t ∧ μ t < μ s) s) : Leads f P Q := by
  intro s p
  induction hμ : μ s using WellFoundedLT.induction generalizing s with
  | ind a ih =>
    rcases h s p with q | ⟨t, ht, q | ⟨pt, lt⟩⟩
    · exact ⟨0, s, rfl, q⟩
    · exact ⟨1, t, (callTimes_succ ht 0).trans rfl, q⟩
    · obtain ⟨n, u, hu, q⟩ := ih (μ t) (hμ ▸ lt) t pt rfl
      exact ⟨n + 1, u, (callTimes_succ ht n).trans hu, q⟩

end Leads

/-- From some call on every state is one of `Q`. -/
def Settles (f : S → Option S) (Q : S → Prop) (s : S) : Prop :=
  ∃ n, ∀ m, n ≤ m → ∃ t, callTimes f m s = some t ∧ Q t

/-- Every call from `Q` ends in `Q`. -/
theorem stays_callTimes (h : ∀ s, Q s → Next f Q s) (n : Nat) (q : Q s) : ∃ t, callTimes f n s = some t ∧ Q t := by
  induction n generalizing s with
  | zero => exact ⟨s, rfl, q⟩
  | succ n ih =>
    obtain ⟨t, ht, qt⟩ := h s q
    rw [callTimes_succ ht]
    exact ih qt

theorem Leads.settles (h : Leads f P Q) (stays : ∀ s, Q s → Next f Q s) (p : P s) : Settles f Q s := by
  obtain ⟨n, t, ht, q⟩ := h s p
  refine ⟨n, fun m le => ?_⟩
  obtain ⟨d, rfl⟩ := Nat.exists_eq_add_of_le le
  rw [callTimes_add, ht, Option.bind_some]
  exact stays_callTimes stays d q

theorem Settles.mono (h : Settles f Q s) (sub : ∀ t, Q t → R t) : Settles f R s :=
  have ⟨n, hn⟩ := h
  ⟨n, fun m le => have ⟨t, ht, q⟩ := hn m le; ⟨t, ht, sub t q⟩⟩

section rank

variable {α : Type u} {β : Type v} [PartialOrder α] [Preorder β]

end rank

end Lib
