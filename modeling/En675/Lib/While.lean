/-! While loops that may break.  They run on fuel; the rules give total correctness, so that a
variant bounds the fuel that is enough. -/

universe u

namespace Lib

/-- How a round of a loop ends. -/
inductive Round (σ : Type u)
  | next (s : σ)
  | stop (s : σ)

/-- `while (cond) body`, for at most `n` rounds. -/
def whileDo {σ : Type u} (cond : σ → Bool) (body : σ → Round σ) : Nat → σ → Option σ
  | n, s =>
    if cond s then
      match n with
      | 0 => none
      | n + 1 =>
        match body s with
        | .next t => whileDo cond body n t
        | .stop t => some t
    else some s

variable {σ : Type u} {cond : σ → Bool} {body : σ → Round σ} {s t : σ}

theorem whileDo_exit (n : Nat) (h : cond s = false) : whileDo cond body n s = some s := by
  unfold whileDo
  rw [h, if_neg Bool.false_ne_true]

theorem whileDo_next (h : cond s = true) (hb : body s = .next t) :
    whileDo cond body (n + 1) s = whileDo cond body n t := by
  rw [whileDo, if_pos h, hb]

theorem whileDo_stop (h : cond s = true) (hb : body s = .stop t) :
    whileDo cond body (n + 1) s = some t := by
  rw [whileDo, if_pos h, hb]

/-- More fuel changes nothing. -/
theorem whileDo_mono (h : whileDo cond body n s = some t) (le : n ≤ m) :
    whileDo cond body m s = some t := by
  induction n generalizing m s with
  | zero =>
    cases hc : cond s with
    | false =>
      rw [whileDo_exit _ hc] at h ⊢
      exact h
    | true =>
      rw [whileDo, if_pos hc] at h
      cases h
  | succ n ih =>
    cases hc : cond s with
    | false =>
      rw [whileDo_exit _ hc] at h ⊢
      exact h
    | true =>
      obtain ⟨m, rfl⟩ := Nat.exists_eq_succ_of_ne_zero (Nat.ne_of_gt (Nat.lt_of_lt_of_le n.succ_pos le))
      cases hb : body s with
      | next u =>
        rw [whileDo_next hc hb] at h ⊢
        exact ih h (Nat.le_of_succ_le_succ le)
      | stop u =>
        rw [whileDo_stop hc hb] at h ⊢
        exact h

/-- An invariant that a round keeps, and a variant that it lowers. -/
structure Variant (cond : σ → Bool) (body : σ → Round σ) (I : σ → Prop) (μ : σ → Nat) (post : σ → Prop) :
    Prop where
  exit : ∀ {s}, I s → cond s = false → post s
  next : ∀ {s t}, I s → cond s = true → body s = .next t → I t ∧ μ t < μ s
  stop : ∀ {s t}, I s → cond s = true → body s = .stop t → post t
  live : ∀ {s}, I s → cond s = true → 0 < μ s

/-- The loop ends, within as many rounds as the variant says. -/
theorem Variant.total (h : Variant cond body I μ post) (i : I s) (hn : μ s ≤ n) :
    ∃ t, whileDo cond body n s = some t ∧ post t := by
  induction n generalizing s with
  | zero =>
    cases hc : cond s with
    | false => exact ⟨s, whileDo_exit 0 hc, h.exit i hc⟩
    | true => exact absurd (h.live i hc) (Nat.not_lt.2 hn)
  | succ n ih =>
    cases hc : cond s with
    | false => exact ⟨s, whileDo_exit _ hc, h.exit i hc⟩
    | true =>
      cases hb : body s with
      | next t =>
        obtain ⟨it, lt⟩ := h.next i hc hb
        obtain ⟨u, hu, post⟩ := ih it (Nat.le_of_lt_succ (Nat.lt_of_lt_of_le lt hn))
        exact ⟨u, (whileDo_next hc hb).trans hu, post⟩
      | stop t => exact ⟨t, whileDo_stop hc hb, h.stop i hc hb⟩

/-- The same along a well-founded order, where no number bounds the rounds. -/
theorem whileDo_wf {r : σ → σ → Prop} (wf : WellFounded r) {I : σ → Prop}
    (next : ∀ {s t}, I s → cond s = true → body s = .next t → I t ∧ r t s) (i : I s) :
    ∃ n t, whileDo cond body n s = some t := by
  induction s using wf.induction with
  | h s ih =>
    cases hc : cond s with
    | false => exact ⟨0, s, whileDo_exit 0 hc⟩
    | true =>
      cases hb : body s with
      | stop t => exact ⟨1, t, whileDo_stop hc hb⟩
      | next t =>
        obtain ⟨it, lt⟩ := next i hc hb
        obtain ⟨n, u, hu⟩ := ih t lt it
        exact ⟨n + 1, u, (whileDo_next hc hb).trans hu⟩

/-- An invariant alone, where the loop is known to end. -/
structure Keeps (cond : σ → Bool) (body : σ → Round σ) (I post : σ → Prop) : Prop where
  exit : ∀ {s}, I s → cond s = false → post s
  next : ∀ {s t}, I s → cond s = true → body s = .next t → I t
  stop : ∀ {s t}, I s → cond s = true → body s = .stop t → post t

theorem Keeps.ends (h : Keeps cond body I post) (i : I s) (hw : whileDo cond body n s = some t) : post t := by
  induction n generalizing s with
  | zero =>
    cases hc : cond s with
    | false =>
      rw [whileDo_exit 0 hc] at hw
      exact Option.some.inj hw ▸ h.exit i hc
    | true =>
      rw [whileDo, if_pos hc] at hw
      cases hw
  | succ n ih =>
    cases hc : cond s with
    | false =>
      rw [whileDo_exit _ hc] at hw
      exact Option.some.inj hw ▸ h.exit i hc
    | true =>
      cases hb : body s with
      | next u =>
        rw [whileDo_next hc hb] at hw
        exact ih (h.next i hc hb) hw
      | stop u =>
        rw [whileDo_stop hc hb] at hw
        exact Option.some.inj hw ▸ h.stop i hc hb

/-- The states in which the first `n` rounds begin. -/
def rounds (cond : σ → Bool) (body : σ → Round σ) : Nat → σ → List σ
  | 0, _ => []
  | n + 1, s =>
    if cond s then
      s :: match body s with
        | .next t => rounds cond body n t
        | .stop _ => []
    else []

theorem Keeps.rounds (h : Keeps cond body I post) (i : I s) :
    ∀ u ∈ rounds cond body n s, I u ∧ cond u = true := by
  induction n generalizing s with
  | zero => exact fun u hu => absurd hu List.not_mem_nil
  | succ n ih =>
    intro u hu
    unfold Lib.rounds at hu
    split at hu
    · rename_i hc
      rcases List.mem_cons.1 hu with rfl | hu
      · exact ⟨i, hc⟩
      · cases hb : body s with
        | next t =>
          rw [hb] at hu
          exact ih (h.next i hc hb) u hu
        | stop t =>
          rw [hb] at hu
          exact absurd hu List.not_mem_nil
    · exact absurd hu List.not_mem_nil

section along

variable {P Q I : σ → Prop}

theorem rounds_exit (n : Nat) (h : cond s = false) : rounds cond body n s = [] := by
  cases n with
  | zero => rfl
  | succ n => rw [Lib.rounds, h, if_neg Bool.false_ne_true]

theorem rounds_next (h : cond s = true) (hb : body s = .next t) :
    rounds cond body (n + 1) s = s :: rounds cond body n t := by
  rw [Lib.rounds, if_pos h, hb]

theorem rounds_stop (h : cond s = true) (hb : body s = .stop t) : rounds cond body (n + 1) s = [s] := by
  rw [Lib.rounds, if_pos h, hb]

/-- Two conditions that agree under an invariant agree along the rounds, where each keeps it. -/
theorem rounds_iff (same : ∀ {s}, I s → cond s = true → (P s ↔ Q s))
    (next : ∀ {s t}, I s → cond s = true → P s → body s = .next t → cond t = true → I t)
    (i : cond s = true → I s) (n : Nat) :
    (∀ u ∈ rounds cond body n s, P u) ↔ ∀ u ∈ rounds cond body n s, Q u := by
  induction n generalizing s with
  | zero => exact ⟨fun _ _ h => absurd h List.not_mem_nil, fun _ _ h => absurd h List.not_mem_nil⟩
  | succ n ih =>
    cases hc : cond s with
    | false =>
      rw [rounds_exit _ hc]
      exact ⟨fun _ _ h => absurd h List.not_mem_nil, fun _ _ h => absurd h List.not_mem_nil⟩
    | true =>
      have here := same (i hc) hc
      cases hb : body s with
      | stop t =>
        rw [rounds_stop hc hb, List.forall_mem_singleton, List.forall_mem_singleton]
        exact here
      | next t =>
        rw [rounds_next hc hb, List.forall_mem_cons, List.forall_mem_cons]
        constructor
        · rintro ⟨p, ps⟩
          exact ⟨here.mp p, (ih (next (i hc) hc p hb)).mp ps⟩
        · rintro ⟨q, qs⟩
          exact ⟨here.mpr q, (ih (next (i hc) hc (here.mpr q) hb)).mpr qs⟩

/-- A loop all of whose rounds lower a variant ends. -/
theorem whileDo_ends (μ : σ → Nat)
    (lower : ∀ {s t}, cond s = true → P s → body s = .next t → μ t < μ s) (hn : μ s < n)
    (h : ∀ u ∈ rounds cond body n s, P u) : ∃ t, whileDo cond body n s = some t := by
  induction n generalizing s with
  | zero => exact absurd hn (Nat.not_lt_zero _)
  | succ n ih =>
    cases hc : cond s with
    | false => exact ⟨s, whileDo_exit _ hc⟩
    | true =>
      cases hb : body s with
      | stop t => exact ⟨t, whileDo_stop hc hb⟩
      | next t =>
        rw [rounds_next hc hb, List.forall_mem_cons] at h
        obtain ⟨u, hu⟩ := ih (Nat.lt_of_lt_of_le (lower hc h.1 hb) (Nat.le_of_lt_succ hn)) h.2
        exact ⟨u, (whileDo_next hc hb).trans hu⟩

end along

section bodies

variable {body' : σ → Round σ}

/-- Two bodies that agree along the rounds of one give the same loop. -/
theorem whileDo_congr (same : ∀ u ∈ rounds cond body' n s, body u = body' u) :
    whileDo cond body n s = whileDo cond body' n s := by
  induction n generalizing s with
  | zero => rfl
  | succ n ih =>
    cases hc : cond s with
    | false => rw [whileDo_exit _ hc, whileDo_exit _ hc]
    | true =>
      cases hb : body' s with
      | stop t =>
        rw [rounds_stop hc hb, List.forall_mem_singleton, hb] at same
        rw [whileDo_stop hc hb, whileDo_stop hc same]
      | next t =>
        rw [rounds_next hc hb, List.forall_mem_cons, hb] at same
        rw [whileDo_next hc hb, whileDo_next hc same.1]
        exact ih same.2

/-- Where two bodies do not agree along the rounds of one, the other's loop gets to where they part. -/
theorem whileDo_parts (n : Nat) (s : σ) :
    (∀ u ∈ rounds cond body' n s, body u = body' u) ∨
      ∃ u ∈ rounds cond body' n s, body u ≠ body' u ∧
        ∃ m, whileDo cond body n s = whileDo cond body m u := by
  induction n generalizing s with
  | zero => exact .inl fun _ h => absurd h List.not_mem_nil
  | succ n ih =>
    cases hc : cond s with
    | false =>
      rw [rounds_exit _ hc]
      exact .inl fun _ h => absurd h List.not_mem_nil
    | true =>
      by_cases here : body s = body' s
      · cases hb : body' s with
        | stop t =>
          rw [rounds_stop hc hb, List.forall_mem_singleton]
          exact .inl here
        | next t =>
          rw [rounds_next hc hb, whileDo_next hc (here.trans hb), List.forall_mem_cons]
          rcases ih t with same | ⟨u, hu, parts⟩
          · exact .inl ⟨here, same⟩
          · exact .inr ⟨u, List.mem_cons_of_mem _ hu, parts⟩
      · refine .inr ⟨s, ?_, here, n + 1, rfl⟩
        cases hb : body' s with
        | stop t => exact rounds_stop hc hb ▸ List.mem_singleton_self s
        | next t => exact rounds_next hc hb ▸ List.mem_cons_self

end bodies

end Lib
