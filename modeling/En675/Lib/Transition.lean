/-! Labelled transition systems.  `Reach M ok s` is reachability along runs whose
every step satisfies `ok`; with `ok` trivial it is plain reachability. -/

universe u v

namespace Lib

structure Lts (S : Type u) (L : Type v) where
  init : S → Prop
  step : S → L → S → Prop

variable {S : Type u} {L : Type v}

inductive Reach (M : Lts S L) (ok : S → L → Prop) : S → Prop
  | init : M.init s → Reach M ok s
  | step : Reach M ok s → ok s l → M.step s l t → Reach M ok t

namespace Lts

/-- Every step is acceptable. -/
def any : S → L → Prop := fun _ _ => True

/-- `I` is inductive relative to `ok`: the one obligation an invariant leaves. -/
structure Inductive (M : Lts S L) (ok : S → L → Prop) (I : S → Prop) : Prop where
  init : ∀ {s}, M.init s → I s
  step : ∀ {s l t}, I s → ok s l → M.step s l t → I t

theorem Inductive.reach {M : Lts S L} {ok : S → L → Prop} {I : S → Prop}
    (h : M.Inductive ok I) (r : Reach M ok s) : I s := by
  induction r with
  | init hi => exact h.init hi
  | step _ hok hs ih => exact h.step ih hok hs

/-- A step invariant may rely on an invariant already established. -/
theorem Inductive.reach_of {M : Lts S L} {ok : S → L → Prop} {I J : S → Prop}
    (hJ : M.Inductive ok J)
    (init : ∀ {s}, M.init s → I s)
    (step : ∀ {s l t}, J s → I s → ok s l → M.step s l t → I t)
    (r : Reach M ok s) : I s := by
  have both : M.Inductive ok (fun s => J s ∧ I s) :=
    { init := fun hi => ⟨hJ.init hi, init hi⟩
      step := fun h hok hs => ⟨hJ.step h.1 hok hs, step h.1 h.2 hok hs⟩ }
  exact (both.reach r).2

end Lts

theorem Reach.mono {M : Lts S L} {ok ok' : S → L → Prop} (h : ∀ s l, ok s l → ok' s l)
    (r : Reach M ok s) : Reach M ok' s := by
  induction r with
  | init hi => exact .init hi
  | step _ hok hs ih => exact .step ih (h _ _ hok) hs

/-- Finite runs of steps satisfying `ok`, from any state. -/
inductive Steps (M : Lts S L) (ok : S → L → Prop) : S → S → Prop
  | refl : Steps M ok s s
  | cons : ok s l → M.step s l t → Steps M ok t u → Steps M ok s u

theorem Steps.trans {M : Lts S L} {ok : S → L → Prop}
    (h : Steps M ok s t) (k : Steps M ok t u) : Steps M ok s u := by
  induction h with
  | refl => exact k
  | cons hok hs _ ih => exact .cons hok hs (ih k)

theorem Steps.single {M : Lts S L} {ok : S → L → Prop}
    (hok : ok s l) (hs : M.step s l t) : Steps M ok s t :=
  .cons hok hs .refl

theorem Steps.mono {M : Lts S L} {ok ok' : S → L → Prop} (h : ∀ s l, ok s l → ok' s l)
    (k : Steps M ok s t) : Steps M ok' s t := by
  induction k with
  | refl => exact .refl
  | cons hok hs _ ih => exact .cons (h _ _ hok) hs ih

theorem Reach.steps {M : Lts S L} {ok : S → L → Prop}
    (r : Reach M ok s) (h : Steps M ok s t) : Reach M ok t := by
  induction h with
  | refl => exact r
  | cons hok hs _ ih => exact ih (.step r hok hs)

section function

variable {M : Lts S L} {ok : S → L → Prop} {f : S → L → S}

/-- Every label of the list is acceptable where `f` arrives at it. -/
def Allowed (ok : S → L → Prop) (f : S → L → S) : S → List L → Prop
  | _, [] => True
  | s, l :: ls => ok s l ∧ Allowed ok f (f s l) ls

theorem allowed_any (s : S) (ls : List L) : Allowed Lts.any f s ls := by
  induction ls generalizing s with
  | nil => trivial
  | cons l ls ih => exact ⟨trivial, ih _⟩

/-- Two conditions on steps that agree under an invariant allow the same runs, where a step that is allowed keeps
it. -/
theorem allowed_iff {ok' : S → L → Prop} {valid : L → Prop} {I : S → Prop}
    (same : ∀ s l, I s → valid l → (ok s l ↔ ok' s l)) (next : ∀ s l, I s → valid l → ok' s l → I (f s l))
    (i : I s) {ls : List L} (hv : ∀ l ∈ ls, valid l) : Allowed ok f s ls ↔ Allowed ok' f s ls := by
  induction ls generalizing s with
  | nil => exact Iff.rfl
  | cons l ls ih =>
    have vl := hv l List.mem_cons_self
    have here := same s l i vl
    have rest : ok' s l → (Allowed ok f (f s l) ls ↔ Allowed ok' f (f s l) ls) := fun h =>
      ih (next s l i vl h) fun l hl => hv l (List.mem_cons_of_mem _ hl)
    constructor
    · rintro ⟨h, a⟩
      exact ⟨here.mp h, (rest (here.mp h)).mp a⟩
    · rintro ⟨h, a⟩
      exact ⟨here.mpr h, (rest h).mpr a⟩

/-- Runs of a system whose steps are those of a function. -/
theorem Reach.foldl (steps : ∀ s l, M.step s l (f s l)) (r : Reach M ok s) {ls : List L}
    (allowed : Allowed ok f s ls) : Reach M ok (ls.foldl f s) := by
  induction ls generalizing s with
  | nil => exact r
  | cons l ls ih => exact ih (r.step allowed.1 (steps s l)) allowed.2

/-- The same for a function that may not step. -/
def Admitted (ok : S → L → Prop) (f : S → L → Option S) : S → List L → Prop
  | _, [] => True
  | s, l :: ls => ok s l ∧ ∀ t, f s l = some t → Admitted ok f t ls

theorem Admitted.next {f : S → L → Option S} {ls : List L} (hok : ok s l) (hf : f s l = some t)
    (rest : Admitted ok f t ls) : Admitted ok f s (l :: ls) :=
  ⟨hok, fun _ hu => Option.some.inj (hf.symm.trans hu) ▸ rest⟩

/-- A condition on steps may be exchanged for what it gives under an invariant that the steps keep. -/
theorem Admitted.imp {ok' : S → L → Prop} {I : S → Prop} {f : S → L → Option S}
    (step : ∀ s l, I s → ok s l → ok' s l) (next : ∀ s l t, I s → ok s l → f s l = some t → I t) (i : I s)
    {ls : List L} (h : Admitted ok f s ls) : Admitted ok' f s ls := by
  induction ls generalizing s with
  | nil => trivial
  | cons l ls ih => exact ⟨step s l i h.1, fun t ht => ih (next s l t i h.1 ht) (h.2 t ht)⟩

theorem admitted_any (f : S → L → Option S) (s : S) (ls : List L) : Admitted Lts.any f s ls := by
  induction ls generalizing s with
  | nil => trivial
  | cons l ls ih => exact ⟨trivial, fun t _ => ih t⟩

/-- Of a given run it can be computed. -/
instance Admitted.decidable [∀ s l, Decidable (ok s l)] (f : S → L → Option S) :
    (s : S) → (ls : List L) → Decidable (Admitted ok f s ls)
  | _, [] => .isTrue trivial
  | s, l :: ls =>
    match h : f s l with
    | none => decidable_of_iff (ok s l) ⟨fun hok => ⟨hok, fun _ ht => nomatch h.symm.trans ht⟩, And.left⟩
    | some t =>
      have := Admitted.decidable f t ls
      decidable_of_iff (ok s l ∧ Admitted ok f t ls)
        ⟨fun both => .next both.1 h both.2, fun admitted => ⟨admitted.1, admitted.2 t h⟩⟩

theorem Reach.foldlM {f : S → L → Option S} (steps : ∀ {s l t}, f s l = some t → M.step s l t)
    (r : Reach M ok s) {ls : List L} (admitted : Admitted ok f s ls) (h : ls.foldlM f s = some t) :
    Reach M ok t := by
  induction ls generalizing s with
  | nil =>
    obtain rfl := Option.some.inj h
    exact r
  | cons l ls ih =>
    rw [List.foldlM_cons, Option.bind_eq_bind, Option.bind_eq_some_iff] at h
    obtain ⟨u, hu, h⟩ := h
    exact ih (r.step admitted.1 (steps hu)) (admitted.2 u hu) h

end function

/-- `abs` maps the reachable states of `M` to reachable states of `N`, given that every
step of `M` is matched by a run of `N`. -/
theorem Reach.refine {T : Type u} {K : Type v} {M : Lts S L} {ok : S → L → Prop} {N : Lts T K}
    {ok' : T → K → Prop} {J : S → Prop} {abs : S → T} (hJ : M.Inductive ok J)
    (init : ∀ {s}, M.init s → N.init (abs s))
    (step : ∀ {s l t}, J s → Reach N ok' (abs s) → ok s l → M.step s l t →
      Steps N ok' (abs s) (abs t))
    (r : Reach M ok s) : Reach N ok' (abs s) := by
  induction r with
  | init hi => exact .init (init hi)
  | step r hok hs ih => exact ih.steps (step (hJ.reach r) ih hok hs)

theorem Steps.refine {T : Type u} {K : Type v} {M : Lts S L} {ok : S → L → Prop} {N : Lts T K}
    {ok' : T → K → Prop} {J : S → Prop} {abs : S → T} (hJ : M.Inductive ok J)
    (step : ∀ {s l t}, J s → Reach N ok' (abs s) → ok s l → M.step s l t →
      Steps N ok' (abs s) (abs t))
    (h : Steps M ok s t) (j : J s) (r : Reach N ok' (abs s)) :
    Steps N ok' (abs s) (abs t) := by
  induction h with
  | refl => exact .refl
  | cons hok hs _ ih =>
    have head := step j r hok hs
    exact head.trans (ih (hJ.step j hok hs) (r.steps head))

theorem Steps.inductive {M : Lts S L} {ok : S → L → Prop} {I : S → Prop}
    (step : ∀ {s l t}, I s → ok s l → M.step s l t → I t)
    (h : Steps M ok s t) (i : I s) : I t := by
  induction h with
  | refl => exact i
  | cons hok hs _ ih => exact ih (step i hok hs)

section fair

variable {M : Lts S L} {ok acts : S → L → Prop} {goal : S → Prop}

/-- Runs that have not met `goal` before their end, with the number of their steps that are
`acts`. -/
inductive Unmet (M : Lts S L) (ok acts : S → L → Prop) (goal : S → Prop) (s : S) : Nat → S → Prop
  | refl : Unmet M ok acts goal s 0 s
  | act : Unmet M ok acts goal s n t → ¬ goal t → ok t l → acts t l → M.step t l u →
      Unmet M ok acts goal s (n + 1) u
  | other : Unmet M ok acts goal s n t → ¬ goal t → ok t l → ¬ acts t l → M.step t l u →
      Unmet M ok acts goal s n u

/-- `goal` is met before the `n`th of the steps that are `acts`, whatever comes between them, and
until then there is one that can be taken. -/
structure LeadsTo (M : Lts S L) (ok acts : S → L → Prop) (goal : S → Prop) (n : Nat) (s : S) : Prop where
  met : ∀ {k t}, Unmet M ok acts goal s k t → n ≤ k → goal t
  enabled : ∀ {k t}, Unmet M ok acts goal s k t → ¬ goal t → ∃ l u, ok t l ∧ acts t l ∧ M.step t l u

/-- A rank that no step raises and that the steps that are `acts` lower. -/
structure Ranks (M : Lts S L) (ok acts : S → L → Prop) (goal I : S → Prop) (μ : S → Nat) : Prop where
  step : ∀ {s l t}, I s → ¬ goal s → ok s l → M.step s l t →
    goal t ∨ I t ∧ μ t ≤ μ s ∧ (acts s l → μ t < μ s)
  enabled : ∀ {s}, I s → ¬ goal s → ∃ l t, ok s l ∧ acts s l ∧ M.step s l t

theorem Ranks.unmet (h : Ranks M ok acts goal I μ) (i : I s) (u : Unmet M ok acts goal s k t)
    (open_ : ¬ goal t) : I t ∧ k + μ t ≤ μ s := by
  induction u with
  | refl => exact ⟨i, Nat.le_of_eq (Nat.zero_add _)⟩
  | act _ hg hok ha hs ih =>
    obtain ⟨it, le⟩ := ih hg
    obtain ⟨iu, _, lt⟩ := (h.step it hg hok hs).resolve_left open_
    have lt := lt ha
    exact ⟨iu, by omega⟩
  | other _ hg hok _ hs ih =>
    obtain ⟨it, le⟩ := ih hg
    obtain ⟨iu, le', _⟩ := (h.step it hg hok hs).resolve_left open_
    exact ⟨iu, by omega⟩

theorem Ranks.leadsTo (h : Ranks M ok acts goal I μ) (i : I s) (hn : μ s < n) :
    LeadsTo M ok acts goal n s where
  met u le := Classical.byContradiction fun open_ => by
    have bound := (h.unmet i u open_).2
    omega
  enabled u open_ := h.enabled (h.unmet i u open_).1 open_

end fair

/-- A measure that some step always lowers leads every state to a goal. -/
theorem Steps.exists_goal {M : Lts S L} {ok : S → L → Prop} {J goal : S → Prop} (μ : S → Nat)
    (progress : ∀ s, J s → ¬ goal s → ∃ l t, ok s l ∧ M.step s l t ∧ J t ∧ μ t < μ s)
    (s : S) (j : J s) : ∃ t, Steps M ok s t ∧ J t ∧ goal t := by
  induction h : μ s using Nat.strongRecOn generalizing s with
  | ind n ih =>
    by_cases g : goal s
    · exact ⟨s, .refl, j, g⟩
    · obtain ⟨l, t, hok, hs, jt, lt⟩ := progress s j g
      obtain ⟨u, hu, ju, gu⟩ := ih (μ t) (h ▸ lt) t jt rfl
      exact ⟨u, .cons hok hs hu, ju, gu⟩

end Lib
