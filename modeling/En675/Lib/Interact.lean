import En675.Lib.Transition

/-! Programs that call on an environment, and monitors of their calls.  A program is the tree
of what it does with every answer; a run of it lists its calls with the answers it got. -/

universe u v w

namespace Lib

/-- `stuck` has no run. -/
inductive Prog (C : Type u) (R : C → Type v) (α : Type v)
  | ret (a : α)
  | call (c : C) (k : R c → Prog C R α)
  | stuck

namespace Prog

variable {C : Type u} {R : C → Type v} {α β : Type v}

def bind : Prog C R α → (α → Prog C R β) → Prog C R β
  | ret a, f => f a
  | call c k, f => call c fun r => (k r).bind f
  | stuck, _ => stuck

instance : Monad (Prog C R) where
  pure := ret
  bind := bind

def ask (c : C) : Prog C R (R c) := call c ret

inductive Runs : Prog C R α → List (Sigma R) → α → Prop
  | ret : Runs (ret a) [] a
  | call {k : R c → Prog C R α} {r : R c} : Runs (k r) tr a → Runs (call c k) (⟨c, r⟩ :: tr) a

section replay

variable [DecidableEq C]

/-- The result of a program that makes the calls of a list and gets its answers. -/
def replay : Prog C R α → List (Sigma R) → Option α
  | ret a, [] => some a
  | ret _, _ :: _ => none
  | call c k, e :: tr => if h : e.1 = c then (k (h ▸ e.2)).replay tr else none
  | call _ _, [] => none
  | stuck, _ => none

theorem runs_of_replay (p : Prog C R α) (h : p.replay tr = some a) : p.Runs tr a := by
  induction p generalizing tr with
  | ret b =>
    cases tr with
    | nil =>
      cases h
      exact .ret
    | cons e tr => cases h
  | call c k ih =>
    cases tr with
    | nil => cases h
    | cons e tr =>
      obtain ⟨c', r⟩ := e
      simp only [replay] at h
      split at h
      · rename_i same
        subst same
        exact .call (ih r h)
      · cases h
  | stuck => cases h

end replay

section watch

variable {σ : Type w} (next : σ → Sigma R → Option σ) (allowed : σ → Sigma R → Prop)

/-- A monitor follows a list of calls; `none` is a call out of order. -/
def watch : σ → List (Sigma R) → Option σ
  | s, [] => some s
  | s, e :: tr => (next s e).bind fun t => watch t tr

/-- The answers are `allowed` as long as the calls are in order. -/
def Answers : σ → List (Sigma R) → Prop
  | _, [] => True
  | s, e :: tr => allowed s e ∧ ∀ t, next s e = some t → Answers t tr

theorem answers_true (s : σ) (tr : List (Sigma R)) : Answers next (fun _ _ => True) s tr := by
  induction tr generalizing s with
  | nil => trivial
  | cons e tr ih => exact ⟨trivial, fun t _ => ih t⟩

instance decidableAnswers [∀ s e, Decidable (allowed s e)] (s : σ) (tr : List (Sigma R)) :
    Decidable (Answers next allowed s tr) :=
  match tr with
  | [] => isTrue trivial
  | e :: tr =>
    match h : next s e with
    | none => decidable_of_iff (allowed s e) (by simp [Answers, h])
    | some t =>
      have := decidableAnswers t tr
      decidable_of_iff (allowed s e ∧ Answers next allowed t tr) (by simp [Answers, h])

/-- Whatever is answered, the calls of the program are in order, and what it returns and where
they leave the monitor satisfies `post`. -/
def Meets : Prog C R α → σ → (α → σ → Prop) → Prop
  | ret a, s, post => post a s
  | call c k, s, post =>
    ∀ r, allowed s ⟨c, r⟩ → ∃ t, next s ⟨c, r⟩ = some t ∧ Meets (k r) t post
  | stuck, _, _ => True

variable {next allowed}

theorem watch_append (s : σ) (tr tr' : List (Sigma R)) :
    watch next s (tr ++ tr') = (watch next s tr).bind fun t => watch next t tr' := by
  induction tr generalizing s with
  | nil => rfl
  | cons e tr ih =>
    simp only [List.cons_append, watch]
    cases next s e with
    | none => rfl
    | some t => exact ih t

@[simp] theorem meets_pure (a : α) (s : σ) (post : α → σ → Prop) :
    Meets next allowed (pure a) s post ↔ post a s := Iff.rfl

@[simp] theorem meets_ask (c : C) (s : σ) (post : R c → σ → Prop) :
    Meets next allowed (ask c) s post ↔
      ∀ r, allowed s ⟨c, r⟩ → ∃ t, next s ⟨c, r⟩ = some t ∧ post r t := Iff.rfl

@[simp] theorem meets_bind (p : Prog C R α) (f : α → Prog C R β) (s : σ) (post : β → σ → Prop) :
    Meets next allowed (p >>= f) s post ↔
      Meets next allowed p s fun a t => Meets next allowed (f a) t post := by
  induction p generalizing s with
  | ret a => exact Iff.rfl
  | call c k ih =>
    apply forall_congr'
    intro r
    apply imp_congr_right
    intro _
    apply exists_congr
    intro t
    apply and_congr_right
    intro _
    exact ih r t
  | stuck => exact Iff.rfl

theorem Meets.mono {p : Prog C R α} {s : σ} {post post' : α → σ → Prop}
    (h : Meets next allowed p s post) (le : ∀ a t, post a t → post' a t) :
    Meets next allowed p s post' := by
  induction p generalizing s with
  | ret a => exact le a s h
  | call c k ih =>
    intro r ok
    obtain ⟨t, ht, rest⟩ := h r ok
    exact ⟨t, ht, ih r rest⟩
  | stuck => trivial

theorem Meets.runs {p : Prog C R α} {s : σ} {post : α → σ → Prop}
    (h : Meets next allowed p s post) (run : p.Runs tr a) (ok : Answers next allowed s tr) :
    ∃ t, watch next s tr = some t ∧ post a t := by
  induction run generalizing s with
  | ret => exact ⟨s, rfl, h⟩
  | call _ ih =>
    obtain ⟨t, ht, rest⟩ := h _ ok.1
    obtain ⟨u, hu, done⟩ := ih rest (ok.2 t ht)
    exact ⟨u, by simp only [watch, ht, Option.bind_some, hu], done⟩

end watch

end Prog

/-- A state reached, and all calls made on the way. -/
structure Session {C : Type u} (R : C → Type v) (S : Type v) where
  state : S
  calls : List (Sigma R)

namespace Session

open Prog

variable {C : Type u} {R : C → Type v} {S : Type v} {L : Type w} {σ : Type w}

/-- The turns of the system are programs; a label is an event with the calls its turn makes. -/
def system (init : S → Prop) (turn : S → L → Prog C R S) : Lts (Session R S) (L × List (Sigma R)) where
  init x := init x.state ∧ x.calls = []
  step x l y := (turn x.state l.1).Runs l.2 y.state ∧ y.calls = x.calls ++ l.2

/-- The event is one of `cond`, and the answers are `allowed`. -/
def Ok (cond : S → L → Prop) (next : σ → Sigma R → Option σ) (allowed : S → L → σ → Sigma R → Prop)
    (start : σ)
    (x : Session R S) (l : L × List (Sigma R)) : Prop :=
  cond x.state l.1 ∧ ∀ s, watch next start x.calls = some s → Answers next (allowed x.state l.1) s l.2

/-- An invariant that relates the state to the monitor's, and that every turn keeps. -/
theorem reach {init : S → Prop} {turn : S → L → Prog C R S} {cond : S → L → Prop}
    {next : σ → Sigma R → Option σ} {allowed : S → L → σ → Sigma R → Prop} {start : σ} {I : S → σ → Prop}
    (first : ∀ s, init s → I s start)
    (step : ∀ s l t, I s t → cond s l → Meets next (allowed s l) (turn s l) t I)
    (h : Reach (system init turn) (Ok cond next allowed start) x) :
    ∃ t, watch next start x.calls = some t ∧ I x.state t := by
  have keeps : (system init turn).Inductive (Ok cond next allowed start) fun x =>
      ∃ t, watch next start x.calls = some t ∧ I x.state t :=
    { init := fun hi => ⟨start, by rw [hi.2]; rfl, first _ hi.1⟩
      step := by
        rintro x l y ⟨t, ht, i⟩ ⟨hc, ok⟩ ⟨run, calls⟩
        obtain ⟨u, hu, iu⟩ := (step x.state l.1 t i hc).runs run (ok t ht)
        exact ⟨u, by rw [calls, watch_append, ht, Option.bind_some, hu], iu⟩ }
  exact keeps.reach h

section play

instance decidableAny (s : S) (l : L) : Decidable (Lts.any s l) := isTrue trivial

instance decidableOk {cond : S → L → Prop} {next : σ → Sigma R → Option σ}
    {allowed : S → L → σ → Sigma R → Prop} {start : σ} [∀ s l, Decidable (cond s l)]
    [∀ s l t e, Decidable (allowed s l t e)] (x : Session R S) (l : L × List (Sigma R)) :
    Decidable (Ok cond next allowed start x l) :=
  match h : watch next start x.calls with
  | none => decidable_of_iff (cond x.state l.1) (by simp [Ok, h])
  | some s =>
    decidable_of_iff (cond x.state l.1 ∧ Answers next (allowed x.state l.1) s l.2) (by simp [Ok, h])

variable [DecidableEq C]

/-- The session after a list of steps, all of which are `ok`. -/
def play (ok : Session R S → L × List (Sigma R) → Prop) [∀ x l, Decidable (ok x l)]
    (turn : S → L → Prog C R S) : Session R S → List (L × List (Sigma R)) → Option (Session R S)
  | x, [] => some x
  | x, l :: ls =>
    if ok x l then
      ((turn x.state l.1).replay l.2).bind fun s => play ok turn ⟨s, x.calls ++ l.2⟩ ls
    else none

theorem reach_play {init : S → Prop} {ok : Session R S → L × List (Sigma R) → Prop}
    [∀ x l, Decidable (ok x l)] {turn : S → L → Prog C R S} {ls : List (L × List (Sigma R))}
    (r : Reach (system init turn) ok x) (h : play ok turn x ls = some y) :
    Reach (system init turn) ok y := by
  induction ls generalizing x with
  | nil =>
    cases h
    exact r
  | cons l ls ih =>
    simp only [play] at h
    split at h
    · rename_i hok
      cases hr : (turn x.state l.1).replay l.2 with
      | none =>
        rw [hr] at h
        cases h
      | some s =>
        rw [hr] at h
        have stepped : (system init turn).step x l ⟨s, x.calls ++ l.2⟩ := ⟨runs_of_replay _ hr, rfl⟩
        exact ih (r.step hok stepped) h
    · cases h

theorem exists_play {init : S → Prop} (ok : Session R S → L × List (Sigma R) → Prop)
    [∀ x l, Decidable (ok x l)] {turn : S → L → Prog C R S} (r : Reach (system init turn) ok x)
    (ls : List (L × List (Sigma R))) (p : Session R S → Bool) (h : (play ok turn x ls).any p = true) :
    ∃ y, Reach (system init turn) ok y ∧ p y = true := by
  cases hp : play ok turn x ls with
  | none =>
    rw [hp] at h
    cases h
  | some y =>
    rw [hp] at h
    exact ⟨y, reach_play r hp, h⟩

end play

end Session

end Lib
