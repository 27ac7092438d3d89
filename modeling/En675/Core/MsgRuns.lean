import Mathlib.Logic.Function.Iterate
import En675.Core.MsgHeld

/-! The runs of a message queue: its lock is a spin lock, and what it stores is a bounded FIFO. -/

universe u

namespace En675.Core

open Lib

namespace MsgQueue

variable {ι : Type u} [DecidableEq ι] {totNum : Nat} {s t : MsgQueue ι} {p : ι}

/-- The access to the lock that a step is. -/
def lockOp (s : MsgQueue ι) : Op ι → Option (LockOp ι)
  | .call _ _ => none
  | .run p => match s.pc p with
    | .test _ => some (.test p)
    | .set _ => some (.set p)
    | .unlock _ _ => some (.leave p)
    | _ => none

/-- No party passes its test of the lock while another has passed its own and not set the lock. -/
def Apart (s : MsgQueue ι) (op : Op ι) : Prop :=
  ∀ l, s.lockOp op = some l → s.spin.Apart l

theorem spin_eq {pc : MsgPc} (pcs : t.pc = Function.update s.pc p pc) :
    t.spin = ⟨t.lock, Function.update s.spin.phase p pc.phase⟩ := by
  change SpinLock.mk t.lock (fun q => (t.pc q).phase) = _
  rw [pcs]
  exact congrArg (SpinLock.mk t.lock) (Function.comp_update MsgPc.phase s.pc p pc)

theorem spin_same {pc : MsgPc} (pcs : t.pc = Function.update s.pc p pc) (lock : t.lock = s.lock)
    (phase : pc.phase = (s.pc p).phase) : t.spin = s.spin := by
  rw [spin_eq pcs, lock, phase]
  exact congrArg (SpinLock.mk s.lock) (Function.update_eq_self p s.spin.phase)

theorem spin_call (p : ι) (c : MsgCall) (idle : s.pc p = .idle) : (s.call p c).spin = s.spin := by
  have phase : (MsgPc.test c).phase = (s.pc p).phase := by
    rw [idle]
    rfl
  cases c with
  | put x => exact spin_same rfl rfl phase
  | get g => exact spin_same rfl rfl phase

theorem spin_step {mutex : Bool} {op : Op ι} (st : Step mutex s op t) :
    match s.lockOp op with
    | none => t.spin = s.spin
    | some l => SpinLock.Step mutex s.spin l t.spin := by
  cases st with
  | @call p c idle => exact spin_call p c idle
  | @run p busy =>
    have phase : s.spin.phase p = (s.pc p).phase := rfl
    simp only [lockOp, MsgQueue.run]
    cases h : s.pc p with
    | idle => exact absurd h busy
    | test c =>
      rw [h] at phase
      cases free : s.lock with
      | true => exact .spin phase free
      | false =>
        cases mutex with
        | true =>
          have lock : (s.acquire p c).spin = _ := spin_eq rfl
          simp only [Bool.false_eq_true, if_false, if_true, lock]
          exact .take phase free rfl
        | false =>
          have lock : (s.goto p (.set c)).spin = _ := spin_eq rfl
          simp only [Bool.false_eq_true, if_false, lock]
          exact free ▸ .pass phase free rfl
    | set c =>
      rw [h] at phase
      have lock : (s.acquire p c).spin = _ := spin_eq rfl
      simp only [lock]
      exact .set phase
    | unlock c ok =>
      rw [h] at phase
      have lock : ((s.release p c ok).goto p .idle).spin =
          ⟨false, Function.update s.spin.phase p MsgPc.idle.phase⟩ := by
        cases c <;> cases ok <;> exact spin_eq rfl
      simp only [lock]
      exact .leave phase
    | first | slot | load | wrap => exact spin_same rfl rfl (by rw [h]; rfl)
    | second c i =>
      refine spin_same rfl rfl ?_
      rw [h]
      split <;> rfl
    | field c i f =>
      refine spin_same rfl rfl ?_
      rw [h]
      cases f <;> rfl
    | store c i => cases c <;> exact spin_same rfl rfl (by rw [h]; rfl)
    | compare c =>
      refine spin_same rfl rfl ?_
      rw [h]
      split <;> rfl

/-- The lock of a message queue is a spin lock. -/
theorem reach_spin {mutex : Bool} {ok : MsgQueue ι → Op ι → Prop} {ok' : SpinLock ι → LockOp ι → Prop}
    (lock : ∀ s op l, ok s op → s.lockOp op = some l → ok' s.spin l)
    (h : Reach (runs mutex totNum) ok s) : Reach (SpinLock.spins mutex) ok' s.spin := by
  induction h with
  | init hi =>
    obtain ⟨data, getInfo, rfl⟩ := hi
    exact .init rfl
  | @step s op t _ hok hs ih =>
    have lockStep := spin_step hs
    cases hl : s.lockOp op with
    | none =>
      simp only [hl] at lockStep
      exact lockStep ▸ ih
    | some l =>
      simp only [hl] at lockStep
      exact ih.step (lock s op l hok hl) lockStep

theorem mutex_owned (h : Reach (runs true totNum) Lts.any s) : s.spin.Owned :=
  SpinLock.mutex_owned (reach_spin (fun _ _ _ _ _ => trivial) h)

theorem empty_wf (pos : 0 < totNum) (data : Nat → StreamInfo) : (empty totNum data).Wf := ⟨pos, pos⟩

theorem reach_sound {mutex : Bool} {ok : MsgQueue ι → Op ι → Prop} (pos : 0 < totNum)
    (owned : ∀ {s}, Reach (runs mutex totNum) ok s → s.spin.Owned)
    (h : Reach (runs mutex totNum) ok s) : Sound totNum s := by
  induction h with
  | init hi =>
    obtain ⟨data, getInfo, rfl⟩ := hi
    exact ⟨fun _ => ⟨empty_wf pos data, rfl, rfl, rfl, rfl⟩, nofun, nofun⟩
  | step before _ hs ih => exact ih.step (owned before) hs

section fifo

/-- A step of `p` changes nobody else's status. -/
theorem fifo_eq {pc : MsgPc} (pcs : t.pc = Function.update s.pc p pc)
    (infos : ∀ q, q ≠ p → t.getInfo q = s.getInfo q) :
    t.fifo = ⟨t.fifo.items, Function.update s.fifo.status p (pc.status (t.getInfo p))⟩ := by
  refine congrArg (FifoCalls.mk t.fifo.items) (funext fun q => ?_)
  by_cases e : q = p
  · subst e
    rw [Function.update_self, pcs, Function.update_self]
  · rw [Function.update_of_ne e, pcs, Function.update_of_ne e, infos q e]
    rfl

theorem fifo_same {pc : MsgPc} (pcs : t.pc = Function.update s.pc p pc)
    (infos : ∀ q, q ≠ p → t.getInfo q = s.getInfo q) (items : t.fifo.items = s.fifo.items)
    (status : pc.status (t.getInfo p) = (s.pc p).status (s.getInfo p)) : t.fifo = s.fifo := by
  rw [fifo_eq pcs infos, items, status]
  exact congrArg (FifoCalls.mk s.fifo.items) (Function.update_eq_self p s.fifo.status)

theorem Works.refused (w : Works totNum s p) {c : MsgCall} {i : Nat} (h : s.pc p = .second c i)
    (full : c.refuses s.found = true) :
    FifoCalls.Step (totNum - 1) s.fifo p (s.goto p (.unlock c false)).fifo := by
  have status : s.fifo.status p = .called c.op := congrArg (MsgPc.status (s.getInfo p)) h
  have items := w.items
  rw [h] at items
  have moved : (s.goto p (.unlock c false)).fifo =
      ⟨s.fifo.items, Function.update s.fifo.status p ((MsgPc.unlock c false).status (s.getInfo p))⟩ :=
    fifo_eq rfl (fun _ _ => rfl)
  rw [moved]
  cases c with
  | put x =>
    refine .full status ?_
    have length := (RingQueue.isFull_iff w.wf).mp full
    rw [w.totNum] at length
    rw [items]
    exact (RingQueue.length_toList s.found).trans (Nat.eq_sub_of_add_eq length)
  | get g => exact .empty status (items.trans ((RingQueue.isEmpty_iff w.wf).mp full))

theorem Works.accepted (w : Works totNum s p) (w' : Works totNum ((s.update p (i + 1) c).goto p (.compare c)) p)
    (copied : ∀ g, c = .get g → s.getInfo p = s.found.front) (h : s.pc p = .store c i) :
    FifoCalls.Step (totNum - 1) s.fifo p ((s.update p (i + 1) c).goto p (.compare c)).fifo := by
  have status : s.fifo.status p = .called c.op := congrArg (MsgPc.status (s.getInfo p)) h
  have items := w.items
  have items' := w'.items
  have knows := w.knows
  rw [h] at items knows
  rw [pc_goto] at items'
  obtain ⟨accepted, _⟩ := knows
  cases c with
  | put x =>
    rw [fifo_eq (s := s) (p := p) (t := (s.update p (i + 1) (.put x)).goto p (.compare (.put x))) rfl
      (fun _ _ => rfl)]
    have appended : ((s.update p (i + 1) (.put x)).goto p (.compare (.put x))).fifo.items = s.fifo.items ++ [x.info] := by
      rw [items, items']
      exact MsgCall.toList_done w.wf x accepted
    rw [appended]
    refine .put status ?_
    have length := mt (RingQueue.isFull_iff w.wf).mpr (Bool.eq_false_iff.mp accepted)
    have lt := RingQueue.length_lt w.wf
    rw [w.totNum] at length lt
    rw [items]
    have room : s.found.length < totNum - 1 := by omega
    exact (RingQueue.length_toList s.found).trans_lt room
  | get g =>
    rw [fifo_eq (s := s) (p := p) (t := (s.update p (i + 1) (.get g)).goto p (.compare (.get g))) rfl
      (fun _ _ => rfl)]
    refine .get status ?_
    rw [items, items']
    change s.found.toList = s.getInfo p :: _
    rw [copied g rfl]
    exact MsgCall.toList_taken w.wf g accepted

theorem fifo_call (s : MsgQueue ι) (p : ι) (c : MsgCall) :
    (s.call p c).fifo = ⟨s.fifo.items, Function.update s.fifo.status p (.called c.op)⟩ := by
  have pcs : (s.call p c).pc = Function.update s.pc p (.test c) := by
    cases c <;> rfl
  have infos : ∀ q, q ≠ p → (s.call p c).getInfo q = s.getInfo q := by
    intro q e
    cases c with
    | put x => rfl
    | get g => exact Function.update_of_ne e _ _
  have items : (s.call p c).fifo.items = s.fifo.items := by
    cases c <;> rfl
  rw [fifo_eq pcs infos, items]
  rfl

theorem fifo_release (s : MsgQueue ι) (p : ι) (c : MsgCall) (ok : Bool) :
    ((s.release p c ok).goto p .idle).fifo = ⟨s.fifo.items, Function.update s.fifo.status p .idle⟩ := by
  have pcs : ((s.release p c ok).goto p .idle).pc = Function.update s.pc p .idle := by
    change Function.update (s.release p c ok).pc p .idle = _
    rw [pc_release]
  have items : ((s.release p c ok).goto p .idle).fifo.items = s.fifo.items := by
    change ((s.release p c ok).puts.map MsgArgs.info).drop (s.release p c ok).taken.length = _
    rw [puts_release, taken_release]
    rfl
  rw [fifo_eq pcs (fun q _ => congrFun (getInfo_release s p c ok) q), items]
  rfl

/-- Every access is at most one step of the FIFO. -/
theorem Sound.fifo_step {mutex : Bool} {op : Op ι} (snd : Sound totNum s) (snd' : Sound totNum t)
    (st : Step mutex s op t) : Steps (FifoCalls.calls (totNum - 1)) Lts.any s.fifo t.fifo := by
  have stutter : ∀ {u : MsgQueue ι}, u.fifo = s.fifo →
      Steps (FifoCalls.calls (totNum - 1)) Lts.any s.fifo u.fifo := fun h => h ▸ .refl
  cases st with
  | @call p c idle =>
    have status : s.fifo.status p = .idle := congrArg (MsgPc.status (s.getInfo p)) idle
    refine .single (l := p) trivial ?_
    rw [fifo_call]
    exact .call c.op status
  | @run p busy =>
    cases h : s.pc p with
    | idle => exact absurd h busy
    | test c =>
      simp only [MsgQueue.run, h]
      split
      · exact .refl
      · split
        · exact stutter (fifo_same rfl (fun _ _ => rfl) rfl (by rw [h]; rfl))
        · exact stutter (fifo_same rfl (fun _ _ => rfl) rfl (by rw [h]; rfl))
    | set | first | slot | load =>
      simp only [MsgQueue.run, h]
      exact stutter (fifo_same rfl (fun _ _ => rfl) rfl (by rw [h]; rfl))
    | second c i =>
      have w := snd.works p (by rw [h]; rfl)
      have mem := w.memory
      have knows := w.knows
      rw [h] at mem knows
      have known : c.refused s.queue.totNum i (c.other s.queue) = c.refuses s.found := by
        rw [mem, knows]
        rfl
      simp only [MsgQueue.run, h, known]
      cases full : c.refuses s.found with
      | true => exact .single (l := p) trivial (w.refused h full)
      | false => exact stutter (fifo_same rfl (fun _ _ => rfl) rfl (by rw [h]; rfl))
    | field c i f =>
      simp only [MsgQueue.run, h]
      refine stutter (fifo_same rfl (fun q e => Function.update_of_ne e _ _) rfl ?_)
      rw [h]
      cases f <;> rfl
    | store c i =>
      have w := snd.works p (by rw [h]; rfl)
      have copied := snd.copied p
      simp only [MsgQueue.run, h] at snd' ⊢
      rw [h] at copied
      have w' := snd'.works p (by rw [pc_goto]; rfl)
      exact .single (l := p) trivial (w.accepted w' (fun g e => copied g (congrArg some e)) h)
    | compare c =>
      simp only [MsgQueue.run, h]
      refine stutter (fifo_same rfl (fun _ _ => rfl) rfl ?_)
      rw [h]
      split <;> cases c <;> rfl
    | wrap c =>
      simp only [MsgQueue.run, h]
      refine stutter (fifo_same rfl (fun _ _ => rfl) rfl ?_)
      rw [h]
      cases c <;> rfl
    | unlock c ok =>
      simp only [MsgQueue.run, h]
      have status : s.fifo.status p = (MsgPc.unlock c ok).status (s.getInfo p) :=
        congrArg (MsgPc.status (s.getInfo p)) h
      refine .single (l := p) trivial ?_
      rw [fifo_release]
      cases c with
      | put x => exact .put_returns status
      | get g => exact .get_returns status

theorem reach_fifo {mutex : Bool} {ok : MsgQueue ι → Op ι → Prop} (pos : 0 < totNum)
    (owned : ∀ {s}, Reach (runs mutex totNum) ok s → s.spin.Owned)
    (h : Reach (runs mutex totNum) ok s) : Reach (FifoCalls.calls (totNum - 1)) Lts.any s.fifo := by
  induction h with
  | init hi =>
    obtain ⟨data, getInfo, rfl⟩ := hi
    exact .init rfl
  | step before hok hs ih =>
    exact ih.steps ((reach_sound pos owned before).fifo_step (reach_sound pos owned (before.step hok hs)) hs)

end fifo

section solo

variable {mutex : Bool} {ok : MsgQueue ι → Op ι → Prop}

theorem reach_call (h : Reach (runs mutex totNum) ok s) (p : ι) (c : MsgCall) (idle : s.pc p = .idle)
    (allowed : ok s (.call p c)) : Reach (runs mutex totNum) ok (s.call p c) :=
  h.step allowed (.call idle)

theorem reach_run (h : Reach (runs mutex totNum) ok s) (p : ι) (busy : s.pc p ≠ .idle)
    (allowed : ok s (.run p)) : Reach (runs mutex totNum) ok (s.run mutex p) :=
  h.step allowed (.run busy)

theorem pc_run_of_ne (s : MsgQueue ι) {p q : ι} (h : q ≠ p) :
    (s.run mutex p).pc q = s.pc q := by
  unfold MsgQueue.run
  cases s.pc p with
  | idle => rfl
  | test c =>
    simp only
    split
    · rfl
    · split
      · exact Function.update_of_ne h _ _
      · exact Function.update_of_ne h _ _
  | set | first | second | slot | field | load | compare | wrap => exact Function.update_of_ne h _ _
  | store c i => cases c <;> exact Function.update_of_ne h _ _
  | unlock c ok =>
    change Function.update (s.release p c ok).pc p .idle q = s.pc q
    rw [Function.update_of_ne h, pc_release]

theorem apart_of_idle (alone : ∀ q, q ≠ p → s.pc q = .idle) : Apart s (.run p) := by
  intro l hl
  cases l with
  | set | leave => trivial
  | test p' =>
    intro _ q
    change (s.pc q).phase ≠ .passed
    by_cases e : q = p
    · subst e
      simp only [lockOp] at hl
      cases h : s.pc q <;> simp only [h] at hl <;> cases hl
      exact nofun
    · rw [alone q e]
      exact nofun

/-- `n` accesses of a party, while the others are idle. -/
theorem steps_solo (n : Nat) (alone : ∀ q, q ≠ p → s.pc q = .idle)
    (busy : ∀ k < n, ((fun t : MsgQueue ι => t.run mutex p)^[k] s).pc p ≠ .idle) :
    Steps (runs mutex totNum) Apart s ((fun t : MsgQueue ι => t.run mutex p)^[n] s) := by
  induction n generalizing s with
  | zero => exact .refl
  | succ n ih =>
    rw [Function.iterate_succ_apply]
    refine .cons (apart_of_idle alone) (.run (busy 0 (Nat.succ_pos n))) (ih (fun q e => ?_) fun k hk => ?_)
    · rw [pc_run_of_ne s e]
      exact alone q e
    · rw [← Function.iterate_succ_apply]
      exact busy (k + 1) (Nat.succ_lt_succ hk)

/-- A call of `p` from its first access to its return. -/
def alone (mutex : Bool) (n : Nat) (s : MsgQueue ι) (p : ι) (c : MsgCall) : MsgQueue ι :=
  (fun t : MsgQueue ι => t.run mutex p)^[n] (s.call p c)

theorem reach_alone {c : MsgCall} {n : Nat} (h : Reach (runs mutex totNum) Apart s)
    (idle : ∀ q, s.pc q = .idle)
    (busy : ∀ k < n, ((fun t : MsgQueue ι => t.run mutex p)^[k] (s.call p c)).pc p ≠ .idle) :
    Reach (runs mutex totNum) Apart (s.alone mutex n p c) := by
  have called : Reach (runs mutex totNum) Apart (s.call p c) :=
    reach_call h p c (idle p) fun _ hl => by cases hl
  refine called.steps (steps_solo n (fun q e => ?_) busy)
  cases c <;> exact (Function.update_of_ne e _ _).trans (idle q)

end solo

end MsgQueue

end En675.Core
