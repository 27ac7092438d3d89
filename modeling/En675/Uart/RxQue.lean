import En675.Lib.Ring
import En675.Lib.Transition

/-! The receive ring of the serial port (`uart_string.c`, `uart_string.h`): its interrupt handler runs
between any two accesses of the dequeue in `Comm`. -/

namespace En675.Uart

open Lib

def uartBufSize : Nat := 128

/-- The receiving half of `TUartQue`; the pointers are offsets into `bRxQue`. -/
structure UartQue where
  wRxLen : Nat
  pbRxHead : Nat
  pbRxTail : Nat
  bRxQue : Nat → UInt8

def uartRstRxQue (q : UartQue) : UartQue := { q with wRxLen := 0, pbRxHead := 0, pbRxTail := 0 }

def accepts (q : UartQue) : Prop := q.wRxLen < uartBufSize - 1

instance (q : UartQue) : Decidable (accepts q) := inferInstanceAs (Decidable (_ < _))

def uartDebugRxIrq (q : UartQue) (bBuf : UInt8) : UartQue :=
  if accepts q then
    { q with
      bRxQue := Function.update q.bRxQue q.pbRxHead bBuf
      pbRxHead := if q.pbRxHead + 1 = uartBufSize then 0 else q.pbRxHead + 1
      wRxLen := q.wRxLen + 1 }
  else q

/-- The next access of `Comm`. -/
inductive CommPc where
  | test
  | read
  | advance (bIn : UInt8)
  | wrap (bIn : UInt8)
  | load (bIn : UInt8)
  | store (bIn : UInt8) (wRxLen : Nat)
  deriving DecidableEq

/-- The ring, with the bytes the handler has accepted and those `Comm` has handed to the parser. -/
structure RxRun where
  que : UartQue
  pc : CommPc
  accepted : List UInt8
  handed : List UInt8

inductive RxEvent where
  | irq (bBuf : UInt8)
  | comm

namespace RxRun

def irq (s : RxRun) (bBuf : UInt8) : RxRun :=
  { s with
    que := uartDebugRxIrq s.que bBuf
    accepted := if accepts s.que then s.accepted ++ [bBuf] else s.accepted }

def comm (s : RxRun) : RxRun :=
  match s.pc with
  | .test => if 0 < s.que.wRxLen then { s with pc := .read } else s
  | .read => { s with pc := .advance (s.que.bRxQue s.que.pbRxTail) }
  | .advance bIn => { s with que := { s.que with pbRxTail := s.que.pbRxTail + 1 }, pc := .wrap bIn }
  | .wrap bIn =>
    if s.que.pbRxTail = uartBufSize then { s with que := { s.que with pbRxTail := 0 }, pc := .load bIn }
    else { s with pc := .load bIn }
  | .load bIn => { s with pc := .store bIn s.que.wRxLen }
  | .store bIn n =>
    { s with que := { s.que with wRxLen := n - 1 }, pc := .test, handed := s.handed ++ [bIn] }

def step (s : RxRun) : RxEvent → RxRun
  | .irq bBuf => s.irq bBuf
  | .comm => s.comm

def runs : Lts RxRun RxEvent where
  init s := ∃ q, s = ⟨uartRstRxQue q, .test, [], []⟩
  step s e t := t = s.step e

/-- No byte is accepted between the load and the store of `wRxLen`. -/
def Calm (s : RxRun) : RxEvent → Prop
  | .irq _ => ∀ bIn n, s.pc = .store bIn n → ¬ accepts s.que
  | .comm => True

/-- The bytes that are stored.  Before it wraps, `pbRxTail` may be at the end of the array. -/
def ring (s : RxRun) : RingQueue UInt8 :=
  ⟨s.que.pbRxTail % uartBufSize, s.que.pbRxHead, uartBufSize, s.que.bRxQue⟩

/-- What holds between two dequeues. -/
structure Between (s : RxRun) : Prop where
  count : s.que.wRxLen = s.accepted.length - s.handed.length
  indices : s.que.wRxLen = (s.que.pbRxHead + uartBufSize - s.que.pbRxTail) % uartBufSize
  stored : s.accepted = s.handed ++ s.ring.toList

/-- The byte that is no longer stored and not yet handed on. -/
def taken (s : RxRun) : List UInt8 :=
  match s.pc with
  | .wrap bIn | .load bIn | .store bIn _ => [bIn]
  | _ => []

/-- What `Comm` has found out. -/
def Knows (s : RxRun) : Prop :=
  match s.pc with
  | .test | .load _ => s.que.pbRxTail < uartBufSize
  | .read => s.que.pbRxTail < uartBufSize ∧ s.ring.isEmpty = false
  | .advance bIn => s.que.pbRxTail < uartBufSize ∧ s.ring.isEmpty = false ∧ s.ring.front = bIn
  | .wrap _ => s.que.pbRxTail ≤ uartBufSize
  | .store _ n => s.que.pbRxTail < uartBufSize ∧ n = s.que.wRxLen

structure Sound (s : RxRun) : Prop where
  wf : s.ring.Wf
  count : s.que.wRxLen = s.ring.length + s.taken.length
  knows : s.Knows
  order : s.accepted = s.handed ++ s.taken ++ s.ring.toList

variable {s : RxRun}

theorem Sound.not_full (h : Sound s) (room : accepts s.que) : s.ring.isFull = false := by
  rw [Bool.eq_false_iff, ne_eq, RingQueue.isFull_iff h.wf]
  have lt : s.que.wRxLen < uartBufSize - 1 := room
  have count := h.count
  change ¬ s.ring.length + 1 = uartBufSize
  omega

theorem ring_irq (h : s.ring.Wf) (room : accepts s.que) (bBuf : UInt8) :
    (s.irq bBuf).ring = s.ring.push bBuf := by
  have lt : s.que.pbRxHead < uartBufSize := h.tail_lt
  have next : (if s.que.pbRxHead + 1 = uartBufSize then 0 else s.que.pbRxHead + 1) =
      RingQueue.next uartBufSize s.que.pbRxHead := by
    unfold RingQueue.next
    split <;> split <;> omega
  simp only [ring, irq, uartDebugRxIrq, room, if_true, next]
  rfl

theorem toList_irq (h : Sound s) (room : accepts s.que) (bBuf : UInt8) :
    (s.irq bBuf).ring.toList = s.ring.toList ++ [bBuf] := by
  rw [ring_irq h.wf room]
  exact RingQueue.toList_push h.wf (h.not_full room) bBuf

theorem tail_mod (lt : s.que.pbRxTail < uartBufSize) : s.ring.head = s.que.pbRxTail :=
  Nat.mod_eq_of_lt lt

theorem nonempty_irq (h : Sound s) (room : accepts s.que) (bBuf : UInt8) (hs : s.ring.isEmpty = false) :
    (s.irq bBuf).ring.isEmpty = false ∧ (s.irq bBuf).ring.front = s.ring.front := by
  have wf := h.wf.push bBuf
  rw [← ring_irq h.wf room] at wf
  constructor
  · rw [Bool.eq_false_iff, ne_eq, RingQueue.isEmpty_iff wf, toList_irq h room]
    exact List.append_ne_nil_of_right_ne_nil _ (List.cons_ne_nil _ _)
  · rw [ring_irq h.wf room]
    refine Function.update_of_ne ?_ _ _
    simp only [RingQueue.isEmpty, beq_eq_false_iff_ne] at hs
    exact hs

theorem Sound.irq (h : Sound s) (bBuf : UInt8) (calm : Calm s (.irq bBuf)) : Sound (s.irq bBuf) := by
  by_cases room : accepts s.que
  · have ring := ring_irq h.wf room bBuf
    refine ⟨?_, ?_, ?_, ?_⟩
    · rw [ring]
      exact h.wf.push bBuf
    · rw [ring, RingQueue.length_push h.wf (h.not_full room)]
      have len : (s.irq bBuf).que.wRxLen = s.que.wRxLen + 1 := by
        simp only [RxRun.irq, uartDebugRxIrq, room, if_true]
      rw [len, h.count, Nat.add_right_comm]
      rfl
    · have tail : (s.irq bBuf).que.pbRxTail = s.que.pbRxTail := by
        simp only [RxRun.irq, uartDebugRxIrq, room, if_true]
      have knows := h.knows
      have pc : (s.irq bBuf).pc = s.pc := rfl
      unfold Knows at knows ⊢
      rw [pc, tail]
      cases hp : s.pc with
      | test | load | wrap =>
        rw [hp] at knows
        exact knows
      | read =>
        rw [hp] at knows
        exact ⟨knows.1, (nonempty_irq h room bBuf knows.2).1⟩
      | advance bIn =>
        rw [hp] at knows
        have kept := nonempty_irq h room bBuf knows.2.1
        exact ⟨knows.1, kept.1, kept.2.trans knows.2.2⟩
      | store bIn n => exact absurd room (calm bIn n hp)
    · have log : (s.irq bBuf).accepted = s.accepted ++ [bBuf] := if_pos room
      rw [log, toList_irq h room, h.order, List.append_assoc]
      rfl
  · have same : s.irq bBuf = s := by
      simp only [RxRun.irq, uartDebugRxIrq, room, if_false]
    rw [same]
    exact h

theorem Sound.comm (h : Sound s) : Sound s.comm := by
  obtain ⟨wf, count, knows, order⟩ := h
  unfold Knows at knows
  unfold taken at count order
  cases hp : s.pc with
  | test =>
    rw [hp] at count knows order
    unfold RxRun.comm
    simp only [hp]
    split
    next stored =>
      refine ⟨wf, count, ⟨knows, ?_⟩, order⟩
      change s.ring.isEmpty = false
      rw [Bool.eq_false_iff, ne_eq, RingQueue.isEmpty_iff wf, ← List.length_eq_zero_iff,
        RingQueue.length_toList]
      exact Nat.ne_of_gt (Nat.lt_of_lt_of_eq stored count)
    next =>
      refine ⟨wf, ?_, ?_, ?_⟩
      · unfold taken
        rw [hp]
        exact count
      · unfold Knows
        rw [hp]
        exact knows
      · unfold taken
        rw [hp]
        exact order
  | read =>
    rw [hp] at count knows order
    unfold RxRun.comm
    simp only [hp]
    refine ⟨wf, count, ⟨knows.1, knows.2, ?_⟩, order⟩
    exact congrArg s.que.bRxQue (tail_mod knows.1)
  | advance bIn =>
    rw [hp] at count knows order
    obtain ⟨lt, stored, front⟩ := knows
    unfold RxRun.comm
    simp only [hp]
    have ring : RxRun.ring { s with
        que := { s.que with pbRxTail := s.que.pbRxTail + 1 }, pc := .wrap bIn } = s.ring.pop := by
      have next : (s.que.pbRxTail + 1) % uartBufSize = RingQueue.next uartBufSize s.ring.head := by
        rw [tail_mod lt]
        unfold RingQueue.next
        split
        next last => rw [show s.que.pbRxTail + 1 = uartBufSize from Nat.le_antisymm lt last, Nat.mod_self]
        next more => exact Nat.mod_eq_of_lt (Nat.lt_of_not_le more)
      simp only [RxRun.ring, next]
      rfl
    refine ⟨?_, ?_, ?_, ?_⟩
    · rw [ring]
      exact wf.pop
    · rw [ring]
      exact count.trans (RingQueue.length_pop wf stored)
    · exact lt
    · rw [ring]
      change s.accepted = s.handed ++ [bIn] ++ s.ring.pop.toList
      rw [RingQueue.toList_pop wf stored, front] at order
      rw [order, List.append_nil, List.append_assoc]
      rfl
  | wrap bIn =>
    rw [hp] at count knows order
    unfold RxRun.comm
    simp only [hp]
    split
    next last =>
      have ring : RxRun.ring { s with que := { s.que with pbRxTail := 0 }, pc := .load bIn } = s.ring := by
        simp only [RxRun.ring, last, Nat.mod_self]
        rfl
      refine ⟨ring ▸ wf, ?_, Nat.succ_pos _, ?_⟩
      · rw [ring]
        exact count
      · rw [ring]
        exact order
    next more => exact ⟨wf, count, Nat.lt_of_le_of_ne knows more, order⟩
  | load bIn =>
    rw [hp] at count knows order
    unfold RxRun.comm
    simp only [hp]
    exact ⟨wf, count, ⟨knows, rfl⟩, order⟩
  | store bIn n =>
    rw [hp] at count knows order
    obtain ⟨lt, same⟩ := knows
    unfold RxRun.comm
    simp only [hp]
    refine ⟨wf, ?_, lt, ?_⟩
    · change n - 1 = s.ring.length + 0
      rw [same, count]
      rfl
    · change s.accepted = s.handed ++ [bIn] ++ [] ++ s.ring.toList
      rw [order, List.append_nil]

theorem sound_inductive : runs.Inductive Calm Sound where
  init := by
    rintro s ⟨q, rfl⟩
    have pos : 0 < uartBufSize := by decide
    exact ⟨⟨pos, pos⟩, rfl, pos, rfl⟩
  step := by
    rintro s e t h calm rfl
    cases e with
    | irq bBuf => exact h.irq bBuf calm
    | comm => exact h.comm

theorem length_eq_mod {r : RingQueue UInt8} (h : r.Wf) : r.length = (r.tail + r.totNum - r.head) % r.totNum := by
  have lt := h.head_lt
  have lt' := h.tail_lt
  unfold RingQueue.length
  split
  next le =>
    rw [show r.tail + r.totNum - r.head = r.tail - r.head + r.totNum by omega, Nat.add_mod_right,
      Nat.mod_eq_of_lt (by omega)]
  next gt => rw [Nat.mod_eq_of_lt (by omega), Nat.add_comm, Nat.add_sub_assoc (by omega)]

theorem Sound.between (h : Sound s) (hp : s.pc = .test) : Between s := by
  obtain ⟨wf, count, knows, order⟩ := h
  unfold Knows at knows
  unfold taken at count order
  rw [hp] at count knows order
  have stored : s.accepted = s.handed ++ s.ring.toList := by
    rw [order, List.append_nil]
  refine ⟨?_, ?_, stored⟩
  · rw [stored, List.length_append, Nat.add_sub_cancel_left, RingQueue.length_toList]
    exact count
  · rw [← tail_mod knows]
    exact count.trans (length_eq_mod wf)

/-- A byte that is accepted between the load and the store is not counted. -/
theorem Sound.lost (h : Sound s) (bBuf : UInt8) (hp : s.pc = .store bIn n) (room : accepts s.que) :
    ¬ Between (s.irq bBuf).comm := by
  intro b
  have knows := h.knows
  have order := h.order
  have count := h.count
  unfold Knows at knows
  unfold taken at count order
  rw [hp] at knows order count
  have len : (s.irq bBuf).comm.que.wRxLen = n - 1 := by
    simp only [RxRun.irq, RxRun.comm, hp]
  have accepted : (s.irq bBuf).comm.accepted = s.accepted ++ [bBuf] := by
    simp only [RxRun.irq, RxRun.comm, hp]
    exact if_pos room
  have handed : (s.irq bBuf).comm.handed = s.handed ++ [bIn] := by
    simp only [RxRun.irq, RxRun.comm, hp]
  have sum := congrArg List.length order
  have lost := b.count
  rw [len, accepted, handed] at lost
  simp only [List.length_append, List.length_singleton, RingQueue.length_toList] at lost sum count
  omega

/-- In every run that is calm, the count is the number of the bytes between the pointers, which are
the bytes accepted and not yet handed to the parser, in order; a byte that is accepted is appended to
them.  A step that is not calm leaves the count one too low. -/
theorem uart_rx_ring (s : RxRun) (h : Reach runs Calm s) :
    (s.pc = .test → Between s) ∧ s.handed <+: s.accepted ∧
      (∀ bBuf, accepts s.que → (s.irq bBuf).ring.toList = s.ring.toList ++ [bBuf]) ∧
      ∀ bBuf, ¬ Calm s (.irq bBuf) → ¬ Between (s.irq bBuf).comm := by
  have sound := sound_inductive.reach h
  have handed : s.handed <+: s.accepted := by
    rw [sound.order, List.append_assoc]
    exact List.prefix_append _ _
  refine ⟨sound.between, handed, fun b room => toList_irq sound room b, fun bBuf stir => ?_⟩
  simp only [Calm, Classical.not_forall, Classical.not_not] at stir
  obtain ⟨bIn, n, hp, room⟩ := stir
  exact sound.lost bBuf hp room

section sample

def start : RxRun := ⟨⟨0, 0, 0, fun _ => 0⟩, .test, [], []⟩

def calmRun : List RxEvent := [.irq 2, .comm, .comm, .comm, .comm, .comm, .comm]

/-- The second byte comes when `wRxLen` has been loaded. -/
def stirRun : List RxEvent := [.irq 2, .comm, .comm, .comm, .comm, .comm, .irq 3, .comm]

theorem reach_start {ok : RxRun → RxEvent → Prop} (es : List RxEvent) (allowed : Allowed ok step start es) :
    Reach runs ok (es.foldl step start) :=
  have init : Reach runs ok start := .init ⟨start.que, rfl⟩
  init.foldl (fun _ _ => rfl) allowed

theorem uart_rx_ring_lost : ¬ ∀ s, Reach runs Lts.any s → s.pc = .test → Between s := by
  intro all
  have count := (all _ (reach_start stirRun (allowed_any _ _)) (by decide)).count
  revert count
  decide

theorem uart_rx_ring_calm : ∃ s : RxRun, s.handed = [2] ∧ Between s := by
  have calm : Allowed Calm step start calmRun :=
    ⟨nofun, trivial, trivial, trivial, trivial, trivial, trivial, trivial⟩
  exact ⟨calmRun.foldl step start, by decide, (uart_rx_ring _ (reach_start calmRun calm)).1 (by decide)⟩

end sample

end RxRun

end En675.Uart
