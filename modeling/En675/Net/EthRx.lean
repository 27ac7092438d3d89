import Mathlib.Data.List.Forall2
import Mathlib.Data.List.GetD
import En675.Lib.Paged
import En675.Lib.Ring
import En675.Lib.Transition
import En675.Lib.Word

/-! The receive side of the Ethernet port (`ethernetif.c`).  The MAC writes at any time, the handler
of its interrupt runs outside the critical section of `low_level_input`, and the latter is called by
one task.  The debug prints and the wake-up of that task are left out. -/

namespace En675.Net

open Lib

def netrxBufCount : Nat := 256

/-- A frame as the MAC delivers it, the check sequence included; its length word has 11 bits. -/
structure EthFrame where
  octets : List UInt8
  short : octets.length < 2 ^ 11

instance : Inhabited EthFrame := ⟨⟨[], by decide⟩⟩

/-- `u32PktSize` of a length word. -/
def pktSize (info : Nat) : Nat := usub (info % 2 ^ 11) 4

structure PktInfo where
  data : Nat
  lenth : Nat

structure Pbuf where
  totLen : Nat
  payload : List UInt8

namespace EthFrame

variable (f : EthFrame)

def size : Nat := pktSize f.octets.length

def acceptable : Bool := f.size ≤ 1514

/-- What is to come up of it. -/
def pbuf : Pbuf := ⟨f.size, f.octets.take f.size⟩

end EthFrame

/-- Where the handler is: out of it, at the loop test with a head index, or about to read it again. -/
inductive Irq where
  | out
  | loop (gRxPktHead : Nat)
  | look

/-- Where `low_level_input` is. -/
inductive Input where
  | idle
  | checked
  | entered
  | loaded (pkinfo : PktInfo)
  | failed
  | copying (pkinfo : PktInfo) (copied : List UInt8)

/-- The critical section. -/
def Input.critical : Input → Bool
  | .idle | .checked => false
  | _ => true

structure EthRx where
  /-- `pRX_LEN_INFO`, without its head index. -/
  lenInfo : Nat → Nat
  pktData : Nat → Nat → UInt8
  rxHead : Nat
  gRxPktTail : Nat
  qEthernetRX : RingQueue PktInfo
  irq : Irq
  input : Input
  /-- Every frame so far. -/
  arrived : List EthFrame
  /-- The calls that found the queue not empty, with `none` for `NULL`. -/
  results : List (Option Pbuf)

inductive RxEvent where
  | frame (f : EthFrame)
  | irq
  | input
  | alloc (ok : Bool)
  | copy (n : Nat)

namespace EthRx

variable (s : EthRx)

/-- The MAC's part. -/
def receive (f : EthFrame) : EthRx :=
  { s with
    lenInfo := Function.update s.lenInfo s.rxHead f.octets.length
    pktData := Function.update s.pktData s.rxHead (Paged.splice 0 f.octets (s.pktData s.rxHead))
    rxHead := (s.rxHead + 1) % 2 ^ 8
    arrived := s.arrived ++ [f] }

/-- The body of the handler's loop, up to the second read of the head index. -/
def take : EthRx :=
  let u32PktSize := pktSize (s.lenInfo s.gRxPktTail)
  { s with
    qEthernetRX :=
      if u32PktSize ≤ 1514 then s.qEthernetRX.push ⟨s.gRxPktTail, u32PktSize⟩ else s.qEthernetRX
    gRxPktTail := (s.gRxPktTail + 1) % 2 ^ 8
    irq := .look }

def networkEthifPktInputIrq : EthRx :=
  match s.irq with
  | .out => { s with irq := .loop s.rxHead }
  | .loop gRxPktHead => if s.gRxPktTail ≠ gRxPktHead then s.take else { s with irq := .out }
  | .look => { s with irq := .loop s.rxHead }

/-- The call gives up its descriptor. -/
def leave (p : Option Pbuf) : EthRx :=
  { s with qEthernetRX := s.qEthernetRX.pop, input := .idle, results := s.results ++ [p] }

def lowLevelInput : Option EthRx :=
  match s.input with
  | .idle => if s.qEthernetRX.isEmpty then some s else some { s with input := .checked }
  | .checked => some { s with input := .entered }
  | .entered => some { s with input := .loaded s.qEthernetRX.front }
  | .loaded _ => none
  | .failed => some (s.leave none)
  | .copying pkinfo copied =>
    if copied.length = pkinfo.lenth then some (s.leave (some ⟨pkinfo.lenth, copied⟩)) else none

def pbufAlloc (ok : Bool) : Option EthRx :=
  match s.input with
  | .loaded pkinfo => some { s with input := if ok then .copying pkinfo [] else .failed }
  | _ => none

/-- One of the pieces that a pbuf chain is filled in. -/
def copyPiece (n : Nat) : Option EthRx :=
  match s.input with
  | .copying pkinfo copied =>
    if copied.length + n ≤ pkinfo.lenth then
      some { s with
        input := .copying pkinfo
          (copied ++ (List.range n).map fun j => s.pktData pkinfo.data (copied.length + j)) }
    else none
  | _ => none

/-- The handler has the processor until it is out. -/
def isOut : Bool := match s.irq with
  | .out => true
  | _ => false

def step : RxEvent → Option EthRx
  | .frame f => some (s.receive f)
  | .irq => if s.input.critical then none else some s.networkEthifPktInputIrq
  | .input => if s.isOut then s.lowLevelInput else none
  | .alloc ok => if s.isOut then s.pbufAlloc ok else none
  | .copy n => if s.isOut then s.copyPiece n else none

def start : EthRx where
  lenInfo := fun _ => 0
  pktData := fun _ _ => 0
  rxHead := 0
  gRxPktTail := 0
  qEthernetRX := ⟨0, 0, netrxBufCount, fun _ => ⟨0, 0⟩⟩
  irq := .out
  input := .idle
  arrived := []
  results := []

def runs : Lts EthRx RxEvent where
  init s := s = start
  step s e t := s.step e = some t

/-- Nothing is left to be handled or read. -/
def Drained : Prop :=
  s.irq = .out ∧ s.input = .idle ∧ s.gRxPktTail = s.rxHead ∧ s.qEthernetRX.isEmpty = true

/-- No frame arrives, and no allocation fails. -/
def Quiet : EthRx → RxEvent → Prop
  | _, .frame _ => False
  | _, .alloc ok => ok = true
  | _, _ => True

def frameAt (i : Nat) : EthFrame := s.arrived.getD i default

/-- What is to be seen of the queue: the results are those of ever later frames, each with the
length and the octets of its frame; once all is drained, no acceptable frame is missing that has
fewer than 255 slots filled after it; and it can be drained. -/
def Receives : Prop :=
  (∃ nums : List Nat, nums.Pairwise (· < ·) ∧ (∀ i ∈ nums, i < s.arrived.length) ∧
    List.Forall₂ (fun i r => ∀ p, r = some p → p = (s.frameAt i).pbuf) nums s.results ∧
    (s.Drained → ∀ i < s.arrived.length, (s.frameAt i).acceptable = true →
      s.arrived.length - (i + 1) < 255 → i ∈ nums)) ∧
  ∃ t, Steps runs Quiet s t ∧ t.Drained

/-- The condition on an arriving frame: the handler is fewer than 255 frames behind, the slot is not
that of an unread frame, and at most 254 acceptable frames are unread. -/
def InTime : EthRx → RxEvent → Prop
  | s, .frame _ =>
    (s.rxHead + 1) % 2 ^ 8 ≠ s.gRxPktTail ∧
      (s.qEthernetRX.isEmpty = false → s.qEthernetRX.front.data ≠ s.rxHead) ∧
      s.arrived.countP EthFrame.acceptable < s.results.length + 255
  | _, _ => True

section frames

variable (f : EthFrame)

theorem frameAt_receive (h : i < s.arrived.length) : (s.receive f).frameAt i = s.frameAt i := by
  simp only [frameAt, receive]
  exact List.getD_append _ _ _ _ h

theorem frameAt_receive_last : (s.receive f).frameAt s.arrived.length = f := by
  simp [frameAt, receive]

@[simp] theorem length_receive : (s.receive f).arrived.length = s.arrived.length + 1 := by
  simp [receive]

/-- The acceptable ones of the frames `a`, …, `b - 1`. -/
def accepted (a n : Nat) : List Nat := (List.range' a n).filter fun i => (s.frameAt i).acceptable

theorem accepted_receive (h : a + n ≤ s.arrived.length) :
    (s.receive f).accepted a n = s.accepted a n := by
  refine List.filter_congr fun i hi => ?_
  rw [List.mem_range'_1] at hi
  rw [frameAt_receive s f (by omega)]

theorem accepted_add (a m n : Nat) : s.accepted a (m + n) = s.accepted a m ++ s.accepted (a + m) n := by
  rw [accepted, accepted, accepted, ← List.filter_append, List.range'_append_1]

theorem accepted_one (a : Nat) :
    s.accepted a 1 = if (s.frameAt a).acceptable then [a] else [] := by
  rw [accepted, List.range'_one]
  cases h : (s.frameAt a).acceptable <;> simp [h]

theorem countP_arrived :
    s.arrived.countP EthFrame.acceptable = (s.accepted 0 s.arrived.length).length := by
  rw [accepted, ← List.countP_eq_length_filter]
  have map : s.arrived = (List.range' 0 s.arrived.length).map s.frameAt := by
    apply List.ext_getElem
    · simp
    · intro i hi _
      simp [frameAt, hi]
  have count := congrArg (List.countP EthFrame.acceptable) map
  rw [List.countP_map] at count
  simpa only [Function.comp_def] using count

end frames

/-- A descriptor of the queue. -/
def descr (i : Nat) : PktInfo := ⟨i % 2 ^ 8, (s.frameAt i).size⟩

/-- The head index the handler tests is that of a moment since it last looked. -/
def IrqShows (h : Nat) : Irq → Prop
  | .loop gRxPktHead => ∃ c, h ≤ c ∧ c ≤ s.arrived.length ∧ gRxPktHead = c % 2 ^ 8
  | _ => True

/-- What the reader holds is the front of the queue. -/
def InputShows (queue : List Nat) : Input → Prop
  | .idle => True
  | .checked | .entered | .failed => queue ≠ []
  | .loaded pkinfo => ∃ i rest, queue = i :: rest ∧ pkinfo = s.descr i
  | .copying pkinfo copied => ∃ i rest, queue = i :: rest ∧ pkinfo = s.descr i ∧
    copied = (s.frameAt i).octets.take copied.length ∧ copied.length ≤ (s.frameAt i).size

/-- How the state shows the frames handled (`h` of them), the accepted ones that wait in the queue,
and those that have left it. -/
structure Shows (h : Nat) (queue log : List Nat) : Prop where
  handled : h ≤ s.arrived.length
  behind : s.arrived.length < h + 2 ^ 8
  rxTail : s.gRxPktTail = h % 2 ^ 8
  rxHead : s.rxHead = s.arrived.length % 2 ^ 8
  order : log ++ queue = s.accepted 0 h
  room : queue.length + (s.accepted h (s.arrived.length - h)).length ≤ 255
  wf : s.qEthernetRX.Wf
  totNum : s.qEthernetRX.totNum = 2 ^ 8
  items : s.qEthernetRX.toList = queue.map s.descr
  recent : ∀ i ∈ queue, s.arrived.length ≤ i + 2 ^ 8
  slots : ∀ i < s.arrived.length, s.arrived.length ≤ i + 2 ^ 8 →
    s.lenInfo (i % 2 ^ 8) = (s.frameAt i).octets.length ∧
    ∀ j (hj : j < (s.frameAt i).octets.length),
      s.pktData (i % 2 ^ 8) j = (s.frameAt i).octets[j]
  results : List.Forall₂ (fun i r => ∀ p, r = some p → p = (s.frameAt i).pbuf) log s.results
  irq : s.IrqShows h s.irq
  critical : s.input.critical = true → s.irq = .out
  input : s.InputShows queue s.input

namespace Shows

variable {s} {h : Nat} {queue log : List Nat}

theorem sorted (w : Shows s h queue log) : (log ++ queue).Pairwise (· < ·) := by
  rw [w.order]
  exact List.Pairwise.sublist List.filter_sublist List.pairwise_lt_range'

theorem lt_of_mem (w : Shows s h queue log) (hi : i ∈ log ++ queue) : i < h := by
  rw [w.order, accepted, List.mem_filter, List.mem_range'_1] at hi
  omega

theorem length (w : Shows s h queue log) : s.qEthernetRX.length = queue.length := by
  rw [← RingQueue.length_toList, w.items, List.length_map]

theorem isEmpty (w : Shows s h queue log) : s.qEthernetRX.isEmpty = true ↔ queue = [] := by
  rw [RingQueue.isEmpty_iff w.wf, w.items, List.map_eq_nil_iff]

theorem pop (w : Shows s h (i :: rest) log) :
    s.qEthernetRX.front = s.descr i ∧ s.qEthernetRX.pop.toList = rest.map s.descr := by
  have some_ : s.qEthernetRX.isEmpty = false := by
    rw [← Bool.not_eq_true, w.isEmpty]
    exact List.cons_ne_nil _ _
  have items := w.items
  rw [RingQueue.toList_pop w.wf some_, List.map_cons, List.cons.injEq] at items
  exact items

/-- Only the two programs have moved. -/
theorem moved (w : Shows s h queue log) (irq : Irq) (input : Input)
    (hirq : s.IrqShows h irq) (hcritical : input.critical = true → irq = .out)
    (hinput : s.InputShows queue input) :
    Shows { s with irq := irq, input := input } h queue log where
  handled := w.handled
  behind := w.behind
  rxTail := w.rxTail
  rxHead := w.rxHead
  order := w.order
  room := w.room
  wf := w.wf
  totNum := w.totNum
  items := w.items
  recent := w.recent
  slots := w.slots
  results := w.results
  irq := hirq
  critical := hcritical
  input := hinput

theorem descr_receive (w : Shows s h queue log) (f : EthFrame) (hi : i ∈ log ++ queue) :
    (s.receive f).descr i = s.descr i := by
  rw [descr, descr, frameAt_receive s f (Nat.lt_of_lt_of_le (w.lt_of_mem hi) w.handled)]

/-- The oldest unread frame keeps its slot, and the later ones theirs. -/
theorem recent_receive (w : Shows s h queue log)
    (hslot : s.qEthernetRX.isEmpty = false → s.qEthernetRX.front.data ≠ s.rxHead) :
    ∀ i ∈ queue, s.arrived.length + 1 ≤ i + 2 ^ 8 := by
  cases queue with
  | nil => exact fun i hi => absurd hi List.not_mem_nil
  | cons k rest =>
    have first : s.arrived.length + 1 ≤ k + 2 ^ 8 := by
      have hne := hslot (by
        rw [← Bool.not_eq_true, w.isEmpty]
        exact List.cons_ne_nil _ _)
      simp only [w.pop.1, w.rxHead, descr] at hne
      have hk := w.recent k List.mem_cons_self
      have lt := w.lt_of_mem (List.mem_append_right _ List.mem_cons_self)
      have le := w.handled
      omega
    intro i hi
    rcases List.mem_cons.1 hi with rfl | hi
    · exact first
    · have := List.rel_of_pairwise_cons (List.pairwise_append.1 w.sorted).2.1 hi
      omega

theorem room_receive (w : Shows s h queue log) (f : EthFrame)
    (hroom : s.arrived.countP EthFrame.acceptable < s.results.length + 255) :
    queue.length + ((s.receive f).accepted h ((s.receive f).arrived.length - h)).length ≤ 255 := by
  have le := w.handled
  have one : ((s.receive f).accepted s.arrived.length 1).length ≤ 1 := by
    rw [accepted_one]
    split <;> simp
  have split_ := s.accepted_add 0 h (s.arrived.length - h)
  rw [Nat.zero_add, Nat.add_sub_cancel' le, ← w.order] at split_
  rw [countP_arrived, split_, List.length_append, List.length_append, ← w.results.length_eq] at hroom
  rw [length_receive, Nat.sub_add_comm le, accepted_add, accepted_receive _ _ (by omega),
    Nat.add_sub_cancel' le, List.length_append]
  omega

theorem slots_receive (w : Shows s h queue log) (f : EthFrame) :
    ∀ i < (s.receive f).arrived.length, (s.receive f).arrived.length ≤ i + 2 ^ 8 →
      (s.receive f).lenInfo (i % 2 ^ 8) = ((s.receive f).frameAt i).octets.length ∧
      ∀ j (hj : j < ((s.receive f).frameAt i).octets.length),
        (s.receive f).pktData (i % 2 ^ 8) j = ((s.receive f).frameAt i).octets[j] := by
  intro i hi hr
  rw [length_receive] at hi hr
  rcases Nat.lt_succ_iff_lt_or_eq.1 hi with lt | rfl
  · have other : i % 2 ^ 8 ≠ s.rxHead := by
      rw [w.rxHead]
      omega
    simp only [frameAt_receive s f lt]
    simp only [receive, Function.update_of_ne other]
    exact w.slots i lt (by omega)
  · simp only [frameAt_receive_last]
    simp only [receive, w.rxHead, Function.update_self]
    exact ⟨trivial, fun j hj => by simp [Paged.splice, hj]⟩

theorem receive (w : Shows s h queue log) (f : EthFrame) (hok : InTime s (.frame f)) :
    Shows (s.receive f) h queue log := by
  obtain ⟨hhead, hslot, hroom⟩ := hok
  have le := w.handled
  have lt := w.behind
  have same {i : Nat} (hi : i ∈ log ++ queue) : (s.receive f).frameAt i = s.frameAt i :=
    frameAt_receive s f (Nat.lt_of_lt_of_le (w.lt_of_mem hi) le)
  rw [w.rxHead, w.rxTail] at hhead
  refine
    { handled := ?_, behind := ?_, rxTail := w.rxTail, rxHead := ?_, order := ?_
      room := w.room_receive f hroom, wf := w.wf, totNum := w.totNum, items := ?_
      recent := ?_, slots := w.slots_receive f, results := ?_, irq := ?_
      critical := w.critical, input := ?_ }
  · rw [length_receive]
    omega
  · rw [length_receive]
    omega
  · rw [length_receive]
    simp only [EthRx.receive, w.rxHead]
    omega
  · rw [accepted_receive _ _ (by omega)]
    exact w.order
  · refine w.items.trans (List.map_congr_left fun i hi => ?_)
    exact (w.descr_receive f (List.mem_append_right _ hi)).symm
  · rw [length_receive]
    exact w.recent_receive hslot
  · refine ((List.forall₂_and_left (p := fun i => i ∈ log) _ _).2 ⟨fun _ => id, w.results⟩).imp ?_
    rintro i r ⟨hi, hr⟩
    rw [same (List.mem_append_left _ hi)]
    exact hr
  · have hirq := w.irq
    change (s.receive f).IrqShows h s.irq
    cases hs : s.irq with
    | loop hd =>
      rw [hs] at hirq
      obtain ⟨c, hc, hc', rfl⟩ := hirq
      exact ⟨c, hc, hc'.trans (by simp), rfl⟩
    | _ => trivial
  · have hin := w.input
    change (s.receive f).InputShows queue s.input
    cases hs : s.input with
    | loaded pkinfo =>
      rw [hs] at hin
      obtain ⟨i, rest, rfl, rfl⟩ := hin
      exact ⟨i, rest, rfl, (w.descr_receive f (by simp)).symm⟩
    | copying pkinfo copied =>
      rw [hs] at hin
      obtain ⟨i, rest, rfl, rfl, hc⟩ := hin
      refine ⟨i, rest, rfl, (w.descr_receive f (by simp)).symm, ?_⟩
      rw [same (by simp)]
      exact hc
    | _ =>
      rw [hs] at hin
      exact hin

/-- The handler's body. -/
theorem take (w : Shows s h queue log) (lt : h < s.arrived.length)
    (hin : s.input.critical = false) :
    ∃ queue', queue'.length ≤ queue.length + 1 ∧ Shows s.take (h + 1) queue' log := by
  have behind := w.behind
  have slot := (w.slots h lt (by omega)).1
  have size : pktSize (s.lenInfo s.gRxPktTail) = (s.frameAt h).size := by
    rw [w.rxTail, slot, EthFrame.size]
  have order : s.accepted 0 (h + 1) = log ++ queue ++ s.accepted h 1 := by
    rw [w.order, accepted_add, Nat.zero_add]
  have room := w.room
  rw [show s.arrived.length - h = 1 + (s.arrived.length - (h + 1)) by omega, accepted_add,
    List.length_append] at room
  rw [accepted_one] at order room
  by_cases acc : (s.frameAt h).acceptable = true
  · have le : (s.frameAt h).size ≤ 1514 := by simpa [EthFrame.acceptable] using acc
    simp only [if_pos acc] at order room
    rw [List.length_singleton] at room
    have notFull : s.qEthernetRX.isFull = false := by
      rw [← Bool.not_eq_true, RingQueue.isFull_iff w.wf, w.length, w.totNum]
      omega
    have pushed : s.take.qEthernetRX = s.qEthernetRX.push (s.descr h) := by
      unfold EthRx.take descr
      simp only [size, if_pos le]
      rw [w.rxTail]
    exact ⟨queue ++ [h], by simp,
      { handled := lt
        behind := by
          change s.arrived.length < _
          omega
        rxTail := by
          simp only [EthRx.take, w.rxTail]
          omega
        rxHead := w.rxHead
        order := by
          rw [← List.append_assoc]
          exact order.symm
        room := by
          rw [List.length_append, List.length_singleton, Nat.add_assoc]
          exact room
        wf := by
          rw [pushed]
          exact w.wf.push _
        totNum := by
          rw [pushed]
          exact w.totNum
        items := by
          rw [pushed, RingQueue.toList_push w.wf notFull, w.items, List.map_append]
          rfl
        recent := fun i hi => by
          rcases List.mem_append.1 hi with hi | hi
          · exact w.recent i hi
          · obtain rfl := List.mem_singleton.1 hi
            change s.arrived.length ≤ _
            omega
        slots := w.slots
        results := w.results
        irq := trivial
        critical := fun c => absurd (hin.symm.trans c) (by decide)
        input := by
          change s.InputShows (queue ++ [h]) s.input
          cases hs : s.input with
          | idle => trivial
          | checked => exact List.append_ne_nil_of_right_ne_nil _ (List.cons_ne_nil _ _)
          | _ =>
            rw [hs] at hin
            exact absurd hin.symm Bool.false_ne_true }⟩
  · have gt : ¬(s.frameAt h).size ≤ 1514 := by simpa [EthFrame.acceptable] using acc
    simp only [if_neg acc] at order room
    rw [List.append_nil] at order
    rw [List.length_nil, Nat.zero_add] at room
    have kept : s.take.qEthernetRX = s.qEthernetRX := by
      unfold EthRx.take
      simp only [size, if_neg gt]
    exact ⟨queue, Nat.le_succ _,
      { handled := lt
        behind := by
          change s.arrived.length < _
          omega
        rxTail := by
          simp only [EthRx.take, w.rxTail]
          omega
        rxHead := w.rxHead
        order := order.symm
        room := room
        wf := by
          rw [kept]
          exact w.wf
        totNum := by
          rw [kept]
          exact w.totNum
        items := by
          rw [kept]
          exact w.items
        recent := w.recent
        slots := w.slots
        results := w.results
        irq := trivial
        critical := fun c => absurd (hin.symm.trans c) (by decide)
        input := w.input }⟩

/-- The frame at the front leaves the queue with what the call answers. -/
theorem leave (w : Shows s h (i :: rest) log) (p : Option Pbuf)
    (hp : ∀ q, p = some q → q = (s.frameAt i).pbuf) : Shows (s.leave p) h rest (log ++ [i]) where
  handled := w.handled
  behind := w.behind
  rxTail := w.rxTail
  rxHead := w.rxHead
  order := by
    rw [List.append_assoc]
    exact w.order
  room := by
    have room := w.room
    rw [List.length_cons] at room
    exact Nat.le_trans (Nat.add_le_add_right (Nat.le_succ _) _) room
  wf := w.wf.pop
  totNum := w.totNum
  items := w.pop.2
  recent := fun j hj => w.recent j (List.mem_cons_of_mem i hj)
  slots := w.slots
  results := List.rel_append w.results (.cons hp .nil)
  irq := w.irq
  critical := fun c => absurd c Bool.false_ne_true
  input := trivial

theorem irq_step (w : Shows s h queue log) (hin : s.input.critical = false) :
    ∃ h' queue', Shows s.networkEthifPktInputIrq h' queue' log := by
  have input (irq : Irq) (hirq : s.IrqShows h irq) :=
    w.moved irq s.input hirq (fun c => absurd (hin.symm.trans c) (by decide)) w.input
  have loop : s.IrqShows h (.loop s.rxHead) := ⟨_, w.handled, le_rfl, w.rxHead⟩
  unfold networkEthifPktInputIrq
  cases hs : s.irq with
  | out => exact ⟨h, queue, input _ loop⟩
  | look => exact ⟨h, queue, input _ loop⟩
  | loop hd =>
    by_cases more : s.gRxPktTail ≠ hd
    · have hirq := w.irq
      rw [hs] at hirq
      obtain ⟨c, hc, hc', rfl⟩ := hirq
      have lt : h ≠ c := by
        rintro rfl
        exact more w.rxTail
      obtain ⟨queue', -, w'⟩ := w.take (by omega) hin
      exact ⟨h + 1, queue', by simpa only [if_pos more] using w'⟩
    · exact ⟨h, queue, by simpa only [if_neg more] using input .out trivial⟩

/-- What the call returns is the frame at the front. -/
theorem copied_all (hc : copied.length = (s.descr i).lenth)
    (heq : copied = (s.frameAt i).octets.take copied.length) :
    (⟨(s.descr i).lenth, copied⟩ : Pbuf) = (s.frameAt i).pbuf := by
  rw [EthFrame.pbuf, heq, hc]
  rfl

theorem size_le (w : Shows s h queue log) (hi : i ∈ queue) :
    (s.frameAt i).size ≤ (s.frameAt i).octets.length := by
  have mem : i ∈ s.accepted 0 h := w.order ▸ List.mem_append_right _ hi
  have acc : (s.frameAt i).size ≤ 1514 := by
    simpa [EthFrame.acceptable] using (List.mem_filter.1 mem).2
  have short := (s.frameAt i).short
  simp only [EthFrame.size, pktSize, usub] at acc ⊢
  omega

/-- A piece is copied while the slot still holds the frame. -/
theorem piece (w : Shows s h (i :: rest) log) (hc : copied = (s.frameAt i).octets.take copied.length)
    (n : Nat) (hn : copied.length + n ≤ (s.frameAt i).size) :
    copied ++ (List.range n).map (fun j => s.pktData (s.descr i).data (copied.length + j)) =
      (s.frameAt i).octets.take (copied.length + n) := by
  have len := w.size_le List.mem_cons_self
  have lt := Nat.lt_of_lt_of_le (w.lt_of_mem (List.mem_append_right _ List.mem_cons_self)) w.handled
  have slot := (w.slots i lt (w.recent i List.mem_cons_self)).2
  rw [List.take_add]
  conv_lhs => rw [hc]
  rw [← hc]
  congr 1
  apply List.ext_getElem
  · simp
    omega
  · intro j hj hj'
    simp only [List.length_map, List.length_range] at hj
    simp only [List.getElem_map, List.getElem_range, List.getElem_take, List.getElem_drop, descr]
    exact slot _ (by omega)

theorem input_step (w : Shows s h queue log) (out : s.irq = .out)
    (ht : s.lowLevelInput = some t) : ∃ queue' log', Shows t h queue' log' := by
  have hin := w.input
  have moved (input : Input) (hinput : s.InputShows queue input) :=
    w.moved s.irq input w.irq (fun _ => out) hinput
  unfold lowLevelInput at ht
  cases hs : s.input with
  | idle =>
    rw [hs] at ht
    by_cases empty : s.qEthernetRX.isEmpty = true
    · simp only [if_pos empty, Option.some.injEq] at ht
      exact ⟨queue, log, ht ▸ w⟩
    · simp only [if_neg empty, Option.some.injEq] at ht
      rw [w.isEmpty] at empty
      exact ⟨queue, log, ht ▸ moved .checked empty⟩
  | checked =>
    rw [hs] at ht hin
    exact ⟨queue, log, Option.some.inj ht ▸ moved .entered hin⟩
  | entered =>
    rw [hs] at ht hin
    obtain ⟨i, rest, rfl⟩ := List.exists_cons_of_ne_nil hin
    exact ⟨_, log, Option.some.inj ht ▸ moved (.loaded s.qEthernetRX.front) ⟨i, rest, rfl, w.pop.1⟩⟩
  | loaded pkinfo => simp [hs] at ht
  | failed =>
    rw [hs] at ht hin
    obtain ⟨i, rest, rfl⟩ := List.exists_cons_of_ne_nil hin
    exact ⟨rest, log ++ [i], Option.some.inj ht ▸ w.leave none (fun _ h => nomatch h)⟩
  | copying pkinfo copied =>
    rw [hs] at ht hin
    obtain ⟨i, rest, rfl, rfl, hc, -⟩ := hin
    by_cases all : copied.length = (s.descr i).lenth
    · simp only [if_pos all, Option.some.injEq] at ht
      refine ⟨rest, log ++ [i], ht ▸ w.leave _ fun q hq => ?_⟩
      rw [← Option.some.inj hq, copied_all all hc]
    · simp [if_neg all] at ht

theorem alloc_step (w : Shows s h queue log) (out : s.irq = .out)
    (ht : s.pbufAlloc ok = some t) : Shows t h queue log := by
  have hin := w.input
  unfold pbufAlloc at ht
  cases hs : s.input with
  | loaded pkinfo =>
    rw [hs] at ht hin
    obtain ⟨i, rest, rfl, rfl⟩ := hin
    refine Option.some.inj ht ▸ w.moved s.irq _ w.irq (fun _ => out) ?_
    cases ok with
    | false => exact List.cons_ne_nil _ _
    | true => exact ⟨i, rest, rfl, rfl, rfl, Nat.zero_le _⟩
  | _ => simp [hs] at ht

theorem copy_step (w : Shows s h queue log) (out : s.irq = .out)
    (ht : s.copyPiece n = some t) : Shows t h queue log := by
  have hin := w.input
  unfold copyPiece at ht
  cases hs : s.input with
  | copying pkinfo copied =>
    rw [hs] at ht hin
    obtain ⟨i, rest, rfl, rfl, hc, -⟩ := hin
    by_cases fits : copied.length + n ≤ (s.descr i).lenth
    · simp only [if_pos fits, Option.some.injEq] at ht
      refine ht ▸ w.moved s.irq _ w.irq (fun _ => out) ⟨i, rest, rfl, rfl, ?_, ?_⟩
      · rw [w.piece hc n fits, List.length_take, Nat.min_eq_left]
        exact fits.trans (w.size_le List.mem_cons_self)
      · rw [List.length_append, List.length_map, List.length_range]
        exact fits
    · simp [if_neg fits] at ht
  | _ => simp [hs] at ht

theorem out_of_isOut (h : s.isOut = true) : s.irq = .out := by
  unfold isOut at h
  split at h
  · assumption
  · exact absurd h Bool.false_ne_true

theorem step (w : Shows s h queue log) (ok : InTime s e) (ht : s.step e = some t) :
    ∃ h' queue' log', Shows t h' queue' log' := by
  cases e with
  | frame f =>
    obtain rfl := Option.some.inj ht
    exact ⟨h, queue, log, w.receive f ok⟩
  | irq =>
    simp only [EthRx.step] at ht
    by_cases c : s.input.critical = true
    · simp [c] at ht
    · simp only [if_neg c, Option.some.injEq] at ht
      subst ht
      obtain ⟨h', queue', w'⟩ := w.irq_step (by simpa using c)
      exact ⟨h', queue', log, w'⟩
  | input =>
    simp only [EthRx.step, Option.ite_none_right_eq_some] at ht
    obtain ⟨queue', log', w'⟩ := w.input_step (out_of_isOut ht.1) ht.2
    exact ⟨h, queue', log', w'⟩
  | alloc ok =>
    simp only [EthRx.step, Option.ite_none_right_eq_some] at ht
    exact ⟨h, queue, log, w.alloc_step (out_of_isOut ht.1) ht.2⟩
  | copy n =>
    simp only [EthRx.step, Option.ite_none_right_eq_some] at ht
    exact ⟨h, queue, log, w.copy_step (out_of_isOut ht.1) ht.2⟩

theorem start : Shows EthRx.start 0 [] [] where
  handled := le_rfl
  behind := by decide
  rxTail := rfl
  rxHead := rfl
  order := rfl
  room := Nat.zero_le _
  wf := ⟨by decide, by decide⟩
  totNum := rfl
  items := rfl
  recent := fun i hi => absurd hi List.not_mem_nil
  slots := fun i hi => absurd hi (Nat.not_lt_zero _)
  results := .nil
  irq := trivial
  critical := fun _ => rfl
  input := trivial

theorem reach (r : Reach runs InTime s) : ∃ h queue log, Shows s h queue log := by
  induction r with
  | init hi => exact ⟨0, [], [], hi ▸ start⟩
  | step _ ok ht ih =>
    obtain ⟨h, queue, log, w⟩ := ih
    exact w.step ok ht

end Shows

section drain

/-- What the handler still has to do before it leaves, and the reader before it is idle. -/
def irqRank (gRxPktTail rxHead : Nat) : Irq → Nat
  | .out => if gRxPktTail = rxHead then 0 else 3
  | .loop gRxPktHead => if gRxPktTail = gRxPktHead then 4 else 2
  | .look => 5

def inputRank : Input → Nat
  | .idle => 6
  | .checked => 5
  | .entered => 4
  | .loaded _ => 3
  | .copying pkinfo copied => if copied.length = pkinfo.lenth then 1 else 2
  | .failed => 1

def rank (h : Nat) (queue : List Nat) : Nat :=
  16 * (s.arrived.length - h) + irqRank s.gRxPktTail s.rxHead s.irq +
    (8 * queue.length + inputRank s.input)

/-- A step towards the end of the work. -/
def Nears (h : Nat) (queue : List Nat) : Prop :=
  ∃ e t h' queue' log', Quiet s e ∧ s.step e = some t ∧ Shows t h' queue' log' ∧
    t.rank h' queue' < s.rank h queue

variable {s} {h : Nat} {queue log : List Nat}

theorem isOut_of_out (out : s.irq = .out) : s.isOut = true := by
  simp [isOut, out]

theorem irqRank_loop_le : irqRank a b (.loop hd) ≤ 4 := by
  simp only [irqRank]
  split <;> omega

/-- The reader's steps leave the handler's share of the rank alone. -/
theorem rank_lt {t : EthRx} (harr : t.arrived = s.arrived) (htail : t.gRxPktTail = s.gRxPktTail)
    (hhead : t.rxHead = s.rxHead) (hirq : t.irq = s.irq)
    (lt : 8 * queue'.length + inputRank t.input < 8 * queue.length + inputRank s.input) :
    t.rank h queue' < s.rank h queue := by
  unfold rank
  rw [harr, htail, hhead, hirq]
  exact Nat.add_lt_add_left lt _

/-- In the critical section the call goes on by itself. -/
theorem nears_critical (w : Shows s h queue log) (c : s.input.critical = true) :
    s.Nears h queue := by
  have out := w.critical c
  have isOut := isOut_of_out out
  have hin := w.input
  have moved (input : Input) (hinput : s.InputShows queue input) :=
    w.moved s.irq input w.irq (fun _ => out) hinput
  cases hs : s.input with
  | idle => simp [hs, Input.critical] at c
  | checked => simp [hs, Input.critical] at c
  | entered =>
    rw [hs] at hin
    obtain ⟨i, rest, rfl⟩ := List.exists_cons_of_ne_nil hin
    refine ⟨.input, _, h, _, log, trivial, ?_,
      moved (.loaded s.qEthernetRX.front) ⟨i, rest, rfl, w.pop.1⟩, ?_⟩
    · simp [EthRx.step, isOut, lowLevelInput, hs]
    · refine rank_lt rfl rfl rfl rfl ?_
      simp only [hs, inputRank]
      omega
  | loaded pkinfo =>
    rw [hs] at hin
    obtain ⟨i, rest, rfl, rfl⟩ := hin
    refine ⟨.alloc true, _, h, _, log, rfl, ?_,
      moved (.copying (s.descr i) []) ⟨i, rest, rfl, rfl, rfl, Nat.zero_le _⟩, ?_⟩
    · simp [EthRx.step, isOut, pbufAlloc, hs]
    · refine rank_lt rfl rfl rfl rfl ?_
      simp only [hs, inputRank]
      split <;> omega
  | failed =>
    rw [hs] at hin
    obtain ⟨i, rest, rfl⟩ := List.exists_cons_of_ne_nil hin
    refine ⟨.input, _, h, rest, log ++ [i], trivial, ?_, w.leave none (fun _ h => nomatch h), ?_⟩
    · simp [EthRx.step, isOut, lowLevelInput, hs]
    · refine rank_lt rfl rfl rfl rfl ?_
      simp only [hs, leave, inputRank, List.length_cons]
      omega
  | copying pkinfo copied =>
    rw [hs] at hin
    obtain ⟨i, rest, rfl, rfl, hc, hle⟩ := hin
    by_cases all : copied.length = (s.descr i).lenth
    · refine ⟨.input, _, h, rest, log ++ [i], trivial, ?_,
        w.leave (some ⟨(s.descr i).lenth, copied⟩) fun q hq => ?_, ?_⟩
      · simp [EthRx.step, isOut, lowLevelInput, hs, all]
      · rw [← Option.some.inj hq]
        exact Shows.copied_all all hc
      · refine rank_lt rfl rfl rfl rfl ?_
        simp only [hs, leave, inputRank, List.length_cons, if_pos all]
        omega
    · have whole : copied.length + ((s.descr i).lenth - copied.length) = (s.descr i).lenth :=
        Nat.add_sub_cancel' hle
      have ht : s.copyPiece ((s.descr i).lenth - copied.length) = some { s with
          input := .copying (s.descr i) (copied ++
            (List.range ((s.descr i).lenth - copied.length)).map fun j =>
              s.pktData (s.descr i).data (copied.length + j)) } := by
        simp only [copyPiece, hs]
        exact if_pos whole.le
      refine ⟨.copy ((s.descr i).lenth - copied.length), _, h, _, log, trivial, ?_,
        w.copy_step out ht, ?_⟩
      · rw [EthRx.step, if_pos isOut, ht]
      · refine rank_lt rfl rfl rfl rfl ?_
        simp only [hs, inputRank, List.length_append, List.length_map, List.length_range, if_neg all]
        rw [if_pos whole]
        omega

/-- Outside it the handler runs first, until it has caught up. -/
theorem nears_irq (w : Shows s h queue log) (c : s.input.critical = false)
    (busy : s.irq = .out → s.gRxPktTail ≠ s.rxHead) : s.Nears h queue := by
  have ht : s.step .irq = some s.networkEthifPktInputIrq := by simp [EthRx.step, c]
  have loop : s.IrqShows h (.loop s.rxHead) := ⟨_, w.handled, le_rfl, w.rxHead⟩
  have moved (irq : Irq) (hirq : s.IrqShows h irq) :=
    w.moved irq s.input hirq (fun d => absurd (c.symm.trans d) (by decide)) w.input
  unfold networkEthifPktInputIrq at ht
  cases hs : s.irq with
  | out =>
    rw [hs] at ht
    refine ⟨.irq, _, h, queue, log, trivial, ht, moved _ loop, ?_⟩
    simp only [rank, hs, irqRank, if_neg (busy hs)]
    omega
  | look =>
    rw [hs] at ht
    refine ⟨.irq, _, h, queue, log, trivial, ht, moved _ loop, ?_⟩
    have : irqRank s.gRxPktTail s.rxHead (.loop s.rxHead) ≤ 4 := irqRank_loop_le
    simp only [rank, hs] at *
    simp only [irqRank] at *
    omega
  | loop hd =>
    rw [hs] at ht
    by_cases more : s.gRxPktTail = hd
    · simp only [if_neg (not_not.2 more)] at ht
      refine ⟨.irq, _, h, queue, log, trivial, ht, moved .out trivial, ?_⟩
      simp only [rank, hs, irqRank, if_pos more]
      split <;> omega
    · have hirq := w.irq
      rw [hs] at hirq
      obtain ⟨k, hk, hk', rfl⟩ := hirq
      have ne : h ≠ k := by
        rintro rfl
        exact more w.rxTail
      simp only [if_pos more] at ht
      obtain ⟨queue', len, w'⟩ := w.take (by omega) c
      refine ⟨.irq, _, h + 1, queue', log, trivial, ht, w', ?_⟩
      change 16 * (s.arrived.length - (h + 1)) + 5 + (8 * queue'.length + inputRank s.input) < _
      simp only [rank, hs, irqRank, if_neg more]
      omega

theorem nears (w : Shows s h queue log) (busy : ¬s.Drained) : s.Nears h queue := by
  cases c : s.input.critical with
  | true => exact nears_critical w c
  | false =>
    by_cases rest : s.irq = .out ∧ s.gRxPktTail = s.rxHead
    · obtain ⟨out, caught⟩ := rest
      have hin := w.input
      have isOut := isOut_of_out out
      have moved (input : Input) (hinput : s.InputShows queue input) :=
        w.moved s.irq input w.irq (fun _ => out) hinput
      cases hs : s.input with
      | idle =>
        have some_ : ¬s.qEthernetRX.isEmpty = true := fun e => busy ⟨out, hs, caught, e⟩
        refine ⟨.input, _, h, queue, log, trivial, ?_, moved .checked ?_, ?_⟩
        · simp [EthRx.step, isOut, lowLevelInput, hs, some_]
        · rwa [w.isEmpty] at some_
        · refine rank_lt rfl rfl rfl rfl ?_
          simp only [hs, inputRank]
          omega
      | checked =>
        rw [hs] at hin
        refine ⟨.input, _, h, queue, log, trivial, ?_, moved .entered hin, ?_⟩
        · simp [EthRx.step, isOut, lowLevelInput, hs]
        · refine rank_lt rfl rfl rfl rfl ?_
          simp only [hs, inputRank]
          omega
      | _ => simp [hs, Input.critical] at c
    · exact nears_irq w c fun out caught => rest ⟨out, caught⟩

theorem drains (w : Shows s h queue log) : ∃ t, Steps runs Quiet s t ∧ t.Drained := by
  generalize hn : s.rank h queue = n
  induction n using Nat.strong_induction_on generalizing s h queue log with
  | _ n ih =>
    by_cases busy : s.Drained
    · exact ⟨s, .refl, busy⟩
    · obtain ⟨e, u, h', queue', log', quiet, hu, w', lt⟩ := nears w busy
      obtain ⟨t, steps, drained⟩ := ih _ (hn ▸ lt) w' rfl
      exact ⟨t, .cons quiet hu steps, drained⟩

/-- Once all is drained every acceptable frame has left the queue. -/
theorem mem_log (w : Shows s h queue log) (drained : s.Drained) (hi : i < s.arrived.length)
    (acc : (s.frameAt i).acceptable = true) : i ∈ log := by
  obtain ⟨-, -, caught, empty⟩ := drained
  have all : h = s.arrived.length := by
    have le := w.handled
    have lt := w.behind
    rw [w.rxTail, w.rxHead] at caught
    omega
  have mem : i ∈ s.accepted 0 h :=
    List.mem_filter.2 ⟨List.mem_range'_1.2 ⟨Nat.zero_le _, by omega⟩, acc⟩
  rw [← w.order, w.isEmpty.1 empty, List.append_nil] at mem
  exact mem

end drain

/-- A burst of one frame. -/
def burst (f : EthFrame) : Nat → EthRx
  | 0 => start
  | n + 1 => (burst f n).receive f

theorem reach_burst (f : EthFrame) (n : Nat) : Reach runs Lts.any (burst f n) := by
  induction n with
  | zero => exact .init rfl
  | succ n ih => exact ih.step trivial (show runs.step (burst f n) (.frame f) _ from rfl)

theorem burst_eq (f : EthFrame) (n : Nat) :
    (burst f n).rxHead = n % 2 ^ 8 ∧ (burst f n).arrived = List.replicate n f ∧
      (burst f n).gRxPktTail = 0 ∧ (burst f n).irq = .out ∧ (burst f n).input = .idle ∧
      (burst f n).results = [] ∧ (burst f n).qEthernetRX.isEmpty = true := by
  induction n with
  | zero => exact ⟨rfl, rfl, rfl, rfl, rfl, rfl, rfl⟩
  | succ n ih =>
    obtain ⟨hh, ha, rest⟩ := ih
    refine ⟨?_, ?_, rest⟩
    · change ((burst f n).rxHead + 1) % 2 ^ 8 = _
      rw [hh]
      omega
    · change (burst f n).arrived ++ [f] = _
      rw [ha, List.replicate_succ']

end EthRx

/-- Every frame that arrives in time is read, unless it is rejected or gets no pbuf. -/
theorem lowLevelInput_receives (r : Reach EthRx.runs EthRx.InTime s) : s.Receives := by
  obtain ⟨h, queue, log, w⟩ := EthRx.Shows.reach r
  have lt (i : Nat) (hi : i ∈ log) : i < s.arrived.length :=
    Nat.lt_of_lt_of_le (w.lt_of_mem (List.mem_append_left _ hi)) w.handled
  exact ⟨⟨log, (List.pairwise_append.1 w.sorted).1, lt, w.results,
    fun drained i hi acc _ => EthRx.mem_log w drained hi acc⟩, EthRx.drains w⟩

theorem lowLevelInput_receives_one : (EthRx.start.receive ⟨[1, 2, 3, 4, 5], by decide⟩).Receives := by
  let f : EthFrame := ⟨[1, 2, 3, 4, 5], by decide⟩
  have inTime : EthRx.InTime EthRx.start (.frame f) :=
    ⟨by decide, fun h => absurd h (by decide), by decide⟩
  exact lowLevelInput_receives
    (.step (.init rfl) inTime (show EthRx.runs.step _ (.frame f) _ from rfl))

/-- 256 frames of 64 octets before the handler runs: it finds no frame. -/
theorem burst_256_lost : ¬∀ s, Reach EthRx.runs Lts.any s → s.Receives := by
  intro all
  let f : EthFrame := ⟨List.replicate 64 0, by decide⟩
  obtain ⟨hh, ha, ht, hi, hn, hr, he⟩ := EthRx.burst_eq f 256
  obtain ⟨⟨nums, -, -, results, drained⟩, -⟩ := all _ (EthRx.reach_burst f 256)
  rw [hr] at results
  obtain rfl := List.forall₂_nil_right_iff.1 results
  have len : (EthRx.burst f 256).arrived.length = 256 := by rw [ha, List.length_replicate]
  have wrapped : 256 % 2 ^ 8 = 0 := by decide
  have mem := drained ⟨hi, hn, ht.trans (hh.trans wrapped).symm, he⟩ 255 (by omega) ?_ (by omega)
  · exact absurd mem List.not_mem_nil
  · have acc : ((List.replicate 256 f).getD 255 default).acceptable = true := by decide +kernel
    rwa [EthRx.frameAt, ha]

end En675.Net
