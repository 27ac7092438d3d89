import En675.Lib.Fifo
import En675.Lib.SpinLock

/-! The message queues between the cores (`enx_record.c`, `enx_stream.c`, `msg.h`), one memory access
a step.  The two differ in the lock alone.  The count of dropped items, which only a message reads,
is left out. -/

universe u

namespace En675.Core

open Lib

/-- The arguments of `MsgRecPut` and `MsgStmPut`. -/
structure MsgArgs where
  addr : BitVec 32
  size : BitVec 32
  ts : BitVec 32
  type : BitVec 32
  deriving DecidableEq

/-- `stream_info`, with `type` and `ts` in the bits of one word. -/
structure StreamInfo where
  addr : BitVec 32
  size : BitVec 32
  type : BitVec 8
  ts : BitVec 24
  deriving DecidableEq

def MsgArgs.info (x : MsgArgs) : StreamInfo :=
  ⟨x.addr, x.size, x.type.setWidth 8, x.ts.setWidth 24⟩

/-- The fields in the order in which they are assigned. -/
inductive StreamField where
  | addr
  | size
  | ts
  | type
  deriving DecidableEq

namespace StreamField

/-- `y->f = x->f`. -/
def copy (x y : StreamInfo) : StreamField → StreamInfo
  | .addr => { y with addr := x.addr }
  | .size => { y with size := x.size }
  | .ts => { y with ts := x.ts }
  | .type => { y with type := x.type }

def next : StreamField → Option StreamField
  | .addr => some .size
  | .size => some .ts
  | .ts => some .type
  | .type => none

def before : StreamField → List StreamField
  | .addr => []
  | .size => [.addr]
  | .ts => [.addr, .size]
  | .type => [.addr, .size, .ts]

def all : List StreamField := [.addr, .size, .ts, .type]

def copies (x y : StreamInfo) (fs : List StreamField) : StreamInfo := fs.foldl (copy x) y

@[simp] theorem copies_nil (x y : StreamInfo) : copies x y [] = y := rfl

@[simp] theorem copies_all (x y : StreamInfo) : copies x y all = x := rfl

theorem copies_next {f f' : StreamField} (h : f.next = some f') (x y : StreamInfo) :
    copies x y f'.before = f.copy x (copies x y f.before) := by
  cases f <;> cases h <;> rfl

theorem copies_last {f : StreamField} (h : f.next = none) (x y : StreamInfo) :
    copies x y all = f.copy x (copies x y f.before) := by
  cases f <;> cases h
  rfl

end StreamField

/-- A call, with the item that is put or with what the caller's `*getInfo` holds. -/
inductive MsgCall where
  | put (x : MsgArgs)
  | get (getInfo : StreamInfo)
  deriving DecidableEq

namespace MsgCall

variable (q : RingQueue StreamInfo)

/-- The index the call moves: the tail of a put, the head of a get. -/
def own : MsgCall → Nat
  | .put _ => q.tail
  | .get _ => q.head

def other : MsgCall → Nat
  | .put _ => q.head
  | .get _ => q.tail

def move (i : Nat) : MsgCall → RingQueue StreamInfo
  | .put _ => { q with tail := i }
  | .get _ => { q with head := i }

/-- `cQueue_isfull` of a put, `cQueue_isempty` of a get, on the two indices that were read. -/
def refused (totNum i j : Nat) : MsgCall → Bool
  | .put _ => (i + 1) % totNum == j
  | .get _ => i == j

/-- One assignment to a field, of the slot `i` or of `*getInfo`. -/
def assign (i : Nat) (f : StreamField) (g : StreamInfo) : MsgCall → RingQueue StreamInfo × StreamInfo
  | .put x => ({ q with data := Function.update q.data i (f.copy x.info (q.data i)) }, g)
  | .get _ => (q, f.copy (q.data i) g)

/-- The queue after the call. -/
def done : MsgCall → RingQueue StreamInfo
  | .put x => q.push x.info
  | .get _ => q.pop

def op : MsgCall → QueueOp StreamInfo
  | .put x => .put x.info
  | .get _ => .get

end MsgCall

/-- The next access of a party. -/
inductive MsgPc where
  | idle
  /-- The lock is read. -/
  | test (c : MsgCall)
  /-- The lock is set. -/
  | set (c : MsgCall)
  /-- The call's own index is read. -/
  | first (c : MsgCall)
  /-- The other index is read and compared with `i`. -/
  | second (c : MsgCall) (i : Nat)
  | slot (c : MsgCall)
  | field (c : MsgCall) (i : Nat) (f : StreamField)
  /-- `num_loop`: load and store of the increment, comparison, store of 0. -/
  | load (c : MsgCall)
  | store (c : MsgCall) (i : Nat)
  | compare (c : MsgCall)
  | wrap (c : MsgCall)
  | unlock (c : MsgCall) (ok : Bool)
  deriving DecidableEq

def MsgPc.phase : MsgPc → LockPhase
  | .idle | .test _ => .out
  | .set _ => .passed
  | _ => .inside

/-- The shared memory, the parties, and what has happened: `found` is the queue as it was when the
lock was taken last, `puts` and `taken` are the items in the order of the updates of the indices,
`oks` and `gets` those whose calls have returned `ENX_OK`. -/
structure MsgQueue (ι : Type u) where
  lock : Bool
  queue : RingQueue StreamInfo
  pc : ι → MsgPc
  getInfo : ι → StreamInfo
  found : RingQueue StreamInfo
  puts : List MsgArgs
  taken : List StreamInfo
  oks : List MsgArgs
  gets : List StreamInfo

namespace MsgQueue

variable {ι : Type u} [DecidableEq ι]

def goto (s : MsgQueue ι) (p : ι) (pc : MsgPc) : MsgQueue ι :=
  { s with pc := Function.update s.pc p pc }

def acquire (s : MsgQueue ι) (p : ι) (c : MsgCall) : MsgQueue ι :=
  { s with lock := true, found := s.queue, pc := Function.update s.pc p (.first c) }

/-- The update of an index, which orders the puts and the gets. -/
def update (s : MsgQueue ι) (p : ι) (i : Nat) (c : MsgCall) : MsgQueue ι :=
  match c with
  | .put x => { s with queue := c.move s.queue i, puts := s.puts ++ [x] }
  | .get _ => { s with queue := c.move s.queue i, taken := s.taken ++ [s.getInfo p] }

def release (s : MsgQueue ι) (p : ι) (c : MsgCall) (ok : Bool) : MsgQueue ι :=
  match c, ok with
  | .put x, true => { s with lock := false, oks := s.oks ++ [x] }
  | .get _, true => { s with lock := false, gets := s.gets ++ [s.getInfo p] }
  | _, false => { s with lock := false }

def call (s : MsgQueue ι) (p : ι) (c : MsgCall) : MsgQueue ι :=
  match c with
  | .put _ => s.goto p (.test c)
  | .get g => { s with getInfo := Function.update s.getInfo p g }.goto p (.test c)

/-- One access of `p`.  A `mutex` is taken by the read that finds it free. -/
def run (mutex : Bool) (s : MsgQueue ι) (p : ι) : MsgQueue ι :=
  match s.pc p with
  | .idle => s
  | .test c => if s.lock then s else if mutex then s.acquire p c else s.goto p (.set c)
  | .set c => s.acquire p c
  | .first c => s.goto p (.second c (c.own s.queue))
  | .second c i =>
    s.goto p (if c.refused s.queue.totNum i (c.other s.queue) then .unlock c false else .slot c)
  | .slot c => s.goto p (.field c (c.own s.queue) .addr)
  | .field c i f =>
    let (queue, g) := c.assign s.queue i f (s.getInfo p)
    { s with queue, getInfo := Function.update s.getInfo p g }.goto p
      (match f.next with
        | some f => .field c i f
        | none => .load c)
  | .load c => s.goto p (.store c (c.own s.queue))
  | .store c i => (s.update p (i + 1) c).goto p (.compare c)
  | .compare c => s.goto p (if s.queue.totNum ≤ c.own s.queue then .wrap c else .unlock c true)
  | .wrap c => { s with queue := c.move s.queue 0 }.goto p (.unlock c true)
  | .unlock c ok => (s.release p c ok).goto p .idle

inductive Op (ι : Type u)
  | call (p : ι) (c : MsgCall)
  | run (p : ι)

inductive Step (mutex : Bool) : MsgQueue ι → Op ι → MsgQueue ι → Prop
  | call : s.pc p = .idle → Step mutex s (.call p c) (s.call p c)
  | run : s.pc p ≠ .idle → Step mutex s (.run p) (run mutex s p)

def empty (totNum : Nat) (data : Nat → StreamInfo) : RingQueue StreamInfo := ⟨0, 0, totNum, data⟩

def runs (mutex : Bool) (totNum : Nat) : Lts (MsgQueue ι) (Op ι) where
  init s := ∃ data getInfo, s = ⟨false, empty totNum data, fun _ => .idle, getInfo, empty totNum data, [], [], [], []⟩
  step := Step mutex

end MsgQueue

end En675.Core
