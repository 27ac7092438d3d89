import En675.Core.MsgQueue

/-! What a message queue holds while parties are at any access of their calls. -/

universe u

namespace En675.Core

open Lib

namespace MsgCall

variable (b : RingQueue StreamInfo) (c : MsgCall)

def refuses : Bool := c.refused b.totNum (c.own b) (c.other b)

/-- The queue after the assignments to `fs`. -/
def filled (fs : List StreamField) : MsgCall → RingQueue StreamInfo
  | .put x => { b with data := Function.update b.data b.tail (StreamField.copies x.info (b.data b.tail) fs) }
  | .get _ => b

@[simp] theorem own_filled (fs : List StreamField) : c.own (c.filled b fs) = c.own b := by
  cases c <;> rfl

@[simp] theorem own_move (i : Nat) : c.own (c.move b i) = i := by
  cases c <;> rfl

@[simp] theorem totNum_filled (fs : List StreamField) : (c.filled b fs).totNum = b.totNum := by
  cases c <;> rfl

@[simp] theorem totNum_move (i : Nat) : (c.move b i).totNum = b.totNum := by
  cases c <;> rfl

@[simp] theorem move_move (i j : Nat) : c.move (c.move b i) j = c.move b j := by
  cases c <;> rfl

@[simp] theorem filled_nil : c.filled b [] = b := by
  cases c with
  | put x => rw [filled, StreamField.copies_nil, Function.update_eq_self]
  | get g => rfl

/-- The next assignment of the call, whose fields so far are `fs`. -/
theorem assign_filled {fs fs' : List StreamField} {f : StreamField} (g : StreamInfo)
    (h : ∀ x y, StreamField.copies x y fs' = f.copy x (StreamField.copies x y fs)) :
    c.assign (c.filled b fs) (c.own b) f g =
      (c.filled b fs', match c with
        | .put _ => g
        | .get _ => f.copy b.front g) := by
  cases c with
  | put x => simp only [assign, filled, own, Function.update_self, Function.update_idem, h]
  | get g' => rfl

theorem move_next : c.move (c.filled b StreamField.all) (RingQueue.next b.totNum (c.own b)) = c.done b := by
  cases c <;> rfl

theorem toList_done {b : RingQueue StreamInfo} (wf : b.Wf) (x : MsgArgs)
    (h : (MsgCall.put x).refuses b = false) : ((MsgCall.put x).done b).toList = b.toList ++ [x.info] :=
  RingQueue.toList_push wf h _

theorem toList_taken {b : RingQueue StreamInfo} (wf : b.Wf) (g : StreamInfo)
    (h : (MsgCall.get g).refuses b = false) : b.toList = b.front :: ((MsgCall.get g).done b).toList :=
  RingQueue.toList_pop wf h

end MsgCall

namespace MsgPc

def call? : MsgPc → Option MsgCall
  | .idle => none
  | .test c | .set c | .first c | .second c _ | .slot c | .field c _ _ | .load c | .store c _ | .compare c
  | .wrap c | .unlock c _ => some c

/-- The queue at an access of the call that found it as `b`. -/
def memory (b : RingQueue StreamInfo) : MsgPc → RingQueue StreamInfo
  | .field c _ f => c.filled b f.before
  | .load c | .store c _ => c.filled b StreamField.all
  | .compare c | .wrap c => c.move (c.filled b StreamField.all) (c.own b + 1)
  | .unlock c true => c.done b
  | _ => b

/-- The fields that have been assigned. -/
def copied : MsgPc → List StreamField
  | .field _ _ f => f.before
  | .load _ | .store _ _ | .compare _ | .wrap _ | .unlock _ true => StreamField.all
  | _ => []

/-- What the call has found out about `b`. -/
def Knows (b : RingQueue StreamInfo) : MsgPc → Prop
  | .second c i => i = c.own b
  | .slot c | .load c | .compare c => c.refuses b = false
  | .field c i _ | .store c i => c.refuses b = false ∧ i = c.own b
  | .wrap c => c.refuses b = false ∧ b.totNum ≤ c.own b + 1
  | .unlock c ok => c.refuses b = !ok
  | _ => True

/-- The call that has updated its index. -/
def updated? : MsgPc → Option MsgCall
  | .compare c | .wrap c | .unlock c true => some c
  | _ => none

def putting (pc : MsgPc) : List MsgArgs :=
  match pc.updated? with
  | some (.put x) => [x]
  | _ => []

def getting (g : StreamInfo) (pc : MsgPc) : List StreamInfo :=
  match pc.updated? with
  | some (.get _) => [g]
  | _ => []

/-- The queue once the call is over, as far as is decided. -/
def settled (b : RingQueue StreamInfo) (pc : MsgPc) : RingQueue StreamInfo :=
  match pc.updated? with
  | some c => c.done b
  | none => b

theorem settled_wf {b : RingQueue StreamInfo} (wf : b.Wf) (pc : MsgPc) : (pc.settled b).Wf := by
  unfold settled
  cases pc.updated? with
  | none => exact wf
  | some c => cases c with
    | put x => exact wf.push _
    | get g => exact wf.pop

theorem totNum_settled (b : RingQueue StreamInfo) (pc : MsgPc) : (pc.settled b).totNum = b.totNum := by
  unfold settled
  cases pc.updated? with
  | none => rfl
  | some c => cases c <;> rfl

def status (g : StreamInfo) : MsgPc → FifoStatus StreamInfo
  | .idle => .idle
  | .compare (.put _) | .wrap (.put _) => .done true
  | .compare (.get _) | .wrap (.get _) => .got (some g)
  | .unlock (.put _) ok => .done ok
  | .unlock (.get _) ok => .got (if ok then some g else none)
  | .test c | .set c | .first c | .second c _ | .slot c | .field c _ _ | .load c | .store c _ => .called c.op

theorem refused {b : RingQueue StreamInfo} {pc : MsgPc} {c : MsgCall} (inside : pc.phase = .inside)
    (knows : pc.Knows b) (call : pc.call? = some c) (full : c.refuses b = true) :
    pc.memory b = b ∧ pc.copied = [] ∧ pc ≠ .unlock c true := by
  have clash : c.refuses b ≠ false := by
    rw [full]
    exact nofun
  cases pc with
  | idle | test | set => cases inside
  | first | second => exact ⟨rfl, rfl, nofun⟩
  | slot | load | compare =>
    cases call
    exact absurd knows clash
  | field | store | wrap =>
    cases call
    exact absurd knows.1 clash
  | unlock _ ok =>
    cases call
    cases ok with
    | true => exact absurd knows clash
    | false => exact ⟨rfl, rfl, nofun⟩

end MsgPc

namespace MsgQueue

variable {ι : Type u}

def spin (s : MsgQueue ι) : SpinLock ι := ⟨s.lock, fun p => (s.pc p).phase⟩

/-- The queue as a FIFO of atomic calls. -/
def fifo (s : MsgQueue ι) : FifoCalls ι StreamInfo :=
  ⟨(s.puts.map MsgArgs.info).drop s.taken.length, fun p => (s.pc p).status (s.getInfo p)⟩

/-- Nobody is inside. -/
structure Rests (totNum : Nat) (s : MsgQueue ι) : Prop where
  wf : s.queue.Wf
  totNum : s.queue.totNum = totNum
  puts : s.puts = s.oks
  taken : s.taken = s.gets
  order : s.puts.map MsgArgs.info = s.taken ++ s.queue.toList

/-- `p` is inside. -/
structure Works (totNum : Nat) (s : MsgQueue ι) (p : ι) : Prop where
  wf : s.found.Wf
  totNum : s.found.totNum = totNum
  memory : s.queue = (s.pc p).memory s.found
  knows : (s.pc p).Knows s.found
  puts : s.puts = s.oks ++ (s.pc p).putting
  taken : s.taken = s.gets ++ (s.pc p).getting (s.getInfo p)
  order : s.puts.map MsgArgs.info = s.taken ++ ((s.pc p).settled s.found).toList

structure Sound (totNum : Nat) (s : MsgQueue ι) : Prop where
  rests : (∀ p, (s.pc p).phase ≠ .inside) → Rests totNum s
  works : ∀ p, (s.pc p).phase = .inside → Works totNum s p
  copied : ∀ p g, (s.pc p).call? = some (.get g) →
    s.getInfo p = StreamField.copies (s.found.front) g (s.pc p).copied

variable {totNum : Nat} {s t : MsgQueue ι} {p : ι}

theorem copied_of_outside {pc : MsgPc} (h : pc.phase ≠ .inside) : pc.copied = [] := by
  cases pc with
  | idle | test | set => rfl
  | first | second | slot | field | load | store | compare | wrap | unlock => exact absurd rfl h

theorem Sound.getInfo (snd : Sound totNum s) {g : StreamInfo} (h : (s.pc p).call? = some (.get g))
    (out : (s.pc p).phase ≠ .inside) : s.getInfo p = g := by
  rw [snd.copied p g h, copied_of_outside out]
  rfl

section release
variable (s : MsgQueue ι) (p : ι) (c : MsgCall) (ok : Bool)

@[simp] theorem found_release : (s.release p c ok).found = s.found := by
  cases c <;> cases ok <;> rfl

@[simp] theorem pc_release : (s.release p c ok).pc = s.pc := by
  cases c <;> cases ok <;> rfl

@[simp] theorem getInfo_release : (s.release p c ok).getInfo = s.getInfo := by
  cases c <;> cases ok <;> rfl

@[simp] theorem puts_release : (s.release p c ok).puts = s.puts := by
  cases c <;> cases ok <;> rfl

@[simp] theorem taken_release : (s.release p c ok).taken = s.taken := by
  cases c <;> cases ok <;> rfl

theorem oks_release : (s.release p c ok).oks = s.oks ++ (MsgPc.unlock c ok).putting := by
  cases c <;> cases ok <;> first | rfl | exact (List.append_nil _).symm

theorem gets_release :
    (s.release p c ok).gets = s.gets ++ (MsgPc.unlock c ok).getting (s.getInfo p) := by
  cases c <;> cases ok <;> first | rfl | exact (List.append_nil _).symm

end release

theorem Works.items (w : Works totNum s p) : s.fifo.items = ((s.pc p).settled s.found).toList := by
  change (s.puts.map MsgArgs.info).drop s.taken.length = _
  rw [w.order, List.drop_left]

/-- The items of the puts that returned `ENX_OK`, in the order of their updates of the tail, are the
items of the gets that returned `ENX_OK`, in the order of these, and what is stored. -/
structure Served (totNum : Nat) (s : MsgQueue ι) : Prop where
  oks : s.oks <+: s.puts
  gets : s.gets <+: s.puts.map MsgArgs.info
  stored : (∀ p, (s.pc p).phase ≠ .inside) →
    s.oks = s.puts ∧ s.puts.map MsgArgs.info = s.gets ++ s.queue.toList
  full : ∀ p x, s.pc p = .unlock (.put x) false → s.queue.toList.length = totNum - 1

/-- A call that is refused leaves the queue and `*getInfo` as they are. -/
structure Refusals (totNum : Nat) (s : MsgQueue ι) : Prop where
  full : ∀ p x, (s.pc p).phase = .inside → (s.pc p).call? = some (.put x) →
    s.found.toList.length = totNum - 1 → s.queue = s.found ∧ s.pc p ≠ .unlock (.put x) true
  empty : ∀ p g, (s.pc p).phase = .inside → (s.pc p).call? = some (.get g) →
    s.found.toList = [] → s.queue = s.found ∧ s.getInfo p = g ∧ s.pc p ≠ .unlock (.get g) true

theorem Works.full (w : Works totNum s p) (x : MsgArgs) :
    (MsgCall.put x).refuses s.found = true ↔ s.found.toList.length = totNum - 1 := by
  have lt := RingQueue.length_lt w.wf
  rw [RingQueue.length_toList, ← w.totNum]
  exact (RingQueue.isFull_iff w.wf).trans (by omega)

theorem Sound.refusals (snd : Sound totNum s) : Refusals totNum s := by
  constructor
  · intro p x inside call length
    have w := snd.works p inside
    obtain ⟨memory, _, ne⟩ := MsgPc.refused inside w.knows call ((w.full x).mpr length)
    exact ⟨w.memory.trans memory, ne⟩
  · intro p g inside call none
    have w := snd.works p inside
    have empty : (MsgCall.get g).refuses s.found = true := (RingQueue.isEmpty_iff w.wf).mpr none
    obtain ⟨memory, copied, ne⟩ := MsgPc.refused inside w.knows call empty
    refine ⟨w.memory.trans memory, ?_, ne⟩
    rw [snd.copied p g call, copied]
    rfl

theorem Sound.served (snd : Sound totNum s) : Served totNum s := by
  have logs : s.oks <+: s.puts ∧ s.gets <+: s.puts.map MsgArgs.info := by
    by_cases h : ∃ p, (s.pc p).phase = .inside
    · obtain ⟨p, inside⟩ := h
      have w := snd.works p inside
      refine ⟨⟨_, w.puts.symm⟩, List.IsPrefix.trans ⟨_, w.taken.symm⟩ ⟨_, w.order.symm⟩⟩
    · have r := snd.rests (not_exists.mp h)
      exact ⟨r.puts ▸ List.prefix_rfl, r.taken ▸ ⟨_, r.order.symm⟩⟩
  refine ⟨logs.1, logs.2, fun none => ?_, fun p x h => ?_⟩
  · have r := snd.rests none
    exact ⟨r.puts.symm, r.taken ▸ r.order⟩
  · have w := snd.works p (by rw [h]; rfl)
    have memory := w.memory
    have knows := w.knows
    rw [h] at memory knows
    rw [memory]
    exact (w.full x).mp knows

variable [DecidableEq ι]

@[simp] theorem pc_goto (s : MsgQueue ι) (p : ι) (pc : MsgPc) : (s.goto p pc).pc p = pc :=
  Function.update_self ..

theorem pc_goto_of_ne (s : MsgQueue ι) {p q : ι} (pc : MsgPc) (h : q ≠ p) : (s.goto p pc).pc q = s.pc q :=
  Function.update_of_ne h _ _

/-- A step of a party that is not inside before it or after it. -/
theorem Sound.outside (snd : Sound totNum s) (out : (s.pc p).phase ≠ .inside) {pc : MsgPc} (g : StreamInfo)
    (stay : pc.phase ≠ .inside) (given : ∀ g', pc.call? = some (.get g') → g = g') :
    Sound totNum { s with pc := Function.update s.pc p pc, getInfo := Function.update s.getInfo p g } := by
  have phase : ∀ q, (Function.update s.pc p pc q).phase = .inside ↔ (s.pc q).phase = .inside := by
    intro q
    by_cases e : q = p
    · rw [e, Function.update_self]
      exact iff_of_false stay out
    · rw [Function.update_of_ne e]
  refine ⟨fun none => ?_, fun q hq => ?_, fun q g' hq => ?_⟩
  · obtain ⟨wf, n, puts, taken, order⟩ := snd.rests fun q hq => none q ((phase q).mpr hq)
    exact ⟨wf, n, puts, taken, order⟩
  · have inside := (phase q).mp hq
    have e : q ≠ p := by
      rintro rfl
      exact out inside
    obtain ⟨wf, n, memory, knows, puts, taken, order⟩ := snd.works q inside
    constructor <;> simp only [Function.update_of_ne e] <;> assumption
  · by_cases e : q = p
    · subst e
      simp only [Function.update_self] at hq ⊢
      rw [given g' hq, copied_of_outside stay]
      rfl
    · simp only [Function.update_of_ne e] at hq ⊢
      exact snd.copied q g' hq

/-- A step of a party that is inside before it and after it. -/
theorem Sound.inside (snd : Sound totNum s) (alone : ∀ q, (s.pc q).phase = .inside → q = p)
    (pcs : ∀ q, q ≠ p → t.pc q = s.pc q) (infos : ∀ q, q ≠ p → t.getInfo q = s.getInfo q)
    (phase : (t.pc p).phase = .inside) (works : Works totNum t p)
    (copied : ∀ g, (t.pc p).call? = some (.get g) →
      t.getInfo p = StreamField.copies (t.found.front) g (t.pc p).copied) : Sound totNum t := by
  refine ⟨fun none => absurd phase (none p), fun q hq => ?_, fun q g hq => ?_⟩
  · by_cases e : q = p
    · exact e ▸ works
    · rw [pcs q e] at hq
      exact absurd (alone q hq) e
  · by_cases e : q = p
    · subst e
      exact copied g hq
    · have out : (s.pc q).phase ≠ .inside := fun hq => e (alone q hq)
      rw [pcs q e] at hq ⊢
      rw [infos q e, snd.getInfo hq out, copied_of_outside out]
      rfl

theorem Sound.acquire (snd : Sound totNum s) (none : ∀ q, (s.pc q).phase ≠ .inside) {c : MsgCall}
    (hc : (s.pc p).call? = some c) : Sound totNum (s.acquire p c) := by
  obtain ⟨wf, n, puts, taken, order⟩ := snd.rests none
  refine ⟨fun out => absurd ?_ (out p), fun q hq => ?_, fun q g hq => ?_⟩
  · simp only [MsgQueue.acquire, Function.update_self]
    rfl
  · by_cases e : q = p
    · subst e
      constructor <;> simp only [MsgQueue.acquire, Function.update_self]
      · exact wf
      · exact n
      · rfl
      · trivial
      · exact puts.trans (List.append_nil _).symm
      · exact taken.trans (List.append_nil _).symm
      · exact order
    · simp only [MsgQueue.acquire, Function.update_of_ne e] at hq
      exact absurd hq (none q)
  · by_cases e : q = p
    · subst e
      simp only [MsgQueue.acquire, Function.update_self] at hq ⊢
      exact snd.getInfo (hc.trans hq) (none q)
    · simp only [MsgQueue.acquire, Function.update_of_ne e] at hq ⊢
      rw [snd.getInfo hq (none q), copied_of_outside (none q)]
      rfl

/-- A step inside that only reads. -/
theorem Sound.reads (snd : Sound totNum s) (alone : ∀ q, (s.pc q).phase = .inside → q = p)
    {old pc : MsgPc} (h : s.pc p = old) (inside : old.phase = .inside) (phase : pc.phase = .inside)
    (memory : pc.memory s.found = old.memory s.found) (knows : pc.Knows s.found)
    (updated : pc.updated? = old.updated?) (call : pc.call? = old.call?)
    (copied : pc.copied = old.copied) : Sound totNum (s.goto p pc) := by
  subst h
  obtain ⟨wf, n, mem, _, puts, taken, order⟩ := snd.works p inside
  refine snd.inside alone (fun q => pc_goto_of_ne s pc) (fun _ _ => rfl) ?_ ?_ ?_
  · rw [pc_goto]
    exact phase
  · constructor
    · exact wf
    · exact n
    · rw [pc_goto]
      exact mem.trans memory.symm
    · rw [pc_goto]
      exact knows
    · rw [pc_goto, MsgPc.putting, updated]
      exact puts
    · rw [pc_goto, MsgPc.getting, updated]
      exact taken
    · rw [pc_goto, MsgPc.settled, updated]
      exact order
  · intro g hg
    rw [pc_goto, call] at hg
    rw [pc_goto, copied]
    exact snd.copied p g hg

theorem Sound.field (snd : Sound totNum s) (alone : ∀ q, (s.pc q).phase = .inside → q = p)
    {c : MsgCall} {i : Nat} {f : StreamField} (h : s.pc p = .field c i f) {pc : MsgPc}
    (phase : pc.phase = .inside) (knows : pc.Knows s.found) (updated : pc.updated? = none)
    (call : pc.call? = some c) (memory : pc.memory s.found = c.filled s.found pc.copied)
    (copied : ∀ x y, StreamField.copies x y pc.copied = f.copy x (StreamField.copies x y f.before)) :
    Sound totNum ({ s with
      queue := (c.assign s.queue i f (s.getInfo p)).1,
      getInfo := Function.update s.getInfo p (c.assign s.queue i f (s.getInfo p)).2 }.goto p pc) := by
  obtain ⟨wf, n, mem, known, puts, taken, order⟩ := snd.works p (by rw [h]; rfl)
  rw [h] at mem known puts taken order
  have assigned := c.assign_filled s.found (s.getInfo p) copied
  simp only [MsgPc.memory] at mem
  rw [known.2, mem, assigned]
  refine snd.inside alone (fun q => pc_goto_of_ne _ pc) (fun q e => Function.update_of_ne e _ _) ?_ ?_ ?_
  · rw [pc_goto]
    exact phase
  · constructor
    · exact wf
    · exact n
    · rw [pc_goto]
      exact memory.symm
    · rw [pc_goto]
      exact knows
    · rw [pc_goto, MsgPc.putting, updated]
      exact puts
    · rw [pc_goto, MsgPc.getting, updated]
      exact taken
    · rw [pc_goto, MsgPc.settled, updated]
      exact order
  · intro g hg
    rw [pc_goto, call] at hg
    rw [pc_goto]
    obtain rfl := Option.some.inj hg
    have before := snd.copied p g (by rw [h]; rfl)
    rw [h] at before
    simp only [goto, Function.update_self, copied, before]
    rfl

theorem Sound.store (snd : Sound totNum s) (alone : ∀ q, (s.pc q).phase = .inside → q = p)
    {c : MsgCall} {i : Nat} (h : s.pc p = .store c i) :
    Sound totNum ((s.update p (i + 1) c).goto p (.compare c)) := by
  obtain ⟨wf, n, mem, knows, puts, taken, order⟩ := snd.works p (by rw [h]; rfl)
  have copied := snd.copied p
  rw [h] at mem knows puts taken order copied
  obtain ⟨accepted, own⟩ := knows
  have moved : c.move s.queue (i + 1) = (MsgPc.compare c).memory s.found := by
    rw [mem, own]
    rfl
  cases c with
  | put x =>
    refine snd.inside alone (fun q => pc_goto_of_ne _ _) (fun _ _ => rfl) ?_ ?_ ?_
    · rw [pc_goto]
      rfl
    · constructor
      · exact wf
      · exact n
      · rw [pc_goto]
        exact moved
      · rw [pc_goto]
        exact accepted
      · rw [pc_goto]
        exact congrArg (· ++ [x]) (puts.trans (List.append_nil _))
      · rw [pc_goto]
        exact taken
      · rw [pc_goto]
        change (s.puts ++ [x]).map MsgArgs.info = s.taken ++ ((MsgCall.put x).done s.found).toList
        rw [List.map_append, order, MsgCall.toList_done wf x accepted, ← List.append_assoc]
        rfl
    · intro g hg
      rw [pc_goto] at hg
      cases hg
  | get g =>
    have item : s.getInfo p = s.found.front := copied g rfl
    refine snd.inside alone (fun q => pc_goto_of_ne _ _) (fun _ _ => rfl) ?_ ?_ ?_
    · rw [pc_goto]
      rfl
    · constructor
      · exact wf
      · exact n
      · rw [pc_goto]
        exact moved
      · rw [pc_goto]
        exact accepted
      · rw [pc_goto]
        exact puts
      · rw [pc_goto]
        exact congrArg (· ++ [s.getInfo p]) (taken.trans (List.append_nil _))
      · rw [pc_goto]
        change s.puts.map MsgArgs.info = s.taken ++ [s.getInfo p] ++ ((MsgCall.get g).done s.found).toList
        rw [order, item, List.append_assoc]
        exact congrArg (s.taken ++ ·) (MsgCall.toList_taken wf g accepted)
    · intro g' _
      rw [pc_goto]
      exact item

theorem Sound.wrap (snd : Sound totNum s) (alone : ∀ q, (s.pc q).phase = .inside → q = p)
    {c : MsgCall} (h : s.pc p = .wrap c) :
    Sound totNum ({ s with queue := c.move s.queue 0 }.goto p (.unlock c true)) := by
  obtain ⟨wf, n, mem, knows, puts, taken, order⟩ := snd.works p (by rw [h]; rfl)
  have copied := snd.copied p
  rw [h] at mem knows puts taken order copied
  obtain ⟨accepted, last⟩ := knows
  refine snd.inside alone (fun q => pc_goto_of_ne _ _) (fun _ _ => rfl) ?_ ?_ ?_
  · rw [pc_goto]
    rfl
  · constructor
    · exact wf
    · exact n
    · rw [pc_goto]
      change c.move s.queue 0 = c.done s.found
      rw [mem, MsgPc.memory, MsgCall.move_move, ← c.move_next, RingQueue.next_of_ge last]
    · rw [pc_goto]
      exact accepted
    · rw [pc_goto]
      exact puts
    · rw [pc_goto]
      exact taken
    · rw [pc_goto]
      exact order
  · intro g hg
    rw [pc_goto] at hg ⊢
    exact copied g hg

theorem Sound.release (snd : Sound totNum s) (alone : ∀ q, (s.pc q).phase = .inside → q = p)
    {c : MsgCall} {ok : Bool} (h : s.pc p = .unlock c ok) :
    Sound totNum ((s.release p c ok).goto p .idle) := by
  obtain ⟨wf, n, mem, knows, puts, taken, order⟩ := snd.works p (by rw [h]; rfl)
  rw [h] at mem knows puts taken order
  refine ⟨fun _ => ?_, fun q hq => ?_, fun q g hq => ?_⟩
  · have queue : (s.release p c ok).queue = (MsgPc.unlock c ok).settled s.found := by
      cases c <;> cases ok <;> exact mem
    constructor
    · change (s.release p c ok).queue.Wf
      rw [queue]
      exact MsgPc.settled_wf wf _
    · change (s.release p c ok).queue.totNum = totNum
      rw [queue, MsgPc.totNum_settled]
      exact n
    · change (s.release p c ok).puts = (s.release p c ok).oks
      rw [puts_release, oks_release]
      exact puts
    · change (s.release p c ok).taken = (s.release p c ok).gets
      rw [taken_release, gets_release]
      exact taken
    · change (s.release p c ok).puts.map MsgArgs.info =
        (s.release p c ok).taken ++ (s.release p c ok).queue.toList
      rw [puts_release, taken_release, queue]
      exact order
  · by_cases e : q = p
    · rw [e, pc_goto] at hq
      cases hq
    · rw [pc_goto_of_ne _ _ e, pc_release] at hq
      exact absurd (alone q hq) e
  · by_cases e : q = p
    · rw [e, pc_goto] at hq
      cases hq
    · rw [pc_goto_of_ne _ _ e, pc_release] at hq ⊢
      change (s.release p c ok).getInfo q = _
      rw [getInfo_release, snd.copied q g hq]
      change _ = StreamField.copies (s.release p c ok).found.front g _
      rw [found_release]

/-- One access of a party that is inside. -/
theorem Sound.run (snd : Sound totNum s) (alone : ∀ q, (s.pc q).phase = .inside → q = p)
    (inside : (s.pc p).phase = .inside) (mutex : Bool) : Sound totNum (s.run mutex p) := by
  have works := snd.works p inside
  have mem := works.memory
  have knows := works.knows
  cases h : s.pc p with
  | idle | test | set =>
    rw [h] at inside
    cases inside
  | first c =>
    rw [h] at mem
    simp only [MsgQueue.run, h]
    exact snd.reads alone h rfl rfl rfl (congrArg c.own mem) rfl rfl rfl
  | second c i =>
    rw [h] at mem knows
    simp only [MsgQueue.run, h]
    have known : c.refused s.queue.totNum i (c.other s.queue) = c.refuses s.found := by
      rw [mem, knows]
      rfl
    rw [known]
    cases full : c.refuses s.found with
    | true => exact snd.reads alone h rfl rfl rfl full rfl rfl rfl
    | false => exact snd.reads alone h rfl rfl rfl full rfl rfl rfl
  | slot c =>
    rw [h] at mem knows
    simp only [MsgQueue.run, h]
    exact snd.reads alone h rfl rfl (c.filled_nil _) ⟨knows, congrArg c.own mem⟩ rfl rfl rfl
  | field c i f =>
    rw [h] at knows
    simp only [MsgQueue.run, h]
    cases hf : f.next with
    | some f' => exact snd.field alone h rfl knows rfl rfl rfl (StreamField.copies_next hf)
    | none => exact snd.field alone h rfl knows.1 rfl rfl rfl (StreamField.copies_last hf)
  | load c =>
    rw [h] at mem knows
    simp only [MsgQueue.run, h]
    exact snd.reads alone h rfl rfl rfl ⟨knows, (congrArg c.own mem).trans (c.own_filled _ _)⟩ rfl rfl rfl
  | store c i =>
    simp only [MsgQueue.run, h]
    exact snd.store alone h
  | compare c =>
    rw [h] at mem knows
    simp only [MsgQueue.run, h]
    have own : c.own s.queue = c.own s.found + 1 := by
      rw [mem]
      exact c.own_move _ _
    have n : s.queue.totNum = s.found.totNum := by
      rw [mem]
      exact (c.totNum_move _ _).trans (c.totNum_filled _ _)
    rw [own, n]
    split
    next last => exact snd.reads alone h rfl rfl rfl ⟨knows, last⟩ rfl rfl rfl
    next more =>
      refine snd.reads alone h rfl rfl ?_ knows rfl rfl rfl
      change c.done s.found = c.move (c.filled s.found StreamField.all) (c.own s.found + 1)
      rw [← c.move_next, RingQueue.next_of_lt (Nat.lt_of_not_le more)]
  | wrap c =>
    simp only [MsgQueue.run, h]
    exact snd.wrap alone h
  | unlock c ok =>
    simp only [MsgQueue.run, h]
    exact snd.release alone h

theorem Sound.step {mutex : Bool} {op : Op ι} (snd : Sound totNum s) (owned : s.spin.Owned)
    (st : Step mutex s op t) : Sound totNum t := by
  cases st with
  | @call p c idle =>
    have out : (s.pc p).phase ≠ .inside := by
      rw [idle]
      exact nofun
    cases c with
    | put x =>
      have same : Sound totNum { s with
          pc := Function.update s.pc p (.test (.put x)),
          getInfo := Function.update s.getInfo p (s.getInfo p) } := snd.outside out _ nofun nofun
      rw [Function.update_eq_self] at same
      exact same
    | get g => exact snd.outside out g nofun fun g' h => by cases h; rfl
  | @run p busy =>
    cases phase : (s.pc p).phase with
    | inside =>
      refine snd.run (fun q hq => owned.alone ?_ ?_) phase mutex
      · change (s.pc q).phase ≠ .out
        rw [hq]
        exact nofun
      · change (s.pc p).phase ≠ .out
        rw [phase]
        exact nofun
    | passed =>
      cases h : s.pc p with
      | set c =>
        simp only [MsgQueue.run, h]
        refine snd.acquire (fun q hq => ?_) (by rw [h]; rfl)
        have e : q = p := owned.alone (by change (s.pc q).phase ≠ .out; rw [hq]; exact nofun)
          (by change (s.pc p).phase ≠ .out; rw [phase]; exact nofun)
        rw [e, phase] at hq
        cases hq
      | idle | test | first | second | slot | field | load | store | compare | wrap | unlock =>
        rw [h] at phase
        cases phase
    | out =>
      cases h : s.pc p with
      | idle => exact absurd h busy
      | test c =>
        simp only [MsgQueue.run, h]
        split
        · exact snd
        next free =>
          split
          · refine snd.acquire (fun q hq => ?_) (by rw [h]; rfl)
            exact free (owned.taken hq)
          · have out : (s.pc p).phase ≠ .inside := by
              rw [phase]
              exact nofun
            have same : Sound totNum { s with
                pc := Function.update s.pc p (.set c),
                getInfo := Function.update s.getInfo p (s.getInfo p) } :=
              snd.outside out _ nofun fun g hg => snd.getInfo (by rw [h]; exact hg) out
            rw [Function.update_eq_self] at same
            exact same
      | set | first | second | slot | field | load | store | compare | wrap | unlock =>
        rw [h] at phase
        cases phase

end MsgQueue

end En675.Core
