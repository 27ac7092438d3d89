import En675.Lib.Fifo
import En675.Lib.Transition
import En675.Videnc.Define

/-! What the recorder's queue discards when it is full, against the groups of pictures. -/

namespace En675.Videnc

open Lib

section put

def SbufData.isKey (d : SbufData) : Bool := d.flags == 1

variable {q : Sbuf}

/-- Skipping drops the frames in front of the first I frame. -/
theorem sbufSkip_spec (n : Nat) (wf : q.Wf) (hn : q.length ≤ n) :
    (sbufSkip n q).Wf ∧ (sbufSkip n q).totNum = q.totNum ∧
      (sbufSkip n q).toList = q.toList.dropWhile fun d => !d.isKey := by
  induction n generalizing q with
  | zero =>
    have empty : q.toList = [] := by
      rw [← List.length_eq_zero_iff, RingQueue.length_toList]
      omega
    exact ⟨wf, rfl, by rw [empty]; exact empty⟩
  | succ n ih =>
    rw [sbufSkip]
    split
    · rename_i he
      have empty := (RingQueue.isEmpty_iff wf).mp he
      exact ⟨wf, rfl, by rw [empty, List.dropWhile_nil]⟩
    · rename_i he
      have he : q.isEmpty = false := Bool.eq_false_iff.mpr he
      have shorter := RingQueue.length_pop wf he
      rw [RingQueue.toList_pop wf he, List.dropWhile_cons]
      split
      · rename_i hf
        have skips : (!q.front.isKey) = true := by
          rw [SbufData.isKey, Bool.not_eq_true', beq_eq_false_iff_ne]
          exact hf
        rw [if_pos skips]
        exact ih wf.pop (by omega)
      · rename_i hf
        have stays : ¬ (!q.front.isKey) = true := by
          rw [SbufData.isKey, Bool.not_eq_true', beq_eq_false_iff_ne]
          exact hf
        rw [if_neg stays]
        exact ⟨wf, rfl, RingQueue.toList_pop wf he⟩

theorem dropWhile_length (xs : List α) (p : α → Bool) : (xs.dropWhile p).length ≤ xs.length :=
  (List.dropWhile_suffix p).length_le

/-- An overflow discards the oldest frame and what is left in front of the next I frame. -/
theorem sbufPut_full (wf : q.Wf) (two : 2 ≤ q.totNum) (full : q.isFull = true) (d : SbufData) :
    (sbufPut q d).Wf ∧ (sbufPut q d).totNum = q.totNum ∧ q.toList ≠ [] ∧
      (sbufPut q d).toList = (q.toList.tail.dropWhile fun d => !d.isKey) ++ [d] := by
  have length := (RingQueue.isFull_iff wf).mp full
  have he : q.isEmpty = false := by
    refine Bool.eq_false_iff.mpr fun h => ?_
    have empty := (RingQueue.isEmpty_iff wf).mp h
    rw [← List.length_eq_zero_iff, RingQueue.length_toList] at empty
    omega
  have front := RingQueue.toList_pop wf he
  have shorter := RingQueue.length_pop wf he
  obtain ⟨wf', tot, list⟩ := sbufSkip_spec q.totNum wf.pop (by omega)
  have room : (sbufSkip q.totNum q.pop).isFull = false := by
    refine Bool.eq_false_iff.mpr fun h => ?_
    have whole := (RingQueue.isFull_iff wf').mp h
    have bound := dropWhile_length q.pop.toList fun d => !d.isKey
    rw [← list, RingQueue.length_toList, RingQueue.length_toList] at bound
    rw [tot, RingQueue.totNum_pop] at whole
    omega
  rw [sbufPut, if_pos full]
  refine ⟨wf'.push d, tot, ?_, ?_⟩
  · rw [front]
    exact List.cons_ne_nil _ _
  · rw [RingQueue.toList_push wf' room, list, front, List.tail_cons]

theorem sbufPut_room (wf : q.Wf) (room : q.isFull = false) (d : SbufData) :
    (sbufPut q d).Wf ∧ (sbufPut q d).totNum = q.totNum ∧ (sbufPut q d).toList = q.toList ++ [d] := by
  rw [sbufPut_of_room room]
  exact ⟨wf.push d, rfl, RingQueue.toList_push wf room d⟩

end put

section history

/-- What has been delivered, when each item taken from the front was delivered or discarded. -/
def delivered : List α → List Bool → List α
  | a :: as, true :: fate => a :: delivered as fate
  | _ :: as, false :: fate => delivered as fate
  | _, _ => []

@[simp] theorem delivered_nil (as : List α) : delivered as [] = [] := by
  cases as <;> rfl

theorem delivered_put (as bs : List α) (fate : List Bool) (h : fate.length ≤ as.length) :
    delivered (as ++ bs) fate = delivered as fate := by
  induction as generalizing fate with
  | nil =>
    have empty : fate = [] := List.length_eq_zero_iff.mp (Nat.le_zero.mp h)
    subst empty
    cases bs <;> rfl
  | cons a as ih =>
    cases fate with
    | nil => rfl
    | cons f fate =>
      have same := ih fate (Nat.le_of_succ_le_succ h)
      cases f with
      | true => exact congrArg (a :: ·) same
      | false => exact same

theorem delivered_get (as : List α) (fate : List Bool) (h : as.drop fate.length = a :: rest) :
    delivered as (fate ++ [true]) = delivered as fate ++ [a] := by
  induction fate generalizing as with
  | nil =>
    cases as with
    | nil => cases h
    | cons b as =>
      cases h
      change a :: delivered rest [] = delivered (a :: rest) [] ++ [a]
      rw [delivered_nil, delivered_nil, List.nil_append]
  | cons f fate ih =>
    cases as with
    | nil =>
      rw [List.drop_nil] at h
      cases h
    | cons b as =>
      cases f with
      | true => exact congrArg (b :: ·) (ih as h)
      | false => exact ih as h

theorem delivered_discard (as : List α) (fate : List Bool) (n : Nat) :
    delivered as (fate ++ List.replicate n false) = delivered as fate := by
  induction fate generalizing as with
  | nil =>
    induction n generalizing as with
    | zero => rfl
    | succ n ih =>
      cases as with
      | nil => rfl
      | cons a as =>
        refine (ih as).trans ?_
        cases as <;> rfl
  | cons f fate ih =>
    cases as with
    | nil => rfl
    | cons a as =>
      cases f with
      | true => exact congrArg (a :: ·) (ih as)
      | false => exact ih as

/-- What has been delivered keeps the order of the puts. -/
theorem delivered_sublist (as : List α) (fate : List Bool) : (delivered as fate).Sublist as := by
  induction as generalizing fate with
  | nil => cases fate <;> exact List.Sublist.slnil
  | cons a as ih =>
    cases fate with
    | nil => exact List.nil_sublist _
    | cons f fate =>
      cases f with
      | true => exact (ih fate).cons_cons a
      | false => exact (ih fate).cons a

end history

/-- A queue with all that was put, all that was delivered, and the fate of each item that has
left the queue, in the order of the puts. -/
structure SbufRun where
  sbuf : Sbuf
  puts : List SbufData
  out : List SbufData
  fate : List Bool

namespace SbufRun

def step (r : SbufRun) : QueueOp SbufData → SbufRun
  | .put d =>
    { sbuf := sbufPut r.sbuf d
      puts := r.puts ++ [d]
      out := r.out
      fate := r.fate ++ List.replicate (r.sbuf.length + 1 - (sbufPut r.sbuf d).length) false }
  | .get =>
    match sbufGet r.sbuf with
    | none => r
    | some (d, sbuf) => { r with sbuf, out := r.out ++ [d], fate := r.fate ++ [true] }

def runs (totNum : Nat) : Lts SbufRun (QueueOp SbufData) where
  init r := r = ⟨sbufInit totNum, [], [], []⟩
  step r op r' := r' = r.step op

/-- No P frame overflows a queue that has no I frame behind its oldest frame. -/
def Keyed (r : SbufRun) : QueueOp SbufData → Prop
  | .put d => r.sbuf.isFull = true → d.isKey = true ∨ ∃ a : SbufData, a ∈ r.sbuf.toList.tail ∧ a.isKey = true
  | .get => True

/-- Items leave from the front only, and what was delivered is in the order of the puts. -/
structure InOrder (r : SbufRun) : Prop where
  queued : r.sbuf.toList = r.puts.drop r.fate.length
  left : r.fate.length ≤ r.puts.length
  out : r.out = delivered r.puts r.fate

/-- Behind a discarded frame the next one to be delivered is an I frame. -/
def Resumes (r : SbufRun) : Prop :=
  r.fate.getLast? = some false → ∃ d : SbufData, d ∈ r.sbuf.toList.head? ∧ d.isKey = true

/-- Between a discarded frame and a frame delivered later another group has begun. -/
def Whole (r : SbufRun) : Prop :=
  ∀ j k : Nat, j < k → r.fate[j]? = some false → r.fate[k]? = some true →
    ∃ i, j < i ∧ i ≤ k ∧ ∃ d : SbufData, d ∈ r.puts[i]? ∧ d.isKey = true

section order

variable {r : SbufRun} {totNum : Nat}

structure Sound (totNum : Nat) (r : SbufRun) : Prop extends InOrder r where
  wf : r.sbuf.Wf
  tot : r.sbuf.totNum = totNum

theorem sound_init (two : 2 ≤ totNum) : Sound totNum ⟨sbufInit totNum, [], [], []⟩ := by
  have lt : 0 < totNum := by omega
  exact ⟨⟨rfl, Nat.le_refl 0, rfl⟩, ⟨lt, lt⟩, rfl⟩

theorem drop_put {as : List α} {fate : List Bool} (h : fate.length ≤ as.length) (a : α) (n : Nat)
    (hn : n ≤ as.length - fate.length) :
    (as ++ [a]).drop (fate ++ List.replicate n false).length = (as.drop fate.length).drop n ++ [a] := by
  rw [List.length_append, List.length_replicate, List.drop_append_of_le_length (by omega), List.drop_drop]

/-- What an overflow has discarded. -/
theorem discarded_full (s : Sound totNum r) (two : 2 ≤ totNum) (full : r.sbuf.isFull = true) (d : SbufData) :
    ∃ n, r.sbuf.length + 1 - (sbufPut r.sbuf d).length = n + 1 ∧ n + 1 ≤ r.sbuf.length ∧
      (sbufPut r.sbuf d).toList = r.sbuf.toList.drop (n + 1) ++ [d] := by
  obtain ⟨_, _, some, list⟩ := sbufPut_full s.wf (s.tot ▸ two) full d
  obtain ⟨a, rest, eq⟩ := List.exists_cons_of_ne_nil some
  rw [eq, List.tail_cons] at list
  have split := List.takeWhile_append_dropWhile (p := fun d : SbufData => !d.isKey) (l := rest)
  have long := congrArg List.length split
  rw [List.length_append] at long
  have size : (sbufPut r.sbuf d).length = (rest.dropWhile fun d => !d.isKey).length + 1 := by
    rw [← RingQueue.length_toList, list, List.length_append, List.length_singleton]
  have old : r.sbuf.length = rest.length + 1 := by
    rw [← RingQueue.length_toList, eq, List.length_cons]
  refine ⟨(rest.takeWhile fun d => !d.isKey).length, by omega, by omega, ?_⟩
  rw [list, eq, List.drop_succ_cons]
  generalize rest.takeWhile (fun d => !d.isKey) = skipped at split
  generalize rest.dropWhile (fun d => !d.isKey) = kept at split
  rw [← split, List.drop_left]

theorem discarded_room (s : Sound totNum r) (room : r.sbuf.isFull = false) (d : SbufData) :
    r.sbuf.length + 1 - (sbufPut r.sbuf d).length = 0 := by
  obtain ⟨_, _, list⟩ := sbufPut_room s.wf room d
  have length := congrArg List.length list
  rw [RingQueue.length_toList, List.length_append, RingQueue.length_toList, List.length_singleton] at length
  omega

theorem Sound.put (s : Sound totNum r) (two : 2 ≤ totNum) (d : SbufData) :
    Sound totNum (r.step (.put d)) := by
  have size : r.sbuf.length = r.puts.length - r.fate.length := by
    rw [← RingQueue.length_toList, s.queued, List.length_drop]
  have left := s.left
  cases hf : r.sbuf.isFull with
  | true =>
    obtain ⟨wf, tot, _, _⟩ := sbufPut_full s.wf (s.tot ▸ two) hf d
    obtain ⟨n, count, le, list⟩ := discarded_full s two hf d
    refine ⟨⟨?_, ?_, ?_⟩, wf, tot.trans s.tot⟩
    · simp only [step, count]
      rw [drop_put left d (n + 1) (by omega), list, s.queued]
    · simp only [step, count, List.length_append, List.length_replicate, List.length_singleton]
      omega
    · simp only [step]
      rw [delivered_discard, delivered_put _ _ _ left, s.out]
  | false =>
    obtain ⟨wf, tot, list⟩ := sbufPut_room s.wf hf d
    have count := discarded_room s hf d
    refine ⟨⟨?_, ?_, ?_⟩, wf, tot.trans s.tot⟩
    · simp only [step, count]
      rw [drop_put left d 0 (Nat.zero_le _), list, s.queued, List.drop_zero]
    · simp only [step, count, List.length_append, List.length_replicate, List.length_singleton]
      omega
    · simp only [step]
      rw [delivered_discard, delivered_put _ _ _ left, s.out]

/-- A get delivers the front, if there is one. -/
theorem step_get (s : Sound totNum r) :
    r.sbuf.toList = [] ∧ r.step .get = r ∨
      ∃ d, r.sbuf.toList = d :: r.sbuf.pop.toList ∧
        r.step .get = { r with sbuf := r.sbuf.pop, out := r.out ++ [d], fate := r.fate ++ [true] } := by
  rcases sbuf_cases s.wf with ⟨empty, get, _⟩ | ⟨d, list, get, _⟩
  · exact .inl ⟨empty, by simp only [step, get]⟩
  · exact .inr ⟨d, list, by simp only [step, get]⟩

theorem Sound.get (s : Sound totNum r) : Sound totNum (r.step .get) := by
  rcases step_get s with ⟨_, eq⟩ | ⟨d, list, eq⟩
  · rw [eq]
    exact s
  · rw [eq]
    have queued := s.queued.symm.trans list
    have length := congrArg List.length queued
    rw [List.length_drop, List.length_cons] at length
    have left := s.left
    refine ⟨⟨?_, ?_, ?_⟩, s.wf.pop, s.tot⟩
    · change r.sbuf.pop.toList = r.puts.drop (r.fate ++ [true]).length
      rw [List.length_append, List.length_singleton, ← List.drop_drop, queued]
      rfl
    · change (r.fate ++ [true]).length ≤ r.puts.length
      rw [List.length_append, List.length_singleton]
      omega
    · change r.out ++ [d] = delivered r.puts (r.fate ++ [true])
      rw [delivered_get _ _ queued, s.out]

theorem sound_inductive (two : 2 ≤ totNum) (ok : SbufRun → QueueOp SbufData → Prop) :
    (runs totNum).Inductive ok (Sound totNum) where
  init h := h ▸ sound_init two
  step {r op r'} s _ h := by
    subst h
    cases op with
    | put d => exact s.put two d
    | get => exact s.get

end order

section groups

variable {r : SbufRun} {totNum : Nat}

/-- Behind every discarded frame a group has begun, with the front of the queue at the latest. -/
def Begun (r : SbufRun) : Prop :=
  ∀ j : Nat, r.fate[j]? = some false →
    ∃ i, j < i ∧ i ≤ r.fate.length ∧ ∃ d : SbufData, d ∈ r.puts[i]? ∧ d.isKey = true

theorem getElem?_put {as : List α} {a : α} {i : Nat} (h : a ∈ as[i]?) (b : α) : a ∈ (as ++ [b])[i]? := by
  obtain ⟨lt, _⟩ := List.getElem?_eq_some_iff.mp h
  rw [List.getElem?_append_left lt]
  exact h

theorem fate_discard {fate : List Bool} {j : Nat} (h : (fate ++ List.replicate n false)[j]? = some f) :
    fate[j]? = some f ∨ f = false ∧ fate.length ≤ j ∧ j < fate.length + n := by
  rw [List.getElem?_append] at h
  split at h
  · exact .inl h
  · obtain ⟨lt, eq⟩ := List.getElem?_eq_some_iff.mp h
    rw [List.getElem_replicate] at eq
    rw [List.length_replicate] at lt
    exact .inr ⟨eq.symm, by omega, by omega⟩

theorem fate_get {fate : List Bool} {j : Nat} (h : (fate ++ [true])[j]? = some f) :
    fate[j]? = some f ∨ f = true ∧ j = fate.length := by
  rw [List.getElem?_append] at h
  split at h
  · exact .inl h
  · obtain ⟨lt, eq⟩ := List.getElem?_eq_some_iff.mp h
    rw [List.length_singleton] at lt
    rw [List.getElem_singleton] at eq
    exact .inr ⟨eq.symm, by omega⟩

/-- The frame in front after a put that overflows. -/
theorem front_full (s : Sound totNum r) (two : 2 ≤ totNum) (full : r.sbuf.isFull = true) (d : SbufData) :
    (∃ a : SbufData, a ∈ (r.step (.put d)).sbuf.toList.head? ∧ a.isKey = true) ↔ r.Keyed (.put d) := by
  obtain ⟨_, _, _, list⟩ := sbufPut_full s.wf (s.tot ▸ two) full d
  simp only [step, Keyed]
  rw [list]
  generalize r.sbuf.toList.tail = rest
  cases hd : rest.dropWhile fun d => !d.isKey with
  | nil =>
    have none_ : ∀ a ∈ rest, ¬ a.isKey = true := by
      intro a ha hk
      have skipped := List.dropWhile_eq_nil_iff.mp hd a ha
      rw [hk] at skipped
      cases skipped
    constructor
    · rintro ⟨a, ha, hk⟩ _
      have eq : d = a := Option.some.inj ha
      exact .inl (eq ▸ hk)
    · intro h
      rcases h full with h | ⟨a, ha, hk⟩
      · exact ⟨d, rfl, h⟩
      · exact absurd hk (none_ a ha)
  | cons a as =>
    have ne : rest.dropWhile (fun d => !d.isKey) ≠ [] := by
      rw [hd]
      exact List.cons_ne_nil _ _
    have stops : ¬ (!a.isKey) = true := by
      have head := List.head_dropWhile_not (fun d : SbufData => !d.isKey) ne
      simp only [hd, List.head_cons] at head
      rw [head]
      nofun
    have key : a.isKey = true := by
      cases hk : a.isKey with
      | true => rfl
      | false => exact absurd (by rw [hk]; rfl) stops
    have mem : a ∈ rest := by
      refine (List.dropWhile_suffix (fun d : SbufData => !d.isKey)).subset ?_
      rw [hd]
      exact List.mem_cons_self
    exact ⟨fun _ _ => .inr ⟨a, mem, key⟩, fun _ => ⟨a, rfl, key⟩⟩

theorem front_puts (s : Sound totNum r) (h : d ∈ r.sbuf.toList.head?) : d ∈ r.puts[r.fate.length]? := by
  rw [s.queued, List.head?_drop] at h
  exact h

theorem Begun.put (b : Begun r) (s : Sound totNum r) (two : 2 ≤ totNum) (keyed : r.Keyed (.put d)) :
    Begun (r.step (.put d)) := by
  intro j hj
  rcases fate_discard hj with hj | ⟨_, le, lt⟩
  · obtain ⟨i, ji, il, a, ha, hk⟩ := b j hj
    refine ⟨i, ji, ?_, a, getElem?_put ha d, hk⟩
    simp only [step, List.length_append]
    omega
  · have full : r.sbuf.isFull = true := by
      by_contra room
      rw [discarded_room s (Bool.eq_false_iff.mpr room) d] at lt
      omega
    obtain ⟨a, ha, hk⟩ := (front_full s two full d).mpr keyed
    refine ⟨(r.step (.put d)).fate.length, ?_, le_rfl, a, front_puts (s.put two d) ha, hk⟩
    simp only [step, List.length_append, List.length_replicate]
    exact lt

theorem Whole.put (w : Whole r) (d : SbufData) : Whole (r.step (.put d)) := by
  intro j k jk hj hk
  rcases fate_discard hk with hk | ⟨h, _⟩
  · obtain ⟨kl, _⟩ := List.getElem?_eq_some_iff.mp hk
    rcases fate_discard hj with hj | ⟨_, le, _⟩
    · obtain ⟨i, ji, ik, a, ha, key⟩ := w j k jk hj hk
      exact ⟨i, ji, ik, a, getElem?_put ha d, key⟩
    · omega
  · cases h

theorem get_groups (s : Sound totNum r) (b : Begun r) (w : Whole r) :
    Begun (r.step .get) ∧ Whole (r.step .get) := by
  rcases step_get s with ⟨_, eq⟩ | ⟨d, _, eq⟩
  · rw [eq]
    exact ⟨b, w⟩
  · rw [eq]
    refine ⟨fun j hj => ?_, fun j k jk hj hk => ?_⟩
    · rcases fate_get hj with hj | ⟨h, _⟩
      · obtain ⟨i, ji, il, a, ha, key⟩ := b j hj
        refine ⟨i, ji, ?_, a, ha, key⟩
        change i ≤ (r.fate ++ [true]).length
        rw [List.length_append]
        omega
      · cases h
    · rcases fate_get hj with hj | ⟨h, _⟩
      · rcases fate_get hk with hk | ⟨_, hk⟩
        · exact w j k jk hj hk
        · obtain ⟨i, ji, il, rest⟩ := b j hj
          exact ⟨i, ji, hk ▸ il, rest⟩
      · cases h

theorem Begun.resumes (b : Begun r) (s : Sound totNum r) : Resumes r := by
  intro last
  have pos : 0 < r.fate.length := by
    rw [List.length_pos_iff]
    rintro h
    rw [h] at last
    cases last
  rw [List.getLast?_eq_getElem?] at last
  obtain ⟨i, ji, il, d, hd, key⟩ := b _ last
  have front : i = r.fate.length := by omega
  subst front
  refine ⟨d, ?_, key⟩
  rw [s.queued, List.head?_drop]
  exact hd

end groups

/-- Frames come out in the order of the puts, each at most once, and only the oldest are discarded.
As long as no P frame overflows a queue without an I frame behind its oldest frame, an I frame comes
next and no group is delivered in part; and such a put leaves a P frame in front. -/
theorem sbuf_groups (totNum : Nat) (two : 2 ≤ totNum) (r : SbufRun) (h : Reach (runs totNum) Keyed r) :
    InOrder r ∧ Resumes r ∧ Whole r ∧
      ∀ d, r.sbuf.isFull = true →
        ((∃ a : SbufData, a ∈ (r.step (.put d)).sbuf.toList.head? ∧ a.isKey = true) ↔ r.Keyed (.put d)) := by
  have sound := (sound_inductive two Keyed).reach h
  have groups : Begun r ∧ Whole r := by
    refine (sound_inductive two Keyed).reach_of (I := fun r => Begun r ∧ Whole r) ?_ ?_ h
    · rintro r rfl
      exact ⟨nofun, nofun⟩
    · rintro r op r' s ⟨b, w⟩ ok rfl
      cases op with
      | put d => exact ⟨b.put s two ok, w.put d⟩
      | get => exact get_groups s b w
  exact ⟨sound.toInOrder, groups.1.resumes sound, groups.2, fun d full => front_full sound two full d⟩

section sample

def keyFrame : SbufData := ⟨0, 1, 1, .h264I⟩
def nextFrame : SbufData := ⟨0, 1, 0, .h264P⟩

/-- An I frame of a queue with room for one overflows into a P frame of its group. -/
theorem sbuf_groups_cut : ¬ ∀ (totNum : Nat) (r : SbufRun), 2 ≤ totNum → Reach (runs totNum) Lts.any r →
    InOrder r ∧ Resumes r ∧ Whole r := by
  intro all
  have run : Reach (runs 2) Lts.any ([.put keyFrame, .put nextFrame].foldl step ⟨sbufInit 2, [], [], []⟩) :=
    Reach.foldl (fun _ _ => rfl) (.init rfl) (allowed_any _ _)
  obtain ⟨d, hd, key⟩ := (all 2 _ (by decide) run).2.1 (by decide)
  have front : d = nextFrame := Option.some.inj (hd.symm.trans (by decide))
  rw [front] at key
  cases key

theorem sbuf_groups_key : ∃ r, Reach (runs 2) Keyed r ∧ r.fate = [false] ∧ Resumes r := by
  have room : Keyed ⟨sbufInit 2, [], [], []⟩ (.put nextFrame) := fun full => by cases full
  have first : Reach (runs 2) Keyed (step ⟨sbufInit 2, [], [], []⟩ (.put nextFrame)) :=
    .step (.init rfl) room rfl
  have key : Keyed (step ⟨sbufInit 2, [], [], []⟩ (.put nextFrame)) (.put keyFrame) := fun _ => .inl rfl
  have run : Reach (runs 2) Keyed (step (step ⟨sbufInit 2, [], [], []⟩ (.put nextFrame)) (.put keyFrame)) :=
    first.step key rfl
  exact ⟨_, run, by decide, (sbuf_groups 2 (by decide) _ run).2.1⟩

end sample

end SbufRun

end En675.Videnc
