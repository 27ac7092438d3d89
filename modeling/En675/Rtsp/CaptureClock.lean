import En675.Rtsp.Refill
import En675.Rtsp.RtpTime
import Mathlib.Data.Nat.ModEq

/-! The timestamps of one session beside the clock of the encoder, which is the sum of the increments of
all the frames that it has made. -/

namespace En675.Rtsp

open Lib

/-- A packet that was sent, by its frame and its timestamp. -/
structure Stamp where
  frame : Frame
  time : Nat
  deriving DecidableEq

structure Clocked where
  d : Delivery
  /-- The `ts` of the frames that the encoder has made, by stream. -/
  increments : RtspStream → List Nat
  /-- The frame that was taken last. -/
  inHand : Option Frame
  packets : List Stamp

namespace Clocked

def frame (c : Clocked) (m : StreamMsg) (addr size ts : Nat) : Clocked :=
  { c with
    d := c.d.frame m addr size ts
    increments := Function.update c.increments m.videoType (c.increments m.videoType ++ [ts]) }

def current (rc : RtspClient) : List UInt8 :=
  match rc.rtpSs with
  | some s => s.video.buffer s.video.bufIdx
  | none => []

/-- A call of the sender. -/
def turn (mem : Mem) (c : Clocked) : Option Clocked :=
  (c.d.turn mem).map fun d =>
    let taken := c.d.rc.rtpQueueVideo.length - d.rc.rtpQueueVideo.length
    let inHand := if taken = 0 then c.inHand else c.d.pending.head?
    { c with
      d, inHand
      packets :=
        if Delivery.startSeq d.rc = Delivery.startSeq c.d.rc then c.packets
        else c.packets ++ (inHand.map fun f => ⟨f, rtpTime c.d.rc.eTransport (current d.rc)⟩).toList }

/-- The sum of the increments behind the `i`th frame up to the `j`th. -/
def elapsed (increments : List Nat) (i j : Nat) : Nat := ((increments.drop (i + 1)).take (j - i)).sum

/-- The timestamps of any two packets of a stream are as far apart as their frames. -/
def Follows (c : Clocked) : Prop :=
  ∀ a ∈ c.packets, ∀ b ∈ c.packets, a.frame.msg.videoType = b.frame.msg.videoType → a.frame.n ≤ b.frame.n →
    b.time ≡ a.time + elapsed (c.increments a.frame.msg.videoType) a.frame.n b.frame.n [MOD 2 ^ 32]

end Clocked

/-- The steps that make no frame and send none. -/
def DeliveryEvent.quiet : DeliveryEvent → Prop
  | .frame .. | .turn _ => False
  | _ => True

inductive ClockedStep (c : Clocked) : DeliveryEvent → Clocked → Prop
  | frame : ClockedStep c (.frame m addr size ts) (c.frame m addr size ts)
  | turn : c.turn mem = some c' → ClockedStep c (.turn mem) c'
  | quiet : l.quiet → DeliveryStep c.d l d → ClockedStep c l { c with d }

def clocked (mode : RtspdAuth) : Lts Clocked DeliveryEvent where
  init c := (delivery mode).init c.d ∧ (∀ v, (c.increments v).length = c.d.made v) ∧ c.inHand = none ∧
    c.packets = []
  step := ClockedStep

namespace Clocked

/-- The steps are those of the delivery. -/
theorem delivery_step (h : ClockedStep c l c') : DeliveryStep c.d l c'.d := by
  cases h with
  | frame => exact .frame
  | turn h =>
    rw [Clocked.turn, Option.map_eq_some_iff] at h
    obtain ⟨d, hd, rfl⟩ := h
    exact .turn hd
  | quiet _ h => exact h

/-- The frames in the queue that will be let through, each with the increments of those behind it. -/
def waits : Bool → List Frame → List Stamp
  | _, [] => []
  | gate, f :: fs => if !gate && f.isP then waits gate fs else ⟨f, (fs.map Frame.ts).sum⟩ :: waits true fs

/-- What is still to be added to the clock of the session. -/
def backlog (c : Clocked) : Nat := (c.d.pending.map Frame.ts).sum

/-- The session can send no more. -/
def Ended (c : Clocked) : Prop := c.d.rc.rtpSs = none ∧ ¬ c.d.rc.state.Lively

/-- No increment is lost between two frames that are sent: a frame of the session's stream that is not
queued, or that is lost with the queue, and no timestamp is drawn between them. -/
def Accounts (c : Clocked) : DeliveryEvent → Prop
  | .frame m _ _ ts => ¬ c.Ended →
    if c.d.rc.streams m.videoType then
      c.d.rc.rtpQueueVideo.isFull = true → c.packets ≠ [] → c.backlog + ts ≡ 0 [MOD 2 ^ 32]
    else
      m.videoType = c.d.rc.isLive → c.packets ≠ [] ∨ waits c.d.rc.gate c.d.pending ≠ [] → ts ≡ 0 [MOD 2 ^ 32]
  | .request e buf => c.packets ≠ [] → requestRefills e c.d.rc buf = false
  | _ => True

section waits

theorem waits_mono (gate : Bool) (fs : List Frame) (h : a ∈ waits gate fs) : a ∈ waits true fs := by
  cases gate with
  | true => exact h
  | false =>
    induction fs with
    | nil => exact h
    | cons f fs ih =>
      rw [waits] at h ⊢
      split at h
      · exact List.mem_cons_of_mem _ (ih h)
      · exact h

theorem waits_head (gate : Bool) (fs : List Frame) (through : gate = true ∨ f.isP = false) :
    waits gate (f :: fs) = ⟨f, (fs.map Frame.ts).sum⟩ :: waits true fs := by
  rw [waits, if_neg]
  rcases through with rfl | h
  · exact nofun
  · rw [h, Bool.and_false]
    exact nofun

theorem waits_refused (fs : List Frame) (h : f.isP = true) : waits false (f :: fs) = waits false fs := by
  rw [waits, h]
  rfl

theorem mem_waits (h : a ∈ waits gate fs) : a.frame ∈ fs := by
  induction fs generalizing gate with
  | nil => cases h
  | cons f fs ih =>
    rw [waits] at h
    split at h
    · exact List.mem_cons_of_mem _ (ih h)
    · rcases List.mem_cons.mp h with rfl | h
      · exact List.mem_cons_self
      · exact List.mem_cons_of_mem _ (ih h)

/-- A frame behind all the others is behind each of them, and the last that waits. -/
theorem waits_append (h : a ∈ waits gate (fs ++ [g])) :
    (∃ b ∈ waits gate fs, b.frame = a.frame ∧ a.time = b.time + g.ts) ∨ a = ⟨g, 0⟩ := by
  induction fs generalizing gate with
  | nil =>
    rw [List.nil_append, waits] at h
    split at h
    · cases h
    · exact .inr (List.mem_singleton.mp h)
  | cons f fs ih =>
    rw [List.cons_append, waits] at h
    rw [waits]
    split at h
    · rename_i refused
      rw [if_pos refused]
      exact ih h
    · rename_i through
      rw [if_neg through]
      rcases List.mem_cons.mp h with rfl | h
      · refine .inl ⟨_, List.mem_cons_self, rfl, ?_⟩
        rw [List.map_append, List.sum_append]
        rfl
      · rcases ih h with ⟨b, hb, same⟩ | h
        · exact .inl ⟨b, List.mem_cons_of_mem _ hb, same⟩
        · exact .inr h

end waits

section turned

/-- What a call of the sender does to the queue, the gate, the clock of the session and the packets. -/
inductive Moved (c c' : Clocked) (s : RtpSs) (v : RtpSession) : Prop
  | kept : c'.d.rc.rtpQueueVideo = c.d.rc.rtpQueueVideo → c'.d.pending = c.d.pending →
      c'.d.rc.gate = c.d.rc.gate → v.startRtptime = s.video.startRtptime → c'.inHand = c.inHand →
      (v.txReady = .doing → s.video.txReady = .doing) →
      (c'.packets = c.packets ∨ s.video.txReady = .doing ∧
        c'.packets = c.packets ++ (c.inHand.map fun f => ⟨f, s.video.startRtptime % 2 ^ 32⟩).toList) →
      Moved c c' s v
  | refused (f : Frame) (fs : List Frame) : c.d.pending = f :: fs → c'.d.pending = fs →
      c.d.rc.gate = false → f.isP = true → c'.d.rc.gate = false →
      v.startRtptime = uadd s.video.startRtptime f.ts → v.txReady ≠ .doing → c'.packets = c.packets →
      Moved c c' s v
  | through (f : Frame) (fs : List Frame) : c.d.pending = f :: fs → c'.d.pending = fs →
      (c.d.rc.gate = true ∨ f.isP = false) → v.startRtptime = uadd s.video.startRtptime f.ts →
      c'.inHand = some f →
      (c'.packets = c.packets ++ [⟨f, v.startRtptime % 2 ^ 32⟩] ∨
        v.txReady ≠ .doing ∧ c'.packets = c.packets) → Moved c c' s v

/-- The rest of a slot that a call of the sender leaves. -/
structure Turned (c c' : Clocked) (s : RtpSs) (v : RtpSession) : Prop where
  block : c.d.rc.rtpSs = some s
  block' : c'.d.rc.rtpSs = some { s with video := v }
  live : c'.d.rc.isLive = c.d.rc.isLive
  made : c'.d.made = c.d.made
  increments : c'.increments = c.increments
  held : Delivery.Held c'.d
  moved : Moved c c' s v

theorem withVideo_inj {rc : RtspClient} (h : rc.withVideo s q v = rc.withVideo s q' v') : q = q' ∧ v = v' := by
  have queue := congrArg RtspClient.rtpQueueVideo h
  have block := congrArg RtspClient.rtpSs h
  exact ⟨queue, congrArg RtpSs.video (Option.some.inj block)⟩

theorem turn_turned {c c' : Clocked} (held : Delivery.Held c.d) (h : c.turn mem = some c') :
    ∃ s v, Turned c c' s v := by
  rw [Clocked.turn, Option.map_eq_some_iff] at h
  obtain ⟨d, hd, rfl⟩ := h
  rw [Delivery.turn, Option.map_eq_some_iff] at hd
  obtain ⟨⟨r, rc⟩, hv, rfl⟩ := hd
  obtain ⟨s, hs, _⟩ := Option.bind_eq_some_iff.mp hv
  obtain ⟨q, v, rfl, fetched⟩ := videoPlay_fetched hs hv
  obtain ⟨q', v', same, timed, stamped⟩ := videoPlay_timed hs hv
  obtain ⟨rfl, rfl⟩ := withVideo_inj same
  have gate := Delivery.gate_of_some hs
  have seq : Delivery.startSeq c.d.rc = some s.video.startSeq := by rw [Delivery.startSeq, hs, Option.map_some]
  have seq' : Delivery.startSeq (c.d.rc.withVideo s q v) = some v.startSeq := rfl
  have gate' : (c.d.rc.withVideo s q v).gate = (v.rtpPk.nalfirst != 0) := rfl
  have queue' : (c.d.rc.withVideo s q v).rtpQueueVideo = q := rfl
  have current' : current (c.d.rc.withVideo s q v) = v.buffer v.bufIdx := rfl
  cases timed with
  | kept queue time built doing =>
    have gate_same : v.rtpPk.nalfirst = s.video.rtpPk.nalfirst := by
      cases fetched with
      | kept _ gate => exact gate
      | refused pd get | opened pd get | picture pd get =>
        obtain ⟨_, _, _, _, _, _, one⟩ := held.front get
        rw [queue, Nat.sub_self] at one
        cases one
    have none_ : c.d.rc.rtpQueueVideo.length - (c.d.rc.withVideo s q v).rtpQueueVideo.length = 0 := by
      rw [queue', queue, Nat.sub_self]
    have still : Delivery.Held { c.d with rc := c.d.rc.withVideo s q v } :=
      ⟨queue ▸ held.wf, queue ▸ held.items, held.stream⟩
    refine ⟨s, v, hs, rfl, rfl, rfl, rfl, ?_, .kept queue ?_ (gate'.trans ?_) time ?_ doing ?_⟩
    · refine ⟨still.wf, ?_, fun f hf => ?_⟩
      · dsimp only
        rw [none_]
        exact still.items
      · dsimp only at hf
        rw [none_] at hf
        exact still.stream f hf
    · dsimp only
      rw [none_]
      rfl
    · rw [gate_same, gate]
    · dsimp only
      rw [if_pos none_]
    · dsimp only
      rw [seq, seq', if_pos none_, current']
      by_cases built_ : v.startSeq = s.video.startSeq
      · exact .inl (if_pos (congrArg some built_))
      · refine .inr ⟨built built_, ?_⟩
        rw [if_neg fun h => built_ (Option.some.inj h), stamped built_, time]
  | taken pd get time doing =>
    obtain ⟨f, fs, pending, rfl, wf, items, one⟩ := held.front get
    have taken : c.d.rc.rtpQueueVideo.length - (c.d.rc.withVideo s q v).rtpQueueVideo.length = 1 := one
    have behind : Delivery.Held { c.d with rc := c.d.rc.withVideo s q v, pending := fs } :=
      ⟨wf, items, fun g hg => held.stream g (pending ▸ List.mem_cons_of_mem _ hg)⟩
    refine ⟨s, v, hs, rfl, rfl, rfl, rfl, ?_, ?_⟩
    · refine ⟨behind.wf, ?_, fun g hg => ?_⟩
      · dsimp only
        rw [taken, pending]
        exact behind.items
      · dsimp only at hg
        rw [taken, pending] at hg
        exact behind.stream g hg
    · have rest : c.d.pending.drop (c.d.rc.rtpQueueVideo.length -
          (c.d.rc.withVideo s q v).rtpQueueVideo.length) = fs := by rw [taken, pending]; rfl
      have hand : (if c.d.rc.rtpQueueVideo.length - (c.d.rc.withVideo s q v).rtpQueueVideo.length = 0 then
          c.inHand else c.d.pending.head?) = some f := by rw [taken, pending]; rfl
      have sent : (if some v.startSeq = some s.video.startSeq then c.packets else
            c.packets ++ ((some f).map fun f =>
              (⟨f, rtpTime c.d.rc.eTransport (v.buffer v.bufIdx)⟩ : Stamp)).toList) =
          if v.startSeq = s.video.startSeq then c.packets else c.packets ++ [⟨f, v.startRtptime % 2 ^ 32⟩] := by
        by_cases built : v.startSeq = s.video.startSeq
        · rw [if_pos built, if_pos (congrArg some built)]
        · rw [if_neg built, if_neg fun h => built (Option.some.inj h), stamped built]
          rfl
      cases fetched with
      | kept queue =>
        rw [queue, Nat.sub_self] at one
        cases one
      | refused pd get' closed flags gate₁ same_seq =>
        obtain ⟨rfl, _⟩ := Prod.mk.inj (Option.some.inj (get.symm.trans get'))
        refine .refused f fs pending rest ?_ ((Delivery.flags_isP f).mp flags) ?_ time
          (fun h => doing h same_seq) ?_
        · rw [gate, closed]
          rfl
        · rw [gate', gate₁]
          rfl
        · dsimp only
          rw [seq, seq', if_pos (congrArg some same_seq)]
      | opened pd get' admits gate₁ other =>
        obtain ⟨rfl, _⟩ := Prod.mk.inj (Option.some.inj (get.symm.trans get'))
        refine .through f fs pending rest ?_ time hand (.inl ?_)
        · rcases admits with h | h
          · left
            rw [gate]
            exact bne_iff_ne.mpr h
          · right
            exact Bool.eq_false_iff.mpr fun hp => (Delivery.flags_isP f).mpr hp h
        · dsimp only
          rw [seq, seq', hand, current', sent, if_neg other]
      | picture pd get' live gate₁ =>
        have key : f.isP = false := by
          have stream := (held.stream f (pending ▸ List.mem_cons_self)).trans live
          obtain ⟨m, _⟩ := f
          cases m <;> first | rfl | cases stream
        refine .through f fs pending rest (.inr key) time hand ?_
        dsimp only
        rw [seq, seq', hand, current', sent]
        by_cases built : v.startSeq = s.video.startSeq
        · exact .inr ⟨fun h => doing h built, if_pos built⟩
        · exact .inl (if_neg built)

end turned

section mark

/-- The encoder's clock at a frame, and now. -/
def mark (c : Clocked) (f : Frame) : Nat := ((c.increments f.msg.videoType).take (f.n + 1)).sum

def total (c : Clocked) : Nat := (c.increments c.d.rc.isLive).sum

theorem take_elapsed (l : List Nat) (h : i ≤ j) : (l.take (j + 1)).sum = (l.take (i + 1)).sum + elapsed l i j := by
  obtain ⟨k, rfl⟩ := Nat.exists_eq_add_of_le h
  rw [elapsed, Nat.add_sub_cancel_left, show i + k + 1 = i + 1 + k by omega, List.take_add, List.sum_append]

variable {c : Clocked}

@[simp] theorem frame_increments : (c.frame m addr size ts).increments =
    Function.update c.increments m.videoType (c.increments m.videoType ++ [ts]) := rfl

theorem mark_frame {f : Frame} (h : f.n < (c.increments f.msg.videoType).length) :
    (c.frame m addr size ts).mark f = c.mark f := by
  rw [mark, mark, frame_increments]
  by_cases same : f.msg.videoType = m.videoType
  · rw [same] at h ⊢
    rw [Function.update_self, List.take_append_of_le_length h]
  · rw [Function.update_of_ne same]

theorem mark_made (length : ∀ v, (c.increments v).length = c.d.made v) (m : StreamMsg) (addr size ts : Nat) :
    (c.frame m addr size ts).mark ⟨m, c.d.made m.videoType, addr, size, ts⟩ =
      (c.increments m.videoType).sum + ts := by
  rw [mark, frame_increments, Function.update_self, ← length, List.take_of_length_le (by simp), List.sum_append, List.sum_singleton]

theorem frame_isLive : (c.frame m addr size ts).d.rc.isLive = c.d.rc.isLive := by
  unfold Clocked.frame Delivery.frame rtpQueueStreamVideoPut
  dsimp only
  split <;> rfl

theorem total_frame : (c.frame m addr size ts).total =
    c.total + if m.videoType = c.d.rc.isLive then ts else 0 := by
  rw [total, frame_isLive, frame_increments]
  by_cases same : c.d.rc.isLive = m.videoType
  · rw [same, Function.update_self, if_pos rfl, List.sum_append, List.sum_singleton, total, same]
  · rw [Function.update_of_ne same, if_neg fun h => same h.symm]
    rfl

end mark

/-- The frames in the queue and the packets that were sent are as far from the encoder's clock as the
increments that are still to be added. -/
structure Inv (c : Clocked) : Prop where
  held : Delivery.Held c.d
  length : ∀ v, (c.increments v).length = c.d.made v
  made : ∀ f ∈ c.d.pending, f.n < c.d.made f.msg.videoType
  sent : ∀ a ∈ c.packets, a.frame.msg.videoType = c.d.rc.isLive ∧ a.frame.n < c.d.made a.frame.msg.videoType
  gone : c.d.rc.rtpSs = none → c.d.rc.state.Lively → c.packets = []
  hand : ∀ s, c.d.rc.rtpSs = some s → s.video.txReady = .doing →
    ∃ f, c.inHand = some f ∧ ⟨f, s.video.startRtptime % 2 ^ 32⟩ ∈ c.packets
  agree : ∀ a ∈ c.packets, ∀ b ∈ c.packets, c.mark b.frame + a.time ≡ c.mark a.frame + b.time [MOD 2 ^ 32]
  queued : ¬ c.Ended → ∀ w ∈ waits c.d.rc.gate c.d.pending, c.mark w.frame + w.time ≡ c.total [MOD 2 ^ 32]
  clock : ∀ s, c.d.rc.rtpSs = some s → ∀ a ∈ c.packets,
    c.mark a.frame + (s.video.startRtptime + c.backlog) ≡ a.time + c.total [MOD 2 ^ 32]

variable {c c' : Clocked}

theorem Inv.follows (i : Inv c) : c.Follows := by
  intro a ha b hb same le
  have agree := i.agree a ha b hb
  unfold mark at agree
  rw [← same, take_elapsed _ le, Nat.add_assoc] at agree
  have apart := agree.add_left_cancel'
  rw [Nat.add_comm] at apart
  exact apart.symm

/-- Two packets that are both as far from the clock as the session says agree. -/
theorem agree_of_clock {k t x y p q : Nat} (hx : p + k ≡ x + t [MOD 2 ^ 32]) (hy : q + k ≡ y + t [MOD 2 ^ 32]) :
    q + x ≡ p + y [MOD 2 ^ 32] := by
  have sum := hy.add hx.symm
  refine Nat.ModEq.add_right_cancel' (k + t) ?_
  calc q + x + (k + t) = q + k + (x + t) := by ring
    _ ≡ y + t + (p + k) [MOD 2 ^ 32] := sum
    _ = p + y + (k + t) := by ring

section steps

theorem frame_rtpSs (c : Clocked) (m : StreamMsg) (addr size ts : Nat) :
    (c.frame m addr size ts).d.rc.rtpSs = c.d.rc.rtpSs ∧
    (c.frame m addr size ts).d.rc.state = c.d.rc.state ∧
    (c.frame m addr size ts).d.rc.gate = c.d.rc.gate := by
  unfold Clocked.frame Delivery.frame rtpQueueStreamVideoPut
  dsimp only
  split <;> exact ⟨rfl, rfl, rfl⟩

theorem frame_pending (c : Clocked) (m : StreamMsg) (addr size ts : Nat) :
    (c.frame m addr size ts).d.pending =
      if c.d.rc.streams m.videoType then
        if c.d.rc.rtpQueueVideo.isFull then [] else c.d.pending ++ [⟨m, c.d.made m.videoType, addr, size, ts⟩]
      else c.d.pending := rfl

theorem frame_made (c : Clocked) (m : StreamMsg) (addr size ts : Nat) (v : RtspStream) :
    c.d.made v ≤ (c.frame m addr size ts).d.made v := by
  change c.d.made v ≤ Function.update c.d.made m.videoType (c.d.made m.videoType + 1) v
  by_cases same : v = m.videoType
  · subst same
    rw [Function.update_self]
    exact Nat.le_succ _
  · rw [Function.update_of_ne same]

/-- What a frame adds to the clocks keeps the distances. -/
structure Keeps (c : Clocked) (m : StreamMsg) (addr size ts : Nat) : Prop where
  queued : ¬ c.Ended → ∀ w ∈ waits c.d.rc.gate (c.frame m addr size ts).d.pending,
    (c.frame m addr size ts).mark w.frame + w.time ≡ (c.frame m addr size ts).total [MOD 2 ^ 32]
  clock : ∀ s, c.d.rc.rtpSs = some s → c.packets ≠ [] →
    (c.frame m addr size ts).backlog + c.total ≡ c.backlog + (c.frame m addr size ts).total [MOD 2 ^ 32]

theorem Inv.keeps (i : Inv c) (ok : c.Accounts (.frame m addr size ts)) : Keeps c m addr size ts := by
  have old {f : Frame} (hf : f ∈ c.d.pending) : (c.frame m addr size ts).mark f = c.mark f :=
    mark_frame (by rw [i.length]; exact i.made f hf)
  have alive {s : RtpSs} (hs : c.d.rc.rtpSs = some s) : ¬ c.Ended := fun over_ => by
    rw [over_.1] at hs
    cases hs
  by_cases streams : c.d.rc.streams m.videoType
  · have total : (c.frame m addr size ts).total = c.total + ts := by
      rw [total_frame, if_pos streams.2.2.symm]
    have pending := frame_pending c m addr size ts
    rw [if_pos streams] at pending
    cases full : c.d.rc.rtpQueueVideo.isFull with
    | true =>
      rw [full, if_pos rfl] at pending
      refine ⟨fun _ w hw => ?_, fun s hs sent => ?_⟩
      · rw [pending] at hw
        cases hw
      · have lost := ok (alive hs)
        rw [if_pos streams] at lost
        rw [total, backlog, pending]
        have zero := lost full sent
        calc 0 + c.total ≡ (c.backlog + ts) + c.total [MOD 2 ^ 32] := zero.symm.add_right _
          _ = c.backlog + (c.total + ts) := by ring
    | false =>
      rw [full, if_neg Bool.false_ne_true] at pending
      refine ⟨fun open_ w hw => ?_, fun s hs sent => ?_⟩
      · rw [pending] at hw
        rw [total]
        rcases waits_append hw with ⟨b, hb, same, time⟩ | rfl
        · rw [← same, old (mem_waits hb), time, ← Nat.add_assoc]
          exact (i.queued open_ b hb).add_right ts
        · rw [mark_made i.length, Clocked.total, streams.2.2]
          rfl
      · rw [total, backlog, pending, List.map_append, List.sum_append]
        exact congrArg (· % 2 ^ 32) (by rw [Clocked.backlog]; simp; ring)
  · have pending := frame_pending c m addr size ts
    rw [if_neg streams] at pending
    by_cases same : m.videoType = c.d.rc.isLive
    · have total : (c.frame m addr size ts).total = c.total + ts := by rw [total_frame, if_pos same]
      refine ⟨fun open_ w hw => ?_, fun s hs sent => ?_⟩
      · rw [pending] at hw
        have lost := ok open_
        rw [if_neg streams] at lost
        have zero := lost same (.inr (List.ne_nil_of_mem hw))
        rw [total, old (mem_waits hw)]
        exact (i.queued open_ w hw).trans (zero.symm.add_left c.total)
      · have lost := ok (alive hs)
        rw [if_neg streams] at lost
        have zero := lost same (.inl sent)
        rw [total, backlog, pending, ← Nat.add_assoc]
        exact zero.symm.add_left _
    · have total : (c.frame m addr size ts).total = c.total := by rw [total_frame, if_neg same, Nat.add_zero]
      refine ⟨fun open_ w hw => ?_, fun s hs sent => ?_⟩
      · rw [pending] at hw
        rw [total, old (mem_waits hw)]
        exact i.queued open_ w hw
      · rw [total, backlog, pending]
        rfl

theorem Inv.frame (i : Inv c) (ok : c.Accounts (.frame m addr size ts)) : Inv (c.frame m addr size ts) := by
  have keeps := i.keeps ok
  obtain ⟨block, state, gate⟩ := frame_rtpSs c m addr size ts
  have ended : (c.frame m addr size ts).Ended ↔ c.Ended := by rw [Ended, Ended, block, state]
  have marks {a : Stamp} (ha : a ∈ c.packets) : (c.frame m addr size ts).mark a.frame = c.mark a.frame :=
    mark_frame (by rw [i.length]; exact (i.sent a ha).2)
  refine ⟨i.held.frame, fun v => ?_, fun f hf => ?_, fun a ha => ?_, ?_, ?_, fun a ha b hb => ?_, ?_, ?_⟩
  · change (Function.update c.increments _ _ v).length = Function.update c.d.made _ _ v
    by_cases same : v = m.videoType
    · subst same
      rw [Function.update_self, Function.update_self, List.length_append, i.length]
      rfl
    · rw [Function.update_of_ne same, Function.update_of_ne same, i.length]
  · rw [frame_pending] at hf
    have one (hf : f ∈ c.d.pending) := Nat.lt_of_lt_of_le (i.made f hf) (frame_made c m addr size ts f.msg.videoType)
    split at hf
    · split at hf
      · cases hf
      · rcases List.mem_append.mp hf with hf | hf
        · exact one hf
        · rw [List.mem_singleton.mp hf]
          change c.d.made m.videoType < Function.update c.d.made m.videoType _ m.videoType
          rw [Function.update_self]
          exact Nat.lt_succ_self _
    · exact one hf
  · rw [frame_isLive]
    exact ⟨(i.sent a ha).1, Nat.lt_of_lt_of_le (i.sent a ha).2 (frame_made c m addr size ts _)⟩
  · rw [block, state]
    exact i.gone
  · rw [block]
    exact i.hand
  · rw [marks ha, marks hb]
    exact i.agree a ha b hb
  · rw [ended, gate]
    exact keeps.queued
  · rw [block]
    intro s hs a ha
    have now := i.clock s hs a ha
    have added := keeps.clock s hs (List.ne_nil_of_mem ha)
    rw [marks ha]
    refine Nat.ModEq.add_right_cancel' (c.backlog + c.total) ?_
    calc c.mark a.frame + (s.video.startRtptime + (c.frame m addr size ts).backlog) + (c.backlog + c.total)
        = c.mark a.frame + (s.video.startRtptime + c.backlog) +
            ((c.frame m addr size ts).backlog + c.total) := by ring
      _ ≡ a.time + c.total + (c.backlog + (c.frame m addr size ts).total) [MOD 2 ^ 32] := now.add added
      _ = a.time + (c.frame m addr size ts).total + (c.backlog + c.total) := by ring

/-- A call of the sender: what waits at the front of the queue becomes the clock of the session. -/
theorem Inv.turn (i : Inv c) (h : c.turn mem = some c') : Inv c' := by
  obtain ⟨s, v, block, block', live, made, increments, held, moved⟩ := turn_turned i.held h
  have marks (f : Frame) : c'.mark f = c.mark f := by rw [mark, mark, increments]
  have total : c'.total = c.total := by rw [Clocked.total, Clocked.total, increments, live]
  have open_ : ¬ c.Ended := fun over_ => by
    rw [over_.1] at block
    cases block
  have none_ : c'.d.rc.rtpSs ≠ none := by
    rw [block']
    nofun
  -- what is left is what the call has done to the queue, the clock and the packets
  suffices rest : (∀ f ∈ c'.d.pending, f ∈ c.d.pending) ∧
      (∀ a ∈ c'.packets, a ∈ c.packets ∨ a.frame ∈ c.d.pending) ∧
      (v.txReady = .doing → ∃ f, c'.inHand = some f ∧ ⟨f, v.startRtptime % 2 ^ 32⟩ ∈ c'.packets) ∧
      (∀ w ∈ waits c'.d.rc.gate c'.d.pending, w ∈ waits c.d.rc.gate c.d.pending) ∧
      (∀ a ∈ c'.packets, c.mark a.frame + (v.startRtptime + c'.backlog) ≡ a.time + c.total [MOD 2 ^ 32]) by
    obtain ⟨fewer, packets, hand, waiting, clock⟩ := rest
    have clock' : ∀ a ∈ c'.packets, c'.mark a.frame + (v.startRtptime + c'.backlog) ≡ a.time + c'.total
        [MOD 2 ^ 32] := fun a ha => by
      rw [marks, total]
      exact clock a ha
    refine ⟨held, fun n => ?_, fun f hf => ?_, fun a ha => ?_, fun none' => absurd none' none_,
      fun s' hs' => ?_, fun a ha b hb => agree_of_clock (clock' a ha) (clock' b hb), fun _ w hw => ?_,
      fun s' hs' => ?_⟩
    · rw [increments, made]
      exact i.length n
    · rw [made]
      exact i.made f (fewer f hf)
    · rw [made, live]
      rcases packets a ha with ha | ha
      · exact i.sent a ha
      · exact ⟨i.held.stream _ ha, i.made _ ha⟩
    · cases block'.symm.trans hs'
      exact hand
    · rw [marks, total]
      exact i.queued open_ w (waiting w hw)
    · cases block'.symm.trans hs'
      exact clock'
  cases moved with
  | kept queue pending gate time inHand doing packets =>
    have backlog : c'.backlog = c.backlog := by rw [Clocked.backlog, Clocked.backlog, pending]
    -- a packet of the frame under way carries the timestamp of those before it
    have known : ∀ a ∈ c'.packets, a ∈ c.packets := by
      rcases packets with same | ⟨under, more⟩
      · rw [same]
        exact fun _ => id
      · obtain ⟨f, hf, mem⟩ := i.hand s block under
        rw [more, hf]
        intro a ha
        rcases List.mem_append.mp ha with ha | ha
        · exact ha
        · rw [List.mem_singleton.mp ha]
          exact mem
    have kept : ∀ a ∈ c.packets, a ∈ c'.packets := by
      rcases packets with same | ⟨_, more⟩
      · rw [same]
        exact fun _ => id
      · rw [more]
        exact fun _ => List.mem_append_left _
    refine ⟨?_, fun a ha => .inl (known a ha), fun now => ?_, ?_, fun a ha => ?_⟩
    · rw [pending]
      exact fun _ => id
    · obtain ⟨f, hf, mem⟩ := i.hand s block (doing now)
      rw [time, inHand]
      exact ⟨f, hf, kept _ mem⟩
    · rw [gate, pending]
      exact fun _ => id
    · rw [time, backlog]
      exact i.clock s block a (known a ha)
  | refused f fs pending rest gate isP gate' time idle packets =>
    have backlog : c.backlog = f.ts + c'.backlog := by
      rw [Clocked.backlog, Clocked.backlog, pending, rest]
      rfl
    refine ⟨?_, fun a ha => .inl (packets ▸ ha), fun now => absurd now idle, fun w hw => ?_, fun a ha => ?_⟩
    · rw [pending, rest]
      exact fun _ => List.mem_cons_of_mem _
    · rw [gate', rest] at hw
      rw [gate, pending, waits_refused fs isP]
      exact hw
    · have now := i.clock s block a (packets ▸ ha)
      rw [backlog, ← Nat.add_assoc s.video.startRtptime] at now
      rw [time]
      exact (((Nat.mod_modEq _ _).add_right _).add_left _).trans now
  | through f fs pending rest ok time hand packets =>
    have backlog : c.backlog = f.ts + c'.backlog := by
      rw [Clocked.backlog, Clocked.backlog, pending, rest]
      rfl
    have head := waits_head c.d.rc.gate fs ok
    have old (a : Stamp) (ha : a ∈ c.packets) :
        c.mark a.frame + (v.startRtptime + c'.backlog) ≡ a.time + c.total [MOD 2 ^ 32] := by
      have now := i.clock s block a ha
      rw [backlog, ← Nat.add_assoc s.video.startRtptime] at now
      rw [time]
      exact (((Nat.mod_modEq _ _).add_right _).add_left _).trans now
    have new : c.mark f + (v.startRtptime + c'.backlog) ≡ v.startRtptime % 2 ^ 32 + c.total [MOD 2 ^ 32] := by
      have waited := i.queued open_ ⟨f, (fs.map Frame.ts).sum⟩ (by rw [pending, head]; exact List.mem_cons_self)
      rw [Clocked.backlog, rest]
      calc c.mark f + (v.startRtptime + (fs.map Frame.ts).sum)
          = v.startRtptime + (c.mark f + (fs.map Frame.ts).sum) := by ring
        _ ≡ v.startRtptime % 2 ^ 32 + c.total [MOD 2 ^ 32] := (Nat.mod_modEq _ _).symm.add waited
    refine ⟨?_, fun a ha => ?_, fun now => ?_, fun w hw => ?_, fun a ha => ?_⟩
    · rw [pending, rest]
      exact fun _ => List.mem_cons_of_mem _
    · rcases packets with more | ⟨_, same⟩
      · rw [more] at ha
        rcases List.mem_append.mp ha with ha | ha
        · exact .inl ha
        · rw [List.mem_singleton.mp ha, pending]
          exact .inr List.mem_cons_self
      · exact .inl (same ▸ ha)
    · rcases packets with more | ⟨idle, _⟩
      · exact ⟨f, hand, by rw [more]; exact List.mem_append_right _ List.mem_cons_self⟩
      · exact absurd now idle
    · rw [rest] at hw
      rw [pending, head]
      exact List.mem_cons_of_mem _ (waits_mono _ fs hw)
    · rcases packets with more | ⟨_, same⟩
      · rw [more] at ha
        rcases List.mem_append.mp ha with ha | ha
        · exact old a ha
        · rw [List.mem_singleton.mp ha]
          exact new
      · exact old a (same ▸ ha)

/-- What a step that makes and sends nothing leaves of a slot. -/
inductive Left (c : Clocked) : DeliveryEvent → RtspClient → Prop
  | kept : Unfilled c.d.rc rc → Left c l rc
  | filled : requestRefills e c.d.rc buf = true → c.d.rc.state.Lively → Left c (.request e buf) rc

structure Quieted (c : Clocked) (l : DeliveryEvent) (rc : RtspClient) : Prop where
  leaves : Leaves c.d.rc rc
  lively : rc.state.Lively → c.d.rc.state.Lively
  rests : Rests c.d.rc rc
  left : Left c l rc

theorem quiet_quieted {d' : Delivery} (quiet : l.quiet) (h : DeliveryStep c.d l d') :
    ∃ rc, d' = { c.d with rc } ∧ Quieted c l rc := by
  have other {rc : RtspClient} (leaves : Leaves c.d.rc rc) (lively : rc.state.Lively → c.d.rc.state.Lively)
      (block : rc.rtpSs = c.d.rc.rtpSs) : Quieted c l rc :=
    ⟨leaves, lively, (Unfilled.same block).rests, .kept (.same block)⟩
  cases h with
  | frame => exact quiet.elim
  | turn => exact quiet.elim
  | @request e buf =>
    have lively : ((⟨c.d.rc, []⟩ : Session).request e buf).rc.state.Lively → c.d.rc.state.Lively := fun h =>
      by_contra fun gone => step_over (l := .request e buf) (s := ⟨c.d.rc, []⟩) gone ⟨rfl, rfl⟩ h
    refine ⟨_, rfl, request_leaves e ⟨c.d.rc, []⟩ buf, lively, request_rests buf, ?_⟩
    rcases request_block (e := e) c.d.rc buf with kept | ⟨refills, lively, _⟩
    · exact .kept kept
    · exact .filled refills lively
  | rtpExit => exact ⟨_, rfl, other (.of_block rfl rfl rfl) id rfl⟩
  | udpError => exact ⟨_, rfl, other (.of_block rfl rfl rfl) (fun h => absurd rfl h.2) rfl⟩
  | kick =>
    refine ⟨_, rfl, other (kick_leaves _) (fun h => ?_) ?_⟩
    · exact by_contra fun gone => step_over gone (show (session .none).step ⟨c.d.rc, []⟩ .kick _ from rfl) h
    · rw [kick_state]

theorem Quieted.ended (q : Quieted c l rc) (over_ : c.Ended) : rc.rtpSs = none ∧ ¬ rc.state.Lively := by
  refine ⟨?_, fun h => over_.2 (q.lively h)⟩
  cases q.left with
  | kept kept =>
    cases kept with
    | same same => exact same.trans over_.1
    | freed gone _ => exact gone
    | fresh _ lively _ => exact absurd lively over_.2
  | filled _ lively => exact absurd lively over_.2

theorem Accounts.unfilled (ok : c.Accounts l) (sent : c.packets ≠ []) (h : Left c l rc) : Unfilled c.d.rc rc := by
  cases h with
  | kept kept => exact kept
  | filled refills =>
    rw [ok sent] at refills
    cases refills

theorem waits_closed (h : gate' = true → gate = true) (w : a ∈ waits gate' fs) : a ∈ waits gate fs := by
  cases gate with
  | true => exact waits_mono _ fs w
  | false => rwa [Bool.eq_false_iff.mpr fun open_ => Bool.false_ne_true (h open_)] at w

/-- A step that makes and sends nothing: a block that is lost has sent nothing, or sends nothing more. -/
theorem Inv.quiet (i : Inv c) (ok : c.Accounts l) (q : Quieted c l rc) :
    Inv { c with d := { c.d with rc } } := by
  have total (f : Frame) (live : f.msg.videoType = c.d.rc.isLive) :
      total { c with d := { c.d with rc } } = c.total := by
    rw [Clocked.total, Clocked.total]
    dsimp only
    rw [q.leaves.live fun none_ => Delivery.videoType_ne_none _ (live.trans none_)]
  have alive (open_ : ¬ (rc.rtpSs = none ∧ ¬ rc.state.Lively)) : ¬ c.Ended := fun over_ => open_ (q.ended over_)
  have kept {a : Stamp} (ha : a ∈ c.packets) : Unfilled c.d.rc rc :=
    Accounts.unfilled ok (List.ne_nil_of_mem ha) q.left
  have fresh {a : Stamp} (ha : a ∈ c.packets) (none_ : c.d.rc.rtpSs = none) (lively : c.d.rc.state.Lively) : False := by
    rw [i.gone none_ lively] at ha
    cases ha
  -- a session that has sent keeps its block until it ends
  have same {a : Stamp} {s : RtpSs} (ha : a ∈ c.packets) (hs : rc.rtpSs = some s) : c.d.rc.rtpSs = some s := by
    cases kept ha with
    | same same => exact same ▸ hs
    | freed gone _ =>
      rw [gone] at hs
      cases hs
    | fresh none_ lively _ => exact (fresh ha none_ lively).elim
  refine ⟨i.held.leaves q.leaves, i.length, i.made, fun a ha => ?_, fun none_ lively => ?_, fun s' hs' doing => ?_,
    i.agree, fun open_ w hw => ?_, fun s' hs' a ha => ?_⟩
  · obtain ⟨live, made⟩ := i.sent a ha
    exact ⟨live.trans (q.leaves.live fun none_ => Delivery.videoType_ne_none _ (live.trans none_)).symm, made⟩
  · refine List.eq_nil_iff_forall_not_mem.mpr fun a ha => ?_
    cases kept ha with
    | same same => exact fresh ha (same.symm.trans none_) (q.lively lively)
    | freed _ gone => exact gone lively
    | fresh none_ lively _ => exact fresh ha none_ lively
  · obtain ⟨s, hs, under⟩ := q.rests s' hs' doing
    obtain ⟨_, _, mem⟩ := i.hand s hs under
    exact i.hand s' (same mem hs') doing
  · rw [total w.frame (i.held.stream _ (mem_waits hw))]
    exact i.queued (alive open_) w (waits_closed q.leaves.gate hw)
  · rw [total a.frame (i.sent a ha).1]
    exact i.clock s' (same ha hs') a ha

theorem inv_inductive (mode : RtspdAuth) : (clocked mode).Inductive Accounts Inv where
  init {c} h := by
    obtain ⟨start, length, inHand, packets⟩ := h
    have held := ((Delivery.inv_inductive mode).init start).held
    obtain ⟨⟨index, clientid, addr, hrc⟩, pending, _⟩ := start
    have block : c.d.rc.rtpSs = none := by
      rw [hrc]
      rfl
    refine ⟨held, length, ?_, ?_, fun _ _ => packets, fun s hs => ?_, ?_, fun _ => ?_, fun s hs => ?_⟩
    · rw [pending]
      exact nofun
    · rw [packets]
      exact nofun
    · rw [block] at hs
      cases hs
    · rw [packets]
      exact nofun
    · rw [pending]
      exact nofun
    · rw [block] at hs
      cases hs
  step {c l c'} i ok h := by
    cases h with
    | frame => exact i.frame ok
    | turn h => exact i.turn h
    | quiet quiet h =>
      obtain ⟨rc, rfl, quieted⟩ := quiet_quieted quiet h
      exact i.quiet ok quieted

/-- When no increment is lost on the way, the timestamps are those of the encoder's clock. -/
theorem capture_clock (mode : RtspdAuth) (c : Clocked) (r : Reach (clocked mode) Accounts c) : c.Follows :=
  ((inv_inductive mode).reach r).follows

end steps

section sample

variable {ok : Clocked → DeliveryEvent → Prop}

def asks (c : Clocked) (buf : List UInt8) : Clocked := { c with d := c.d.asks buf }

/-- A frame of a fortieth of a second. -/
def makes (c : Clocked) (m : StreamMsg) : Clocked := c.frame m 0 4 2250

def turns (c : Clocked) : Clocked := (c.turn fun _ => 0).getD c

theorem reach_asks (r : Reach (clocked .none) ok c) (buf : List UInt8)
    (h : ok c (.request (sampleEnv .none) buf)) : Reach (clocked .none) ok (c.asks buf) :=
  r.step h (ClockedStep.quiet trivial DeliveryStep.request)

theorem reach_makes (r : Reach (clocked .none) ok c) (m : StreamMsg) (h : ok c (.frame m 0 4 2250)) :
    Reach (clocked .none) ok (c.makes m) :=
  r.step h ClockedStep.frame

theorem reach_turns (r : Reach (clocked .none) ok c) (h : ok c (.turn fun _ => 0))
    (hs : (c.turn fun _ => 0).isSome) : Reach (clocked .none) ok c.turns := by
  obtain ⟨c', hc⟩ := Option.isSome_iff_exists.mp hs
  have step : c.turns = c' := by rw [turns, hc, Option.getD_some]
  rw [step]
  exact r.step h (ClockedStep.turn hc)

def idle : Clocked := ⟨Delivery.idle, fun _ => [], none, []⟩

def sampleClocked : Clocked := ((idle.asks optionsText).asks setupText).asks playText

theorem reach_sample (h : ∀ c buf, c.packets = [] → ok c (.request (sampleEnv .none) buf)) :
    Reach (clocked .none) ok sampleClocked := by
  have init : Reach (clocked .none) ok idle := .init ⟨⟨⟨0, 9, 0, rfl⟩, rfl, rfl⟩, fun _ => rfl, rfl, rfl⟩
  exact reach_asks (reach_asks (reach_asks init _ (h _ _ rfl)) _ (h _ _ rfl)) _ (h _ _ rfl)

theorem accounts_queued (streams : c.d.rc.streams m.videoType) (room : c.d.rc.rtpQueueVideo.isFull = false) :
    c.Accounts (.frame m addr size ts) := by
  intro _
  rw [if_pos streams]
  intro full
  rw [room] at full
  cases full

/-- The I frame and the P frame behind it. -/
theorem capture_clock_two : ∃ c, Reach (clocked .none) Accounts c ∧ c.Follows ∧
    c.packets.map (fun a => (a.frame.n, a.time)) = [(0, 2340), (1, 4590)] := by
  have play : Reach (clocked .none) Accounts sampleClocked := reach_sample fun _ _ none_ h => absurd none_ h
  have key := reach_makes play .h264I (accounts_queued (by decide +kernel) (by decide +kernel))
  have next := reach_makes key .h264P (accounts_queued (by decide +kernel) (by decide +kernel))
  have sent := reach_turns (reach_turns next trivial (by decide +kernel)) trivial (by decide +kernel)
  exact ⟨_, sent, capture_clock .none _ sent, by decide +kernel⟩

/-- The increment of the frame made while the client pauses is not added. -/
theorem clock_paused : ¬ ∀ c, Reach (clocked .none) Lts.any c → c.Follows := by
  intro all
  have any : ∀ c l, Lts.any (S := Clocked) (L := DeliveryEvent) c l := fun _ _ => trivial
  have play : Reach (clocked .none) Lts.any sampleClocked := reach_sample fun _ _ _ => trivial
  have key := reach_turns (reach_makes play .h264I (any _ _)) (any _ _) (by decide +kernel)
  have lost := reach_makes (reach_asks key Delivery.pauseText (any _ _)) .h264P (any _ _)
  have again := reach_asks lost playText (any _ _)
  have late := reach_turns (reach_makes again .h264P (any _ _)) (any _ _) (by decide +kernel)
  have apart := all _ late ⟨⟨.h264I, 0, 0, 4, 2250⟩, 2340⟩ (by decide +kernel)
    ⟨⟨.h264P, 2, 0, 4, 2250⟩, 4590⟩ (by decide +kernel) rfl (by decide)
  exact absurd apart (by decide +kernel)

end sample

end Clocked

end En675.Rtsp
