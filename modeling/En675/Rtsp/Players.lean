import En675.Rtsp.Server
import En675.Rtsp.Session

/-! The admission of players: the tasks of all slots go through `SETUP` step by step, around a
mutex that the first of them creates, while the senders clear `play_query`. -/

namespace En675.Rtsp

open Lib

/-- Where the task of a slot is in `rtspd_client_rtsp_process_setup`. -/
inductive SetupPc
  | idle
  /-- In front of `if (xSemSetup == NULL)`. -/
  | test
  | create
  | take
  | wait (mutex : Nat)
  /-- `rtspd_player_count` is at slot `i` and has counted `seen`. -/
  | count (i : Nat) (seen : List Slot)
  | load
  | store (loaded : Nat)
  | give
  deriving DecidableEq, Repr

/-- Between take and give. -/
def SetupPc.inside : SetupPc → Bool
  | .count _ _ | .load | .store _ | .give => true
  | _ => false

/-- Past the creation of the mutex. -/
def SetupPc.past : SetupPc → Bool
  | .idle | .test | .create => false
  | _ => true

/-- Admitted, `play_query` not stored yet. -/
def SetupPc.storing : SetupPc → Bool
  | .load | .store _ => true
  | _ => false

structure Players where
  rc : Slot → RtspClient
  pc : Slot → SetupPc
  /-- `xSemSetup`. -/
  handle : Option Nat
  holder : Nat → Option Slot
  made : Nat
  /-- The SETUPs answered 453, with the slots that were counted. -/
  refused : List (Slot × List Slot)

namespace Players

def setPc (s : Players) (i : Slot) (c : SetupPc) : Players := { s with pc := Function.update s.pc i c }

def setRc (s : Players) (i : Slot) (rc : RtspClient) : Players := { s with rc := Function.update s.rc i rc }

section fields

variable (s : Players) (i j : Slot) (c : SetupPc) (rc : RtspClient)

@[simp] theorem setPc_self : (s.setPc i c).pc i = c := Function.update_self _ _ _

theorem setPc_of_ne (h : j ≠ i) : (s.setPc i c).pc j = s.pc j := Function.update_of_ne h _ _

@[simp] theorem setRc_self : (s.setRc i rc).rc i = rc := Function.update_self _ _ _

theorem setRc_of_ne (h : j ≠ i) : (s.setRc i rc).rc j = s.rc j := Function.update_of_ne h _ _

@[simp] theorem setPc_rc : (s.setPc i c).rc = s.rc := rfl

@[simp] theorem setRc_pc : (s.setRc i rc).pc = s.pc := rfl

end fields

inductive Label
  | other (i : Slot) | clear (i : Slot) | begin (i : Slot) | test (i : Slot) | create (i : Slot)
  | call (i : Slot) | take (i : Slot) | look (i : Slot) | answer (i : Slot) | load (i : Slot)
  | store (i : Slot) | give (i : Slot)

/-- `play_query != 0`. -/
def playing (rc : RtspClient) : Bool := rc.playQuery ≠ strtypeNone

inductive Step : Players → Label → Players → Prop
  /-- Whatever else happens to a slot. -/
  | other {r : RtspClient} : r.playQuery = (s.rc i).playQuery → Step s (.other i) (s.setRc i r)
  /-- A sender stops, or the slot is cleared. -/
  | clear : Step s (.clear i) (s.setRc i { s.rc i with playQuery := strtypeNone })
  | begin : s.pc i = .idle → rtspdClientRtspState (s.rc i) .setup = (true, r) →
      Step s (.begin i) ((s.setRc i r).setPc i .test)
  | testNull : s.pc i = .test → s.handle = none → Step s (.test i) (s.setPc i .create)
  | testMade : s.pc i = .test → s.handle = some m → Step s (.test i) (s.setPc i .take)
  | create : s.pc i = .create →
      Step s (.create i) { s.setPc i .take with handle := some s.made, made := s.made + 1 }
  | call : s.pc i = .take → s.handle = some m → Step s (.call i) (s.setPc i (.wait m))
  | take : s.pc i = .wait m → s.holder m = none →
      Step s (.take i) { s.setPc i (.count 0 []) with holder := Function.update s.holder m (some i) }
  | look {k : Slot} : s.pc i = .count k seen →
      Step s (.look i) (s.setPc i (.count (k + 1) (if playing (s.rc k) then seen ++ [k] else seen)))
  | grant (e : Env) : s.pc i = .count rtspInfoMax seen → e.playerCount = seen.length →
      (s.rc i).setupAdmit e = .inr (r, reply) →
      Step s (.answer i) ((s.setRc i r.markReady).setPc i .load)
  | refuse (e : Env) : s.pc i = .count rtspInfoMax seen → e.playerCount = seen.length →
      (s.rc i).setupAdmit e = .inl a →
      Step s (.answer i) { (s.setRc i a.rc).setPc i .give with
        refused := if statusOf a.reply = some .s453 then s.refused ++ [(i, seen)] else s.refused }
  | load : s.pc i = .load → Step s (.load i) (s.setPc i (.store (s.rc i).playQuery))
  | store : s.pc i = .store n → Step s (.store i) ((s.setRc i ((s.rc i).storeQuery n)).setPc i .give)
  /-- To give a mutex that another task holds ends in `configASSERT`. -/
  | give : s.pc i = .give → s.handle = some m → s.holder m = some i →
      Step s (.give i) { s.setPc i .idle with holder := Function.update s.holder m none }

/-- The number of players. -/
def count (s : Players) : Nat := tally playing s.rc

end Players

def players : Lts Players Players.Label where
  init s := (∀ i, (s.rc i).playQuery = strtypeNone ∧ s.pc i = .idle) ∧ s.handle = none ∧
    s.made = 0 ∧ (∀ m, s.holder m = none) ∧ s.refused = []
  step := Players.Step

namespace Players

/-- The claim at one state: the limit is kept, and a 453 was given only with `RTSP_play_MAX`
other players. -/
structure Exact (s : Players) : Prop where
  limit : s.count ≤ rtspPlayMax
  others : ∀ r ∈ s.refused, (r.2.erase r.1).Nodup ∧ rtspPlayMax ≤ (r.2.erase r.1).length

/-- The mutex is created once, and no player asks for a `SETUP` at the limit. -/
def Orderly (s : Players) : Label → Prop
  | .create _ => s.handle = none
  | .answer i => ∀ seen, s.pc i = .count rtspInfoMax seen → rtspPlayMax ≤ seen.length → i ∉ seen
  | _ => True

structure Inv (s : Players) : Prop where
  fresh : s.handle = none → ∀ i, (s.pc i).past = false
  waits : ∀ i m, s.pc i = .wait m → s.handle = some m
  holds : ∀ i, (s.pc i).inside = true → ∃ m, s.handle = some m ∧ s.holder m = some i
  counted : ∀ i k seen, s.pc i = .count k seen →
    seen.Nodup ∧ (∀ j ∈ seen, j.val < k) ∧ ∀ j : Slot, j.val < k → playing (s.rc j) = true → j ∈ seen
  limit : s.count ≤ rtspPlayMax
  room : ∀ i, (s.pc i).storing = true → s.count < rtspPlayMax
  others : ∀ r ∈ s.refused, r.1 ∉ r.2 ∧ r.2.Nodup ∧ rtspPlayMax ≤ r.2.length

variable {s t : Players} {i j : Slot} {c : SetupPc} {rc : RtspClient} {l : Label}

/-- Two tasks are never between take and give. -/
theorem Inv.alone (inv : Inv s) (hi : (s.pc i).inside = true) (hj : (s.pc j).inside = true) : i = j := by
  obtain ⟨m, handle, holder⟩ := inv.holds i hi
  obtain ⟨m', handle', holder'⟩ := inv.holds j hj
  obtain rfl := Option.some.inj (handle.symm.trans handle')
  exact Option.some.inj (holder.symm.trans holder')

theorem count_setRc (s : Players) (i : Slot) (rc : RtspClient) :
    (s.setRc i rc).count + (playing (s.rc i)).toNat = s.count + (playing rc).toNat := tally_update _ _ _ _

theorem playing_setRc (h : playing rc = true → playing (s.rc i) = true)
    (hj : playing ((s.setRc i rc).rc j) = true) : playing (s.rc j) = true := by
  by_cases hji : j = i
  · rw [hji, setRc_self] at hj
    exact hji ▸ h hj
  · rwa [setRc_of_ne s i j rc hji] at hj

/-- A store that starts no player. -/
theorem Inv.setRc (inv : Inv s) (h : playing rc = true → playing (s.rc i) = true) : Inv (s.setRc i rc) := by
  have fewer : (s.setRc i rc).count ≤ s.count := by
    have moved := count_setRc s i rc
    have most : (playing rc).toNat ≤ (playing (s.rc i)).toNat := by
      cases hp : playing rc with
      | false => exact Nat.zero_le _
      | true =>
        rw [h hp]
    omega
  exact { inv with
    counted := fun j k seen hj => by
      obtain ⟨nodup, below, all⟩ := inv.counted j k seen hj
      exact ⟨nodup, below, fun j' hj' hp => all j' hj' (playing_setRc h hp)⟩
    limit := fewer.trans inv.limit
    room := fun j hj => fewer.trans_lt (inv.room j hj) }

/-- A task that moves on, with the mutex taken or given. -/
theorem Inv.setPc (inv : Inv s) {holder : Nat → Option Slot}
    (kept : ∀ j m, j ≠ i → (s.pc j).inside = true → s.holder m = some j → holder m = some j)
    (fresh : s.handle = none → c.past = false) (waits : ∀ m, c = .wait m → s.handle = some m)
    (holds : c.inside = true → ∃ m, s.handle = some m ∧ holder m = some i)
    (counted : ∀ k seen, c = .count k seen →
      seen.Nodup ∧ (∀ j ∈ seen, j.val < k) ∧ ∀ j : Slot, j.val < k → playing (s.rc j) = true → j ∈ seen)
    (room : c.storing = true → s.count < rtspPlayMax) : Inv { s.setPc i c with holder } where
  fresh hn j := by
    by_cases h : j = i
    · rw [h]
      exact (congrArg SetupPc.past (setPc_self s i c)).trans (fresh hn)
    · exact (congrArg SetupPc.past (setPc_of_ne s i j c h)).trans (inv.fresh hn j)
  waits j m hj := by
    by_cases h : j = i
    · exact waits m ((setPc_self s i c).symm.trans (h ▸ hj))
    · exact inv.waits j m ((setPc_of_ne s i j c h).symm.trans hj)
  holds j hj := by
    by_cases h : j = i
    · rw [h]
      exact holds ((congrArg SetupPc.inside (setPc_self s i c)).symm.trans (h ▸ hj))
    · have before := (congrArg SetupPc.inside (setPc_of_ne s i j c h)).symm.trans hj
      obtain ⟨m, handle, hm⟩ := inv.holds j before
      exact ⟨m, handle, kept j m h before hm⟩
  counted j k seen hj := by
    by_cases h : j = i
    · exact counted k seen ((setPc_self s i c).symm.trans (h ▸ hj))
    · exact inv.counted j k seen ((setPc_of_ne s i j c h).symm.trans hj)
  limit := inv.limit
  room j hj := by
    by_cases h : j = i
    · exact room ((congrArg SetupPc.storing (setPc_self s i c)).symm.trans (h ▸ hj))
    · exact inv.room j ((congrArg SetupPc.storing (setPc_of_ne s i j c h)).symm.trans hj)
  others := inv.others

/-- A step of a task that neither takes nor gives the mutex and counts nothing. -/
theorem Inv.goes (inv : Inv s) (fresh : s.handle = none → c.past = false)
    (waits : ∀ m, c = .wait m → s.handle = some m) (inside : c.inside = true → (s.pc i).inside = true)
    (counted : ∀ k seen, c ≠ .count k seen) (room : c.storing = true → s.count < rtspPlayMax) :
    Inv (s.setPc i c) :=
  inv.setPc (fun _ _ _ _ h => h) fresh waits (fun h => inv.holds i (inside h))
    (fun k seen h => absurd h (counted k seen)) room

theorem state_playing {r r' : RtspClient} {state : RtspClientState} (h : rtspdClientRtspState r state = (true, r')) :
    playing r' = playing r := by
  rw [(state_true h).2]
  rfl

theorem markReady_playing (r : RtspClient) : playing r.markReady = playing r := rfl

theorem inside_past {c : SetupPc} (h : c.inside = true) : c.past = true := by
  cases c <;> first | rfl | cases h

theorem storing_inside {c : SetupPc} (h : c.storing = true) : c.inside = true := by
  cases c <;> first | rfl | cases h

/-- 453 is what the count is answered with, and nothing else. -/
theorem setupAdmit_453 {e : Env} {r : RtspClient} {a : Answer} (h : r.setupAdmit e = .inl a)
    (hs : statusOf a.reply = some .s453) : rtspPlayMax ≤ e.playerCount := by
  have reported (r : RtspClient) {status : RtspStatus} (hn : status ≠ .s453)
      (ha : rtspdClientRtspProcessError e r status = a) : rtspPlayMax ≤ e.playerCount := by
    obtain ⟨rest, hr⟩ := processError_status e r status
    rw [← ha, ← hr, statusOf_statusLine] at hs
    exact absurd (Option.some.inj hs) hn
  unfold RtspClient.setupAdmit at h
  split at h
  · assumption
  · split at h
    · exact reported r (show RtspStatus.s500 ≠ .s453 from nofun) (Sum.inl.inj h)
    · split at h
      · rename_i status hc
        refine reported _ ?_ (Sum.inl.inj h)
        unfold RtspClient.setupCheck at hc
        split at hc
        · split at hc
          · split at hc
            · cases hc
            · cases hc
              nofun
          · cases hc
            nofun
        · cases hc
          nofun
      · cases h

theorem setupAdmit_room {e : Env} {r : RtspClient} (h : r.setupAdmit e = .inr x) : e.playerCount < rtspPlayMax := by
  unfold RtspClient.setupAdmit at h
  split at h
  · cases h
  · rename_i room
    exact Nat.lt_of_not_le room

theorem inv_init (h : players.init s) : Inv s := by
  obtain ⟨idle, handle, made, holder, refused⟩ := h
  have pc (i : Slot) : s.pc i = .idle := (idle i).2
  refine ⟨fun _ i => ?_, fun i m hi => ?_, fun i hi => ?_, fun i k seen hi => ?_, ?_, fun i hi => ?_, fun r hr => ?_⟩
  · rw [pc i]
    rfl
  · rw [pc i] at hi
    cases hi
  · rw [pc i] at hi
    cases hi
  · rw [pc i] at hi
    cases hi
  · have none : s.count = 0 := tally_eq_zero.mpr fun i => decide_eq_false (not_not.mpr (idle i).1)
    rw [none]
    exact Nat.zero_le _
  · rw [pc i] at hi
    cases hi
  · rw [refused] at hr
    cases hr

theorem count_step (inv : Inv s) {k : Slot} {seen : List Slot} (hp : s.pc i = .count k seen) :
    (if playing (s.rc k) then seen ++ [k] else seen).Nodup ∧
      (∀ j ∈ if playing (s.rc k) then seen ++ [k] else seen, j.val < k + 1) ∧
      ∀ j : Slot, j.val < k + 1 → playing (s.rc j) = true → j ∈ if playing (s.rc k) then seen ++ [k] else seen := by
  obtain ⟨nodup, below, all⟩ := inv.counted i k seen hp
  cases hk : playing (s.rc k) with
  | true =>
    simp only [if_true]
    refine ⟨?_, fun j hj => ?_, fun j hj hpj => ?_⟩
    · refine List.nodup_append.mpr ⟨nodup, List.nodup_singleton k, fun a ha b hb => ?_⟩
      rintro rfl
      exact absurd (below a ha) (by rw [List.mem_singleton.mp hb]; exact lt_irrefl _)
    · rcases List.mem_append.mp hj with h | h
      · exact Nat.lt_succ_of_lt (below j h)
      · rw [List.mem_singleton.mp h]
        exact Nat.lt_succ_self _
    · rcases Nat.lt_succ_iff_lt_or_eq.mp hj with h | h
      · exact List.mem_append_left _ (all j h hpj)
      · exact List.mem_append_right _ (List.mem_singleton.mpr (Fin.ext h))
  | false =>
    simp only [Bool.false_eq_true, if_false]
    refine ⟨nodup, fun j hj => Nat.lt_succ_of_lt (below j hj), fun j hj hpj => ?_⟩
    rcases Nat.lt_succ_iff_lt_or_eq.mp hj with h | h
    · exact all j h hpj
    · rw [Fin.ext h, hk] at hpj
      cases hpj

/-- All players have been seen when the count is complete. -/
theorem count_le (inv : Inv s) {seen : List Slot} (hp : s.pc i = .count rtspInfoMax seen) :
    s.count ≤ seen.length := by
  obtain ⟨nodup, _, all⟩ := inv.counted i _ seen hp
  rw [← List.toFinset_card_of_nodup nodup, count, tally]
  refine Finset.card_le_card fun j hj => ?_
  exact List.mem_toFinset.mpr (all j j.isLt (Finset.mem_filter.mp hj).2)

theorem inv_step (inv : Inv s) (ok : Orderly s l) (h : players.step s l t) : Inv t := by
  cases h with
  | other hq => exact inv.setRc fun hp => by rwa [playing, hq] at hp
  | clear => exact inv.setRc fun hp => by cases hp
  | begin hp hs =>
    exact (inv.setRc fun h => (state_playing hs).symm.trans h).goes (fun _ => rfl) (fun _ => nofun) nofun
      (fun _ _ => nofun) nofun
  | testNull hp hn => exact inv.goes (fun _ => rfl) (fun _ => nofun) nofun (fun _ _ => nofun) nofun
  | testMade hp hm =>
    refine inv.goes (fun hn => ?_) (fun _ => nofun) nofun (fun _ _ => nofun) nofun
    rw [hn] at hm
    cases hm
  | create hp =>
    rename_i i
    have none : s.handle = none := ok
    have before := inv.fresh none
    have past (j : Slot) (hj : j ≠ i) : ((s.setPc i .take).pc j).past = false := by
      rw [setPc_of_ne s i j _ hj]
      exact before j
    refine { inv with
      fresh := nofun, waits := fun j m hj => ?_, holds := fun j hj => ?_, counted := fun j k seen hj => ?_
      room := fun j hj => ?_ }
    · by_cases h : j = i
      · rw [h] at hj
        exact absurd ((setPc_self s i _).symm.trans hj) nofun
      · have quiet := past j h
        rw [show (s.setPc i .take).pc j = .wait m from hj] at quiet
        cases quiet
    · by_cases h : j = i
      · rw [h] at hj
        exact absurd ((congrArg SetupPc.inside (setPc_self s i .take)).symm.trans hj) nofun
      · exact absurd (inside_past hj) (by rw [past j h]; nofun)
    · by_cases h : j = i
      · rw [h] at hj
        exact absurd ((setPc_self s i _).symm.trans hj) nofun
      · have quiet := past j h
        rw [show (s.setPc i .take).pc j = .count k seen from hj] at quiet
        cases quiet
    · by_cases h : j = i
      · rw [h] at hj
        exact absurd ((congrArg SetupPc.storing (setPc_self s i .take)).symm.trans hj) nofun
      · exact absurd (inside_past (storing_inside hj)) (by rw [past j h]; nofun)
  | call hp hm =>
    refine inv.goes (fun hn => ?_) (fun m h => ?_) nofun (fun _ _ => nofun) nofun
    · rw [hn] at hm
      cases hm
    · cases h
      exact hm
  | take hp free =>
    rename_i i m
    have handle := inv.waits i m hp
    refine inv.setPc (fun j m' _ _ hm' => ?_) (fun hn => ?_) (fun _ => nofun) (fun _ => ⟨m, handle, ?_⟩)
      (fun k seen h => ?_) nofun
    · have other : m' ≠ m := by
        rintro rfl
        rw [free] at hm'
        cases hm'
      exact (Function.update_of_ne other _ _).trans hm'
    · rw [hn] at handle
      cases handle
    · exact Function.update_self _ _ _
    · cases h
      exact ⟨List.nodup_nil, fun _ hj => (nomatch hj), fun _ hj => absurd hj (Nat.not_lt_zero _)⟩
  | look hp =>
    rename_i i k seen
    refine inv.setPc (fun _ _ _ _ h => h) (fun hn => ?_) (fun _ => nofun) (fun _ => inv.holds _ (by rw [hp]; rfl))
      (fun k seen h => ?_) nofun
    · have past := inv.fresh hn i
      rw [hp] at past
      cases past
    · cases h
      exact count_step inv hp
  | grant e hp hc ha =>
    rename_i i seen r reply
    have keeps := (setupAdmit_inr e ha).1
    have same : playing r.markReady = true → playing (s.rc i) = true := by
      rw [markReady_playing, playing, playing, keeps.playQuery]
      exact id
    have fewer : (s.setRc i r.markReady).count ≤ s.count := by
      have moved := count_setRc s i r.markReady
      rw [markReady_playing, show playing r = playing (s.rc i) by rw [playing, playing, keeps.playQuery]] at moved
      omega
    refine (inv.setRc same).goes (fun hn => ?_) (fun _ => nofun) (fun _ => ?_) (fun _ _ => nofun) fun _ => ?_
    · have past := inv.fresh hn i
      rw [hp] at past
      cases past
    · rw [setRc_pc, hp]
      rfl
    · exact (fewer.trans (count_le inv hp)).trans_lt (hc ▸ setupAdmit_room ha)
  | refuse e hp hc ha =>
    rename_i i seen a
    have keeps := (setupAdmit_inl e ha).1
    have same : playing a.rc = true → playing (s.rc i) = true := by
      rw [playing, playing, keeps.playQuery]
      exact id
    have gone : Inv ((s.setRc i a.rc).setPc i .give) := by
      refine (inv.setRc same).goes (fun hn => ?_) (fun _ => nofun) (fun _ => ?_) (fun _ _ => nofun) nofun
      · have past := inv.fresh hn i
        rw [hp] at past
        cases past
      · rw [setRc_pc, hp]
        rfl
    refine { gone with others := fun x hx => ?_ }
    by_cases h453 : statusOf a.reply = some .s453
    · have full : rtspPlayMax ≤ seen.length := hc ▸ setupAdmit_453 ha h453
      simp only [if_pos h453] at hx
      rcases List.mem_append.mp hx with h | h
      · exact inv.others x h
      · rw [List.mem_singleton.mp h]
        exact ⟨ok seen hp full, (inv.counted i _ seen hp).1, full⟩
    · simp only [if_neg h453] at hx
      exact inv.others x hx
  | load hp =>
    rename_i i
    refine inv.goes (fun hn => ?_) (fun _ => nofun) (fun _ => by rw [hp]; rfl) (fun _ _ => nofun)
      fun _ => inv.room i (by rw [hp]; rfl)
    have past := inv.fresh hn i
    rw [hp] at past
    cases past
  | store hp =>
    rename_i i n
    have inside : (s.pc i).inside = true := by
      rw [hp]
      rfl
    have others (j : Slot) (hj : j ≠ i) : (s.pc j).inside = false :=
      Bool.eq_false_iff.mpr fun h => hj (inv.alone h inside)
    have room := inv.room i (by rw [hp]; rfl)
    have moved := count_setRc s i ((s.rc i).storeQuery n)
    have one := Bool.toNat_le (playing ((s.rc i).storeQuery n))
    have pc (j : Slot) (hj : j ≠ i) :
        ((s.setRc i ((s.rc i).storeQuery n)).setPc i .give).pc j = s.pc j := setPc_of_ne _ i j _ hj
    have own : ((s.setRc i ((s.rc i).storeQuery n)).setPc i .give).pc i = .give := setPc_self _ i _
    refine ⟨fun hn => ?_, fun j m hj => ?_, fun j hj => ?_, fun j k seen hj => ?_, ?_, fun j hj => ?_, inv.others⟩
    · have past := inv.fresh hn i
      rw [hp] at past
      cases past
    · by_cases h : j = i
      · rw [h, own] at hj
        cases hj
      · exact inv.waits j m ((pc j h).symm.trans hj)
    · by_cases h : j = i
      · exact h ▸ inv.holds i inside
      · rw [pc j h, others j h] at hj
        cases hj
    · by_cases h : j = i
      · rw [h, own] at hj
        cases hj
      · have quiet := others j h
        rw [← pc j h, hj] at quiet
        cases quiet
    · change (s.setRc i ((s.rc i).storeQuery n)).count ≤ rtspPlayMax
      omega
    · by_cases h : j = i
      · rw [h, own] at hj
        cases hj
      · have quiet := others j h
        rw [← pc j h, storing_inside hj] at quiet
        cases quiet
  | give hp hm hh =>
    rename_i i m
    refine inv.setPc (fun j _ hj hin _ => ?_) (fun _ => rfl) (fun _ => nofun) nofun (fun _ _ => nofun) nofun
    exact absurd (inv.alone hin (by rw [hp]; rfl)) hj

theorem players_inv : players.Inductive Orderly Inv := ⟨inv_init, inv_step⟩

theorem Inv.exact (inv : Inv s) : Exact s := by
  refine ⟨inv.limit, fun x hx => ?_⟩
  obtain ⟨other, nodup, full⟩ := inv.others x hx
  rw [List.erase_of_not_mem other]
  exact ⟨nodup, full⟩

/-- The admission is exact in every run in which the mutex is created once and no `SETUP` at the
limit comes from a player. -/
theorem player_admission (s : Players) (r : Reach players Orderly s) : Exact s :=
  (players_inv.reach r).exact

section sample

/-- What the count has seen before slot `n`. -/
def seenBelow (s : Players) (n : Nat) : List Slot :=
  ((List.finRange rtspInfoMax).take n).filter fun k => playing (s.rc k)

theorem seenBelow_succ (s : Players) (k : Slot) : s.seenBelow (k + 1) =
    if playing (s.rc k) then s.seenBelow k ++ [k] else s.seenBelow k := by
  have next : (List.finRange rtspInfoMax).take (k + 1) = (List.finRange rtspInfoMax).take k ++ [k] := by
    rw [List.take_succ_eq_append_getElem (by rw [List.length_finRange]; exact k.isLt), List.getElem_finRange]
    rfl
  rw [seenBelow, next, List.filter_append, List.filter_singleton]
  cases playing (s.rc k) with
  | true => rfl
  | false => exact List.append_nil _

theorem setPc_setPc (s : Players) (i : Slot) (c c' : SetupPc) : (s.setPc i c).setPc i c' = s.setPc i c' := by
  rw [setPc, setPc, setPc]
  simp only [Function.update_idem]

theorem reach_step (r : Reach players Lts.any s) (h : Step s l t) : Reach players Lts.any t :=
  r.step trivial h

theorem looks_reach (r : Reach players Lts.any (s.setPc i (.count 0 []))) (n : Nat) (hn : n ≤ rtspInfoMax) :
    Reach players Lts.any (s.setPc i (.count n (s.seenBelow n))) := by
  induction n with
  | zero => exact r
  | succ n ih =>
    have look := reach_step (ih (Nat.le_of_succ_le hn)) (.look (k := ⟨n, hn⟩) (setPc_self s i _))
    rw [setPc_setPc] at look
    rw [seenBelow_succ s ⟨n, hn⟩]
    exact look

/-- Holding the mutex, with all slots counted. -/
def counting (s : Players) (i : Slot) (m : Nat) : Players :=
  { s with holder := Function.update s.holder m (some i) }.setPc i (.count rtspInfoMax (s.seenBelow rtspInfoMax))

theorem counting_reach {m : Nat} (r : Reach players Lts.any s) (hp : s.pc i = .take) (hm : s.handle = some m)
    (hh : s.holder m = none) : Reach players Lts.any (s.counting i m) := by
  have wait := reach_step r (.call hp hm)
  have take := reach_step wait (.take (setPc_self s i _) hh)
  have held := looks_reach (s := { s with holder := Function.update s.holder m (some i) }) (i := i) (by
    rw [← setPc_setPc _ i (.wait m)]
    exact take) rtspInfoMax le_rfl
  exact held

/-- Holding the mutex, admitted. -/
def loading (s : Players) (i : Slot) (m : Nat) (r : RtspClient) : Players :=
  ({ s with holder := Function.update s.holder m (some i) }.setRc i r.markReady).setPc i .load

theorem loading_reach {m : Nat} {e : Env} {r : RtspClient} {reply : List UInt8}
    (reach : Reach players Lts.any s) (hp : s.pc i = .take) (hm : s.handle = some m) (hh : s.holder m = none)
    (hc : e.playerCount = (s.seenBelow rtspInfoMax).length) (ha : (s.rc i).setupAdmit e = .inr (r, reply)) :
    Reach players Lts.any (s.loading i m r) := by
  have granted := reach_step (counting_reach reach hp hm hh) (.grant e (setPc_self _ i _) hc ha)
  simp only [counting, setPc, setRc, Function.update_idem] at granted
  exact granted

/-- The two steps of `play_query |= setup_query`. -/
theorem store_reach (reach : Reach players Lts.any s) (hp : s.pc i = .load) :
    Reach players Lts.any ((s.setRc i ((s.rc i).storeQuery (s.rc i).playQuery)).setPc i .give) := by
  have store := reach_step (reach_step reach (.load hp)) (.store (setPc_self _ i _))
  simp only [setPc, setRc, Function.update_idem] at store
  exact store

/-- A whole `SETUP` that is admitted, from the take on. -/
theorem admitted_reach {m : Nat} {e : Env} {r : RtspClient} {reply : List UInt8}
    (reach : Reach players Lts.any s) (hp : s.pc i = .take) (hm : s.handle = some m) (hh : s.holder m = none)
    (hc : e.playerCount = (s.seenBelow rtspInfoMax).length) (ha : (s.rc i).setupAdmit e = .inr (r, reply)) :
    Reach players Lts.any ((s.setRc i (r.markReady.storeQuery r.playQuery)).setPc i .idle) := by
  have store := store_reach (loading_reach reach hp hm hh hc ha) (setPc_self _ i _)
  have done := reach_step store (.give (m := m) (setPc_self _ i _) hm (Function.update_self _ _ _))
  have given : Function.update s.holder m none = s.holder := by
    rw [← hh]
    exact Function.update_eq_self m s.holder
  simp only [loading, setPc, setRc, Function.update_idem, Function.update_self, given] at done
  exact done

/-- A `SETUP` that finds the mutex made gets to the take. -/
theorem begin_reach {r : RtspClient} {m : Nat} (reach : Reach players Lts.any s) (hp : s.pc i = .idle)
    (hs : rtspdClientRtspState (s.rc i) .setup = (true, r)) (hm : s.handle = some m) :
    Reach players Lts.any ((s.setRc i r).setPc i .take) := by
  have begins := reach_step reach (.begin hp hs)
  have tests := reach_step begins (.testMade (setPc_self _ i _) hm)
  rwa [setPc_setPc] at tests

/-- A client whose `SETUP` for video over TCP has been read. -/
def sampleReady : RtspClient :=
  { RtspClient.zero with
    clientid := 9
    login := true
    state := .options
    isLive := .liveH264_1
    eTransport := .tcp
    isTransport := true
    setupQuery := strtypeVideo }

def sampleSetup : RtspClient := { sampleReady with state := .setup }

def sampleCount (n : Nat) : Env := { sampleEnv .none with playerCount := n }

/-- The client once its `SETUP` is answered 200. -/
def sampleServed : RtspClient :=
  { sampleSetup with rtpSs := some .zero }.setupFill (sampleEnv .none) payloadH264

def samplePlayer : RtspClient := sampleServed.markReady.storeQuery sampleServed.playQuery

def second : Slot := ⟨1, by decide⟩

def samplePlayers : Players := ⟨fun _ => sampleReady, fun _ => .idle, none, fun _ => none, 0, []⟩

theorem sampleServed_passes (n : Nat) (h : n < rtspPlayMax) :
    sampleSetup.setupAdmit (sampleCount n) = .inr (sampleServed, sampleServed.setupReply (sampleCount n)) := by
  unfold RtspClient.setupAdmit
  rw [if_neg (show ¬ rtspPlayMax ≤ (sampleCount n).playerCount from Nat.not_le.mpr h)]
  rfl

theorem samplePlayer_again (n : Nat) (h : n < rtspPlayMax) : ∃ x, samplePlayer.setupAdmit (sampleCount n) = .inr x := by
  unfold RtspClient.setupAdmit
  rw [if_neg (show ¬ rtspPlayMax ≤ (sampleCount n).playerCount from Nat.not_le.mpr h)]
  exact ⟨_, rfl⟩

theorem samplePlayers_reach : Reach players Lts.any samplePlayers :=
  .init ⟨fun _ => ⟨rfl, rfl⟩, rfl, rfl, fun _ => rfl, rfl⟩

def third : Slot := ⟨2, by decide⟩

theorem orderly_step (r : Reach players Orderly s) (h : Step s l t) (ok : Orderly s l) :
    Reach players Orderly t := r.step ok h

/-- The first task makes the mutex. -/
theorem player_admission_first : ∃ s, s.handle = some 0 ∧ s.pc Server.first = .take ∧ Exact s := by
  have init : Reach players Orderly samplePlayers := .init ⟨fun _ => ⟨rfl, rfl⟩, rfl, rfl, fun _ => rfl, rfl⟩
  have begins := orderly_step init (.begin (i := Server.first) (r := sampleSetup) rfl rfl) trivial
  have tests := orderly_step begins (.testNull (setPc_self _ _ _) rfl) trivial
  have creates := orderly_step tests (.create (setPc_self _ _ _)) rfl
  have exact_now := player_admission _ creates
  exact ⟨_, by rfl, by rfl, exact_now⟩

/-- Three tasks pass the test before one of them has made the mutex: each makes its own. -/
theorem players_raced : ∃ s, Reach players Lts.any s ∧ s.count = 3 := by
  have tested {s : Players} {i : Slot} (reach : Reach players Lts.any s) (hp : s.pc i = .idle)
      (hr : s.rc i = sampleReady) (hm : s.handle = none) :
      Reach players Lts.any ((s.setRc i sampleSetup).setPc i .create) := by
    have begins := reach_step reach (.begin hp (r := sampleSetup) (by rw [hr]; rfl))
    have tests := reach_step begins (.testNull (setPc_self _ i _) hm)
    rwa [setPc_setPc] at tests
  have tests := tested (tested (tested samplePlayers_reach (i := Server.first) rfl rfl rfl)
    (i := second) rfl rfl rfl) (i := third) rfl rfl rfl
  have one := loading_reach (reach_step tests (.create (i := Server.first) rfl)) (setPc_self _ _ _) rfl rfl
    (e := sampleCount 0) (by decide +kernel) (sampleServed_passes 0 (by decide))
  have two := loading_reach (reach_step one (.create (i := second) rfl)) (setPc_self _ _ _) rfl rfl
    (e := sampleCount 0) (by decide +kernel) (sampleServed_passes 0 (by decide))
  have three := loading_reach (reach_step two (.create (i := third) rfl)) (setPc_self _ _ _) rfl rfl
    (e := sampleCount 0) (by decide +kernel) (sampleServed_passes 0 (by decide))
  have stored := store_reach (store_reach (store_reach three (i := Server.first) rfl) (i := second) rfl)
    (i := third) rfl
  exact ⟨_, stored, by decide +kernel⟩

/-- Two slots play; the first asks for another `SETUP`, which passes all other checks, and is
answered 453. -/
theorem player_refused : (∃ x, samplePlayer.setupAdmit (sampleCount 1) = .inr x) ∧
    ∃ s, Reach players Lts.any s ∧ s.rc Server.first = samplePlayer ∧
      s.refused = [(Server.first, [Server.first, second])] ∧ ¬ Exact s := by
  refine ⟨samplePlayer_again 1 (by decide), ?_⟩
  have begins := reach_step samplePlayers_reach (.begin (i := Server.first) (r := sampleSetup) rfl rfl)
  have tests := reach_step begins (.testNull (setPc_self _ _ _) rfl)
  have creates := reach_step tests (.create (setPc_self _ _ _))
  have one := admitted_reach creates (setPc_self _ _ _) rfl rfl (e := sampleCount 0) (by decide +kernel)
    (sampleServed_passes 0 (by decide))
  have begins := begin_reach one (i := second) (r := sampleSetup) rfl rfl rfl
  have two := admitted_reach begins (setPc_self _ _ _) rfl rfl (e := sampleCount 1) (by decide +kernel)
    (sampleServed_passes 1 (by decide))
  have begins := begin_reach two (i := Server.first) (r := samplePlayer) rfl rfl rfl
  have counted := counting_reach begins (setPc_self _ _ _) rfl rfl
  have refuse := reach_step counted
    (.refuse (sampleCount 2) (a := rtspdClientRtspProcessError (sampleCount 2) samplePlayer .s453)
      (setPc_self _ _ _) (by decide +kernel) rfl)
  refine ⟨_, refuse, rfl, by decide +kernel, fun exact => ?_⟩
  have others := exact.others (Server.first, [Server.first, second]) (by decide +kernel)
  exact absurd others.2 (by decide)

end sample

end Players

end En675.Rtsp
