import En675.Net.DhcpdRuns

/-! No address is two clients' at a time: what the server has promised stands in its table until it expires. -/

namespace En675.Net.Dhcpd

open Lib

/-- Who has been promised an address, and has not lost it, stands in the table. -/
structure Sound (cfg : ServerConfig) (s : Server) : Prop where
  distinct : Distinct s.leases
  range : ∀ l ∈ s.leases, InRange cfg l.yiaddr
  promised : ∀ {c a u}, c ≠ noChaddr → s.promised c = some (a, u) → u < s.now ∨ ⟨c, a, u⟩ ∈ s.leases

/-- An address that was declined stands there without a client. -/
def Shuns (s : Server) : Prop :=
  ∀ a v, s.declined a = some v → v < s.now ∨ a ≠ 0 ∧ ⟨noChaddr, a, v⟩ ∈ s.leases

section step

variable {cfg : ServerConfig} {s : Server} {d : Datagram} {leases : List OfferedAddr} {out : Outcome}
  {c c' : List UInt8} {now a u : Nat}

theorem recv_handled (fits : cfg.Fits)
    (run : dhcpdRecvCb (cfg.end_ + 1 - cfg.start) cfg d.time s.leases d.payload d.behind = some (leases, out)) :
    Handled cfg d.time s.leases d.client leases out := by
  unfold dhcpdRecvCb at run
  split at run
  · cases run
  · split at run
    · cases run
      exact .nothing
    · split at run
      · cases run
        exact .nothing
      · obtain ⟨leases', out', run', h⟩ := handlePacket_handled fits (Nat.le_refl _) d.time s.leases
          (msgIn d.payload d.behind)
        cases Option.some.inj (run.symm.trans run')
        exact h

theorem note_now : (s.note cfg c now leases out).now = now := by
  cases out <;> rfl

theorem note_leases : (s.note cfg c now leases out).leases = leases := by
  cases out <;> rfl

/-- A message changes nothing that has been promised to others. -/
theorem note_other (ne : c' ≠ c) : (s.note cfg c now leases out).promised c' = s.promised c' := by
  cases out with
  | offer | ack | declined | released => exact Function.update_of_ne ne ..
  | nothing | abandoned | nak | inform => rfl

theorem note_offer {t : Nat} {sent : Sent} :
    (s.note cfg c now leases (.offer a t sent)).promised c = some (a, cfg.offerTime + now) := Function.update_self ..

theorem note_ack {t : Nat} {sent : Sent} :
    (s.note cfg c now leases (.ack a t sent)).promised c = some (a, t + now) := Function.update_self ..

theorem note_declined : (s.note cfg c now leases (.declined a)).promised c = none := Function.update_self ..

theorem note_shuns : (s.note cfg c now leases (.declined a)).declined a = some (cfg.declineTime + now) :=
  Function.update_self ..

theorem note_released : (s.note cfg c now leases .released).promised c = none := Function.update_self ..

/-- The table has room for who is in it already. -/
theorem added_own (pos : 0 < now) {k : OfferedAddr} (hk : k ∈ leases) (own : k.chaddr = c) (real : c ≠ noChaddr)
    (a t : Nat) : (addLease leases now c a t).2 = true :=
  (addLease_added_iff pos).mpr ⟨k, hk, .inr (.inl ⟨real, own⟩)⟩

theorem stamp (le : t ≤ leaseTimeMax) (timely : now + leaseTimeMax < 2 ^ 32) : (t + now) % 2 ^ 32 = t + now :=
  Nat.mod_eq_of_lt (by omega)

/-- What a client has been promised, after a message of his own. -/
theorem Handled.own (fits : cfg.Fits) (sound : Sound cfg s) (timely : Timely s d) (real : c ≠ noChaddr)
    (h : Handled cfg d.time s.leases c leases out)
    (promised : (s.note cfg c d.time leases out).promised c = some (a, u)) : u < d.time ∨ ⟨c, a, u⟩ ∈ leases := by
  obtain ⟨pos, since, until_⟩ := timely
  -- the entry of a promise that has not been touched
  have old (same : s.promised c = some (a, u)) (keep : ⟨c, a, u⟩ ∈ s.leases → d.time ≤ u → ⟨c, a, u⟩ ∈ leases) :
      u < d.time ∨ ⟨c, a, u⟩ ∈ leases := by
    rcases sound.promised real same with lt | mem
    · exact .inl (Nat.lt_of_lt_of_le lt since)
    · exact (Nat.lt_or_ge u d.time).imp id (keep mem)
  cases h with
  | nothing | nak | inform | none => exact old promised fun mem _ => mem
  | full may nonzero full =>
    refine old promised fun mem _ => ?_
    rw [added_own pos mem rfl real] at full
    cases full
  | @offer a' t sent may nonzero added =>
    rw [note_offer] at promised
    cases promised
    right
    have mem := mem_addLease_self added
    rwa [stamp fits.offerTime until_] at mem
  | @ack i l t sent found le =>
    rw [note_ack] at promised
    cases promised
    right
    obtain ⟨there, pass⟩ := findLease_some found
    have mem := mem_addLease_self (added_own pos (List.mem_of_getElem? there) (by simpa using pass) real l.yiaddr t)
    rwa [stamp (le.trans fits.lease) until_] at mem
  | drop there expired =>
    refine old promised fun mem valid => mem_modify_of_ne mem there ?_
    rintro rfl
    exact absurd expired (Nat.not_lt.2 valid)
  | decline =>
    rw [note_declined] at promised
    cases promised
  | release =>
    rw [note_released] at promised
    cases promised

theorem Sound.step (fits : cfg.Fits) (sound : Sound cfg s) (timely : Timely s d)
    (h : Handled cfg d.time s.leases d.client leases out) :
    Sound cfg (s.note cfg d.client d.time leases out) where
  distinct := by
    rw [note_leases]
    exact h.distinct sound.distinct
  range := by
    rw [note_leases]
    exact h.range sound.range
  promised {c a u} real promised := by
    rw [note_now, note_leases]
    by_cases same : c = d.client
    · subst same
      exact h.own fits sound timely real promised
    · rw [note_other same] at promised
      rcases sound.promised real promised with lt | mem
      · exact .inl (Nat.lt_of_lt_of_le lt timely.2.1)
      · refine (Nat.lt_or_ge u d.time).imp id fun valid => ?_
        exact h.keeps sound.distinct mem same (sound.distinct.owned _ mem real) valid

theorem Sound.init (hi : (serves cfg).init s) : Sound cfg s := by
  obtain ⟨⟨k, leases⟩, promised, -⟩ := hi
  have blank {l : OfferedAddr} (hl : l ∈ s.leases) : l = .blank := List.eq_of_mem_replicate (leases ▸ hl)
  refine ⟨⟨?_, ?_, fun l hl real => absurd (blank hl ▸ rfl) real⟩, fun l hl => .inl (blank hl ▸ rfl), ?_⟩
  · rw [leases]
    exact List.pairwise_replicate.mpr (.inr fun _ => rfl)
  · rw [leases]
    exact List.pairwise_replicate.mpr (.inr fun _ => rfl)
  · intro c a u _ h
    rw [promised] at h
    cases h

theorem sound_inductive (fits : cfg.Fits) : (serves cfg).Inductive Timely (Sound cfg) where
  init := Sound.init
  step {s d t} sound timely st := by
    obtain ⟨leases, out, run, rfl⟩ := st
    exact sound.step fits timely (recv_handled fits run)

/-- A declined address stays in the table, unless a client without a hardware address asks for it. -/
theorem Shuns.step (fits : cfg.Fits) (sound : Sound cfg s) (shuns : Shuns s) (timely : Timely s d)
    (real : d.client ≠ noChaddr) (h : Handled cfg d.time s.leases d.client leases out) :
    Shuns (s.note cfg d.client d.time leases out) := by
  have old (a v : Nat) (held : s.declined a = some v) :
      v < d.time ∨ a ≠ 0 ∧ ⟨noChaddr, a, v⟩ ∈ leases := by
    rcases shuns a v held with lt | ⟨nonzero, mem⟩
    · exact .inl (Nat.lt_of_lt_of_le lt timely.2.1)
    · exact (Nat.lt_or_ge v d.time).imp id fun valid => ⟨nonzero, h.keeps sound.distinct mem real.symm nonzero valid⟩
  intro a v held
  rw [note_now, note_leases]
  cases h with
  | nothing | nak | inform | none | full | offer | ack | drop | release => exact old a v held
  | @decline i l found =>
    obtain ⟨there, pass⟩ := findLease_some found
    by_cases same : a = l.yiaddr
    · subst same
      have now_ : Function.update s.declined l.yiaddr (some (cfg.declineTime + d.time)) l.yiaddr = some v := held
      rw [Function.update_self] at now_
      obtain rfl := Option.some.inj now_
      have own : l.chaddr = d.client := by simpa using pass
      have mem := mem_modify_self (f := fun l => { l with chaddr := noChaddr, expires := (cfg.declineTime + d.time) % 2 ^ 32 })
        there
      have stamped : OfferedAddr.mk noChaddr l.yiaddr ((cfg.declineTime + d.time) % 2 ^ 32) =
          ⟨noChaddr, l.yiaddr, cfg.declineTime + d.time⟩ := by
        rw [stamp fits.declineTime timely.2.2]
      exact .inr ⟨sound.distinct.owned l (List.mem_of_getElem? there) (own ▸ real), stamped ▸ mem⟩
    · have before : Function.update s.declined l.yiaddr (some (cfg.declineTime + d.time)) a = some v := held
      rw [Function.update_of_ne same] at before
      exact old a v before

theorem shuns_inductive (fits : cfg.Fits) :
    (serves cfg).Inductive (fun s d => Timely s d ∧ d.client ≠ noChaddr) fun s => Sound cfg s ∧ Shuns s where
  init hi := ⟨Sound.init hi, fun a v held => by
    rw [hi.2.2] at held
    cases held⟩
  step {s d t} inv ok st := by
    obtain ⟨leases, out, run, rfl⟩ := st
    have h := recv_handled fits run
    exact ⟨inv.1.step fits ok.1 h, inv.2.step fits inv.1 ok.1 ok.2 h⟩

end step

section offer

variable {n : Nat} {cfg : ServerConfig} {s : Server} {d : Datagram} {now : Nat} {leases : List OfferedAddr}
  {packet : Mem}

theorem recv_discover (is : d.Is dhcpDiscover) :
    dhcpdRecvCb n cfg d.time leases d.payload d.behind = sendOffer n cfg d.time leases d.message := by
  have op : ¬ msgIn d.payload d.behind 0 ≠ bootRequest := not_not.2 is.op
  have state : (getOption (msgIn d.payload d.behind) dhcpMessageType).map (msgIn d.payload d.behind) = _ := is.state
  unfold dhcpdRecvCb dhcpdHandlePacket
  rw [if_neg (Nat.not_lt.2 is.short), if_neg (Nat.not_lt.2 is.long), if_neg op, state]
  exact if_pos rfl

theorem sendOffer_eq {a : Nat} (address : offerAddress n cfg now leases packet = some a) (nonzero : a ≠ 0) :
    ∃ t sent, sendOffer n cfg now leases packet =
      some ((addLease leases now (chaddrOf packet) a cfg.offerTime).1,
        if (addLease leases now (chaddrOf packet) a cfg.offerTime).2 then .offer a t sent else .abandoned) := by
  refine ⟨offerTimeFor cfg now leases packet, sendPacketToClient
    (leasePacket cfg packet dhcpOffer a (offerTimeFor cfg now leases packet)) false, ?_⟩
  rw [sendOffer, address, Option.map_some, if_neg nonzero]
  split
  rename_i leases' added eq
  rw [eq]
  dsimp only
  split
  · rfl
  · rfl

end offer

/-- A server for 192.168.15.2 to 192.168.15.254. -/
def oneNet : ServerConfig where
  server := 0xC0A80F01
  start := 0xC0A80F02
  end_ := 0xC0A80FFE
  options := attachOption [] ⟨0x01, [255, 255, 255, 0], Nat.le_of_ble_eq_true rfl⟩
  lease := leaseTimeMax
  declineTime := 3600
  offerTime := 60
  minLease := 60
  siaddr := 0
  sname := []
  bootFile := []

/-- A client. -/
def station : List UInt8 := [2, 0, 0, 0, 0, 1] ++ List.replicate 10 0

/-- A message of its that says no more than what it is. -/
def message (time : Nat) (type : UInt8) : Datagram where
  time := time
  payload := [1, 1, 6, 0] ++ List.replicate 24 0 ++ station ++ List.replicate 192 0 ++
    [99, 130, 83, 99, 53, 1, type, 255]
  behind := fun _ => 0

section example_

variable {time : Nat} {type : UInt8}

theorem oneNet_fits : oneNet.Fits := ⟨by decide, by decide, by decide, by decide⟩

theorem message_at (time : Nat) (type : UInt8) : Tlv.At dhcpEnd (message time type).message atOptions [⟨dhcpMessageType, [type], Nat.le_of_ble_eq_true rfl⟩] := rfl

theorem plain_type (short : [type].length < 256) : ∀ o ∈ [Tlv.mk dhcpMessageType [type] short], Plain o := by
  refine List.forall_mem_singleton.mpr ⟨?_, ?_, ?_⟩
  · exact (by decide : dhcpMessageType ≠ dhcpPadding)
  · exact (by decide : dhcpMessageType ≠ dhcpOptionOver)
  · exact (by decide : dhcpMessageType ≠ dhcpEnd)

theorem message_is : (message time type).Is type where
  long := Nat.le_of_ble_eq_true rfl
  short := Nat.le_of_ble_eq_true rfl
  op := rfl
  state := by
    have first : [Tlv.mk dhcpMessageType [type] (Nat.le_of_ble_eq_true rfl)].find? (fun o => o.code == dhcpMessageType) =
        some ⟨dhcpMessageType, [type], Nat.le_of_ble_eq_true rfl⟩ := rfl
    obtain ⟨q, found, -, value⟩ := optionFrom_some (i := 0) (message_at time type) (plain_type _)
      (Nat.le_of_ble_eq_true rfl) first
    rw [getOption, found]
    exact congrArg some (value.get (i := 0) Nat.one_pos)

theorem message_client : (message time type).client = station := rfl

/-- The first offer of a server with two entries. -/
theorem oneNet_offer {s : Server} (hs : s.leases = List.replicate 2 .blank) :
    ∃ t sent, dhcpdRecvCb (oneNet.end_ + 1 - oneNet.start) oneNet 1 s.leases (message 1 dhcpDiscover).payload
      (message 1 dhcpDiscover).behind = some ([⟨station, 0xC0A80F02, 61⟩, .blank], .offer 0xC0A80F02 t sent) := by
  have asked : getOption (message 1 dhcpDiscover).message dhcpRequestedIp = none :=
    optionFrom_none (i := 0) (message_at 1 dhcpDiscover) (plain_type _)
      (by decide) (by decide) rfl
  have known : findLeaseByChaddr (List.replicate 2 .blank) station = none := by decide
  have free : findAddress (oneNet.end_ + 1 - oneNet.start) oneNet.start oneNet.end_ (List.replicate 2 .blank) 1 false =
      some 0xC0A80F02 := by decide
  have address : offerAddress (oneNet.end_ + 1 - oneNet.start) oneNet 1 (List.replicate 2 .blank)
      (message 1 dhcpDiscover).message = some 0xC0A80F02 := by
    unfold offerAddress
    rw [show chaddrOf (message 1 dhcpDiscover).message = station from rfl, known, asked]
    dsimp only [Option.map_none]
    rw [offerAddress.search, free]
    rfl
  have added : addLease (List.replicate 2 .blank) 1 station 0xC0A80F02 oneNet.offerTime =
      ([⟨station, 0xC0A80F02, 61⟩, .blank], true) := by decide
  obtain ⟨t, sent, eq⟩ := sendOffer_eq address (by decide)
  change sendOffer _ _ _ _ _ = some ((addLease (List.replicate 2 .blank) 1 station 0xC0A80F02 oneNet.offerTime).1,
    if (addLease (List.replicate 2 .blank) 1 station 0xC0A80F02 oneNet.offerTime).2 then _ else _) at eq
  rw [added] at eq
  exact ⟨t, sent, (recv_discover message_is).trans (hs ▸ eq)⟩

/-- What the client declines is not its own any more. -/
theorem oneNet_decline {s : Server} (hs : s.leases = [⟨station, 0xC0A80F02, 61⟩, .blank]) :
    dhcpdRecvCb (oneNet.end_ + 1 - oneNet.start) oneNet 2 s.leases (message 2 dhcpDecline).payload
      (message 2 dhcpDecline).behind = some ([⟨noChaddr, 0xC0A80F02, 3602⟩, .blank], .declined 0xC0A80F02) := by
  have is : (message 2 dhcpDecline).Is dhcpDecline := message_is
  have op : ¬ msgIn (message 2 dhcpDecline).payload (message 2 dhcpDecline).behind 0 ≠ bootRequest := not_not.2 is.op
  have state : (getOption (msgIn (message 2 dhcpDecline).payload (message 2 dhcpDecline).behind) dhcpMessageType).map
      (msgIn (message 2 dhcpDecline).payload (message 2 dhcpDecline).behind) = some dhcpDecline := is.state
  have own : findLeaseByChaddr [⟨station, 0xC0A80F02, 61⟩, .blank] station = some (0, ⟨station, 0xC0A80F02, 61⟩) := by
    decide
  have client : chaddrOf (msgIn (message 2 dhcpDecline).payload (message 2 dhcpDecline).behind) = station := rfl
  unfold dhcpdRecvCb dhcpdHandlePacket
  rw [if_neg (Nat.not_lt.2 is.short), if_neg (Nat.not_lt.2 is.long), if_neg op, state, hs]
  dsimp only
  rw [if_neg (by decide), if_neg (by decide), if_pos rfl, client, own]
  rfl

/-- The client has been offered an address; then it has declined it. -/
theorem oneNet_reach : ∃ s t : Server,
    Reach (serves oneNet) (fun s d => Timely s d ∧ d.client ≠ noChaddr) s ∧ s.now = 1 ∧
      s.promised station = some (0xC0A80F02, 61) ∧
    Reach (serves oneNet) (fun s d => Timely s d ∧ d.client ≠ noChaddr) t ∧ t.now = 2 ∧
      t.declined 0xC0A80F02 = some 3602 := by
  have start : Reach (serves oneNet) (fun s d => Timely s d ∧ d.client ≠ noChaddr)
      ⟨0, List.replicate 2 .blank, fun _ => none, fun _ => none⟩ := .init ⟨⟨2, rfl⟩, rfl, rfl⟩
  obtain ⟨t, sent, offer⟩ := oneNet_offer (s := ⟨0, List.replicate 2 .blank, fun _ => none, fun _ => none⟩) rfl
  have real (time : Nat) (type : UInt8) : (message time type).client ≠ noChaddr := by
    rw [message_client]
    decide
  have offered := start.step (l := message 1 dhcpDiscover) ⟨⟨by decide, by decide, by decide⟩, real _ _⟩
    ⟨_, _, offer, rfl⟩
  have declined := offered.step (l := message 2 dhcpDecline) ⟨⟨by decide, by rw [note_now]; decide, by decide⟩,
    real _ _⟩ ⟨_, _, oneNet_decline note_leases, rfl⟩
  exact ⟨_, _, offered, note_now, note_offer, declined, note_now, note_shuns⟩

end example_

section results

variable {cfg : ServerConfig} {s : Server}

/-- An address that a client has declined is promised to nobody for as long as `decline_time`. -/
theorem dhcp_declined (fits : cfg.Fits)
    (reach : Reach (serves cfg) (fun s d => Timely s d ∧ d.client ≠ noChaddr) s) :
    ∀ a v, s.declined a = some v → s.now ≤ v → ∀ c u, c ≠ noChaddr → s.promised c = some (a, u) → u < s.now := by
  obtain ⟨sound, shuns⟩ := (shuns_inductive fits).reach reach
  intro a v declined le c u real promised
  rcases shuns a v declined with lt | ⟨nonzero, mem⟩
  · exact absurd le (Nat.not_le.2 lt)
  · refine (sound.promised real promised).resolve_right fun mem' => real ?_
    have same := sound.distinct.yiaddr_unique mem' mem rfl nonzero
    exact congrArg OfferedAddr.chaddr same

theorem oneNet_declined : ∃ t : Server, t.declined 0xC0A80F02 = some 3602 ∧
    ∀ c u, c ≠ noChaddr → t.promised c = some (0xC0A80F02, u) → u < t.now := by
  obtain ⟨-, t, -, -, -, reach, now, declined⟩ := oneNet_reach
  exact ⟨t, declined, dhcp_declined oneNet_fits reach _ _ declined (by rw [now]; decide)⟩

end results

end En675.Net.Dhcpd
