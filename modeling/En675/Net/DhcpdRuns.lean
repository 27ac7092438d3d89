import Mathlib.Logic.Function.Basic
import En675.Lib.Transition
import En675.Net.Dhcpd

/-! The DHCP server over time, with whatever messages come from whatever clients: who has been told that an address
is his, and until when. -/

namespace En675.Net.Dhcpd

open Lib

/-- What the configuration keeps to: no time is longer than `LEASE_TIME`. -/
structure ServerConfig.Fits (cfg : ServerConfig) : Prop where
  top : cfg.end_ + 1 < 2 ^ 32
  lease : cfg.lease ≤ leaseTimeMax
  declineTime : cfg.declineTime ≤ leaseTimeMax
  offerTime : cfg.offerTime ≤ leaseTimeMax

/-- The address that a client is offered: his own, or one that nobody has. -/
def MayOffer (cfg : ServerConfig) (now : Nat) (leases : List OfferedAddr) (c : List UInt8) (a : Nat) : Prop :=
  (∃ i l, findLeaseByChaddr leases c = some (i, l) ∧ l.yiaddr = a) ∨
    findLeaseByChaddr leases c = none ∧ cfg.start ≤ a ∧ a ≤ cfg.end_ ∧ notTaken leases now true a = true

/-- What becomes of the table, and what comes out. -/
inductive Handled (cfg : ServerConfig) (now : Nat) (leases : List OfferedAddr) (c : List UInt8) :
    List OfferedAddr → Outcome → Prop
  | nothing : Handled cfg now leases c leases .nothing
  | nak (sent : Sent) : Handled cfg now leases c leases (.nak sent)
  | inform (sent : Sent) : Handled cfg now leases c leases (.inform sent)
  | none : Handled cfg now leases c leases .abandoned
  | full : MayOffer cfg now leases c a → a ≠ 0 → (addLease leases now c a cfg.offerTime).2 = false →
      Handled cfg now leases c (addLease leases now c a cfg.offerTime).1 .abandoned
  | offer (t : Nat) (sent : Sent) : MayOffer cfg now leases c a → a ≠ 0 →
      (addLease leases now c a cfg.offerTime).2 = true →
      Handled cfg now leases c (addLease leases now c a cfg.offerTime).1 (.offer a t sent)
  | ack (sent : Sent) : findLeaseByChaddr leases c = some (i, l) → t ≤ cfg.lease →
      Handled cfg now leases c (addLease leases now c l.yiaddr t).1 (.ack l.yiaddr t sent)
  | drop : leases[i]? = some l → l.expires < now →
      Handled cfg now leases c (leases.modify i fun l => { l with chaddr := noChaddr }) .nothing
  | decline : findLeaseByChaddr leases c = some (i, l) →
      Handled cfg now leases c
        (leases.modify i fun l => { l with chaddr := noChaddr, expires := (cfg.declineTime + now) % 2 ^ 32 })
        (.declined l.yiaddr)
  | release : findLeaseByChaddr leases c = some (i, l) →
      Handled cfg now leases c (leases.modify i fun l => { l with expires := now }) .released

section step

variable {n : Nat} {cfg : ServerConfig} {now : Nat} {leases leases' : List OfferedAddr} {out : Outcome}
  {c : List UInt8} {a : Nat}

theorem notTaken_weaken (h : notTaken leases now false a = true) : notTaken leases now true a = true := by
  unfold notTaken at *
  split at h
  · rfl
  · cases h

theorem offerAddress_cases (now : Nat) (leases : List OfferedAddr) (top : cfg.end_ + 1 < 2 ^ 32)
    (hn : cfg.end_ + 1 - cfg.start ≤ n) (packet : Mem) :
    ∃ a, offerAddress n cfg now leases packet = some a ∧
      (a ≠ 0 → MayOffer cfg now leases (chaddrOf packet) a) := by
  obtain ⟨a, run, some, -⟩ := findAddress_spec leases now false top hn
  obtain ⟨b, run', some', -⟩ := findAddress_spec leases now true top hn
  have search (free : findLeaseByChaddr leases (chaddrOf packet) = none) :
      ∃ a, offerAddress.search n cfg now leases = .some a ∧
        (a ≠ 0 → MayOffer cfg now leases (chaddrOf packet) a) := by
    unfold offerAddress.search
    rw [run, Option.bind_some]
    by_cases zero : a ≠ 0
    · obtain ⟨lower, upper, -, -, free'⟩ := some zero
      exact ⟨a, if_pos zero, fun _ => .inr ⟨free, lower, upper, notTaken_weaken free'⟩⟩
    · rw [if_neg zero]
      refine ⟨b, run', fun nonzero => ?_⟩
      obtain ⟨lower, upper, -, -, free'⟩ := some' nonzero
      exact .inr ⟨free, lower, upper, free'⟩
  unfold offerAddress
  split
  · rename_i i l found
    exact ⟨_, rfl, fun _ => .inl ⟨i, l, found, rfl⟩⟩
  · rename_i free
    split
    · rename_i req _
      split
      · rename_i fits
        exact ⟨req, rfl, fun _ => .inr ⟨free, fits.1, fits.2.1, fits.2.2⟩⟩
      · exact search free
    · exact search free

theorem ackTime_le (cfg : ServerConfig) (packet : Mem) : ackTime cfg packet ≤ cfg.lease := by
  unfold ackTime
  split
  · split
    · exact Nat.le_refl _
    · split
      · exact Nat.le_refl _
      · omega
  · exact Nat.le_refl _

theorem handleRequest_handled (cfg : ServerConfig) (now : Nat) (leases : List OfferedAddr) (packet : Mem) :
    Handled cfg now leases (chaddrOf packet) (handleRequest cfg now leases packet).1
      (handleRequest cfg now leases packet).2 := by
  have ack {i : Nat} {l : OfferedAddr} (found : findLeaseByChaddr leases (chaddrOf packet) = some (i, l)) :
      Handled cfg now leases (chaddrOf packet) (sendACK cfg now leases packet l.yiaddr).1
        (sendACK cfg now leases packet l.yiaddr).2 := .ack _ found (ackTime_le cfg packet)
  unfold handleRequest
  dsimp only
  split
  · rename_i found _
    split
    · exact ack found
    · exact .nothing
  · rename_i found _ _
    split
    · exact ack found
    · exact .nak _
  · rename_i found _ _
    split
    · exact ack found
    · exact .nak _
  · exact .nothing
  · split
    · rename_i found
      split
      · rename_i expired
        exact .drop (findLease_some found).1 (of_decide_eq_true expired)
      · exact .nak _
    · exact .nak _
  · exact .nothing

/-- Every message is dealt with, in one of these ways. -/
theorem handlePacket_handled (fits : cfg.Fits) (hn : cfg.end_ + 1 - cfg.start ≤ n) (now : Nat)
    (leases : List OfferedAddr) (packet : Mem) :
    ∃ leases' out, dhcpdHandlePacket n cfg now leases packet = some (leases', out) ∧
      Handled cfg now leases (chaddrOf packet) leases' out := by
  unfold dhcpdHandlePacket
  split
  · exact ⟨_, _, rfl, .nothing⟩
  · split
    · obtain ⟨a, address, may⟩ := offerAddress_cases now leases fits.top hn packet
      rw [sendOffer, address, Option.map_some]
      split
      · exact ⟨_, _, rfl, .none⟩
      · rename_i some
        split
        rename_i leases' added eq
        have first : leases' = (addLease leases now (chaddrOf packet) a cfg.offerTime).1 := by rw [eq]
        have second : added = (addLease leases now (chaddrOf packet) a cfg.offerTime).2 := by rw [eq]
        subst first second
        split
        · rename_i added
          exact ⟨_, _, rfl, .offer _ _ (may some) some added⟩
        · rename_i full
          exact ⟨_, _, rfl, .full (may some) some (Bool.eq_false_of_not_eq_true full)⟩
    · split
      · exact ⟨_, _, rfl, handleRequest_handled cfg now leases packet⟩
      · split
        · split
          · rename_i found
            exact ⟨_, _, rfl, .decline found⟩
          · exact ⟨_, _, rfl, .nothing⟩
        · split
          · split
            · rename_i found
              exact ⟨_, _, rfl, .release found⟩
            · exact ⟨_, _, rfl, .nothing⟩
          · split
            · exact ⟨_, _, rfl, .inform _⟩
            · exact ⟨_, _, rfl, .nothing⟩

end step

section table

variable {cfg : ServerConfig} {now : Nat} {leases leases' : List OfferedAddr} {out : Outcome} {c : List UInt8}
  {k x : OfferedAddr} {i a : Nat}

theorem mem_modify_of_ne {f : OfferedAddr → OfferedAddr} (hk : k ∈ leases) (there : leases[i]? = some x) (ne : k ≠ x) :
    k ∈ leases.modify i f := by
  obtain ⟨j, hj, rfl⟩ := List.getElem_of_mem hk
  have other : i ≠ j := by
    rintro rfl
    rw [List.getElem?_eq_getElem hj] at there
    exact ne (Option.some.inj there)
  refine List.mem_of_getElem? (i := j) ?_
  rw [List.getElem?_modify, List.getElem?_eq_getElem hj]
  exact congrArg some (if_neg other)

theorem mem_modify_self {f : OfferedAddr → OfferedAddr} (there : leases[i]? = some x) : f x ∈ leases.modify i f := by
  refine List.mem_of_getElem? (i := i) ?_
  rw [List.getElem?_modify, there]
  exact congrArg some (if_pos rfl)

theorem MayOffer.yiaddr_ne (d : Distinct leases) (may : MayOffer cfg now leases c a) (nonzero : a ≠ 0) (hk : k ∈ leases)
    (other : k.chaddr ≠ c) (valid : now ≤ k.expires) : k.yiaddr ≠ a := by
  rcases may with ⟨i, l, found, rfl⟩ | ⟨-, -, -, free⟩
  · obtain ⟨there, pass⟩ := findLease_some found
    have own : l.chaddr = c := by simpa using pass
    intro same
    have eq := d.yiaddr_unique hk (List.mem_of_getElem? there) same (same ▸ nonzero)
    exact other (eq ▸ own)
  · intro same
    exact absurd ((notTaken_iff d nonzero).mp free k hk same).2 (Nat.not_lt.2 valid)

/-- An entry that is valid stays, whatever another client sends. -/
theorem Handled.keeps (d : Distinct leases) (h : Handled cfg now leases c leases' out) (hk : k ∈ leases)
    (other : k.chaddr ≠ c) (real : k.yiaddr ≠ 0) (valid : now ≤ k.expires) : k ∈ leases' := by
  have own {i : Nat} {l : OfferedAddr} (found : findLeaseByChaddr leases c = some (i, l)) :
      leases[i]? = some l ∧ k ≠ l := by
    obtain ⟨there, pass⟩ := findLease_some found
    refine ⟨there, ?_⟩
    rintro rfl
    exact other (by simpa using pass)
  cases h with
  | nothing | nak | inform | none => exact hk
  | full may nonzero _ | offer _ _ may nonzero _ =>
    refine mem_addLease_of_other hk (fun same => ?_) valid
    exact same.elim (fun h => other h.2) fun h => may.yiaddr_ne d nonzero hk other valid h.2
  | @ack i l t sent found _ =>
    obtain ⟨there, ne⟩ := own found
    refine mem_addLease_of_other hk (fun same => ?_) valid
    exact same.elim (fun h => other h.2)
      fun h => ne (d.yiaddr_unique hk (List.mem_of_getElem? there) h.2 real)
  | drop there expired =>
    refine mem_modify_of_ne hk there ?_
    rintro rfl
    exact absurd expired (Nat.not_lt.2 valid)
  | decline found | release found =>
    obtain ⟨there, ne⟩ := own found
    exact mem_modify_of_ne hk there ne

theorem Handled.distinct (d : Distinct leases) (h : Handled cfg now leases c leases' out) : Distinct leases' := by
  cases h with
  | nothing | nak | inform | none => exact d
  | full may nonzero _ | offer _ _ may nonzero _ => exact d.addLease now (fun _ => nonzero) _
  | @ack i l t sent found _ =>
    obtain ⟨there, pass⟩ := findLease_some found
    refine d.addLease now (fun real => ?_) _
    have own : l.chaddr = c := by simpa using pass
    exact d.owned l (List.mem_of_getElem? there) (own ▸ real)
  | drop | decline =>
    refine d.lessen (forall₂_modify ?_ _ leases)
    exact fun l => ⟨.inr rfl, .inl rfl, fun _ => rfl⟩
  | release =>
    refine d.lessen (forall₂_modify ?_ _ leases)
    exact fun l => ⟨.inl rfl, .inl rfl, fun _ => rfl⟩

/-- An address of the range, or none. -/
def InRange (cfg : ServerConfig) (a : Nat) : Prop := a = 0 ∨ cfg.start ≤ a ∧ a ≤ cfg.end_

theorem mem_modify {f : OfferedAddr → OfferedAddr} (hk : k ∈ leases.modify i f) : ∃ l ∈ leases, k = l ∨ k = f l := by
  obtain ⟨j, hj, rfl⟩ := List.getElem_of_mem hk
  rw [List.length_modify] at hj
  refine ⟨leases[j], List.getElem_mem hj, ?_⟩
  rw [List.getElem_modify]
  split
  · exact .inr rfl
  · exact .inl rfl

theorem Handled.range (range : ∀ l ∈ leases, InRange cfg l.yiaddr) (h : Handled cfg now leases c leases' out) :
    ∀ l ∈ leases', InRange cfg l.yiaddr := by
  have add {a t : Nat} (ha : InRange cfg a) : ∀ l ∈ (addLease leases now c a t).1, InRange cfg l.yiaddr := by
    intro l hl
    rcases mem_addLease hl with rfl | rfl | hl
    · exact ha
    · exact .inl rfl
    · exact range l hl
  have offered {a : Nat} (may : MayOffer cfg now leases c a) : InRange cfg a := by
    rcases may with ⟨i, l, found, rfl⟩ | ⟨-, lower, upper, -⟩
    · exact range l (List.mem_of_getElem? (findLease_some found).1)
    · exact .inr ⟨lower, upper⟩
  cases h with
  | nothing | nak | inform | none => exact range
  | full may nonzero _ | offer _ _ may nonzero _ => exact add (offered may)
  | @ack i l t sent found _ => exact add (range l (List.mem_of_getElem? (findLease_some found).1))
  | drop | decline | release =>
    intro l hl
    obtain ⟨x, hx, rfl | rfl⟩ := mem_modify hl
    · exact range _ hx
    · exact range x hx

end table

section system

/-- The server, with who has been told what: the address and until when, and the addresses that were declined. -/
structure Server where
  now : Nat
  leases : List OfferedAddr
  promised : List UInt8 → Option (Nat × Nat)
  declined : Nat → Option Nat

/-- What arrives at the port, and what lies behind it in memory then. -/
structure Datagram where
  time : Nat
  payload : List UInt8
  behind : Mem

def Datagram.message (d : Datagram) : Mem := msgIn d.payload d.behind

def Datagram.client (d : Datagram) : List UInt8 := chaddrOf d.message

/-- A message that gets as far as the switch, and there. -/
structure Datagram.Is (d : Datagram) (type : UInt8) : Prop where
  long : atOptions ≤ d.payload.length
  short : d.payload.length ≤ sizeofMessage
  op : d.message 0 = bootRequest
  state : (getOption d.message dhcpMessageType).map d.message = some type

def Server.note (s : Server) (cfg : ServerConfig) (c : List UInt8) (now : Nat) (leases : List OfferedAddr) :
    Outcome → Server
  | .offer a _ _ => ⟨now, leases, Function.update s.promised c (some (a, cfg.offerTime + now)), s.declined⟩
  | .ack a t _ => ⟨now, leases, Function.update s.promised c (some (a, t + now)), s.declined⟩
  | .declined a =>
    ⟨now, leases, Function.update s.promised c none, Function.update s.declined a (some (cfg.declineTime + now))⟩
  | .released => ⟨now, leases, Function.update s.promised c none, s.declined⟩
  | _ => ⟨now, leases, s.promised, s.declined⟩

/-- From a table that has been cleared. -/
def serves (cfg : ServerConfig) : Lts Server Datagram where
  init s := (∃ k, s.leases = List.replicate k .blank) ∧ (s.promised = fun _ => none) ∧ s.declined = fun _ => none
  step s d t := ∃ leases out,
    dhcpdRecvCb (cfg.end_ + 1 - cfg.start) cfg d.time s.leases d.payload d.behind = some (leases, out) ∧
      t = s.note cfg d.client d.time leases out

/-- The clock has been set, is not set back, and its time fits the table for as long as a lease lasts. -/
def Timely (s : Server) (d : Datagram) : Prop := 0 < d.time ∧ s.now ≤ d.time ∧ d.time + leaseTimeMax < 2 ^ 32

end system

end En675.Net.Dhcpd
