import En675.Net.DhcpLeases
import En675.Net.DhcpOptions

/-! The DHCP server (`dhcpd.c`, `serverpacket.c`): what it makes of a message, and what it sends.  The clock stands
still while a message is handled, every buffer has room for the headers of the packet, and what `sendACK` reads from
a buffer that has been freed is what was in it. -/

namespace En675.Net.Dhcpd

open Lib

section code

/-- `LEASE_TIME`: ten days. -/
def leaseTimeMax : Nat := 60 * 60 * 24 * 10

def bootRequest : UInt8 := 1
def bootReply : UInt8 := 2
def dhcpDiscover : UInt8 := 1
def dhcpOffer : UInt8 := 2
def dhcpRequest : UInt8 := 3
def dhcpDecline : UInt8 := 4
def dhcpAck : UInt8 := 5
def dhcpNak : UInt8 := 6
def dhcpRelease : UInt8 := 7
def dhcpInform : UInt8 := 8

/-- `struct server_config_t`, as far as the server reads it. -/
structure ServerConfig where
  server : Nat
  start : Nat
  end_ : Nat
  options : List Tlv
  lease : Nat
  declineTime : Nat
  offerTime : Nat
  minLease : Nat
  siaddr : Nat
  sname : List UInt8
  bootFile : List UInt8

/-- The address or the number at `p`. -/
def word (m : Mem) (p : Nat) : Nat := readBE (m.read p 4)

def chaddrOf (m : Mem) : List UInt8 := m.read atChaddr 16

/-- In network order, as a number of the processor's. -/
def htonl (v : Nat) : Nat := readBE (be 4 v).reverse

def initHeader (type : UInt8) : Mem :=
  let m : Mem := fun _ => 0
  let m := m.write 0 [
    if type = dhcpDiscover ∨ type = dhcpRequest ∨ type = dhcpRelease ∨ type = dhcpInform then bootRequest
    else if type = dhcpOffer ∨ type = dhcpAck ∨ type = dhcpNak then bootReply
    else 0]
  let m := (m.write 1 [1]).write 2 [6]
  let m := m.write atCookie (be 4 0x63825363)
  let m := m.write atOptions [dhcpEnd]
  addSimpleOption m atOptions dhcpMessageType type.toNat

def initPacket (cfg : ServerConfig) (old : Mem) (type : UInt8) : Mem :=
  let m := initHeader type
  let m := m.write atXid (old.read atXid 4)
  let m := m.write atChaddr (old.read atChaddr 16)
  let m := m.write atFlags (old.read atFlags 2)
  let m := m.write atGiaddr (old.read atGiaddr 4)
  let m := m.write atCiaddr (old.read atCiaddr 4)
  addSimpleOption m atOptions dhcpServerId (htonl cfg.server)

/-- The options of the configuration, but for the lease time. -/
def addOptions (cfg : ServerConfig) (m : Mem) : Mem :=
  cfg.options.foldl (fun m o => if o.code ≠ dhcpLeaseTime then addOptionString m atOptions o else m) m

/-- `strncpy`, into a field of `n + 1` octets. -/
def strncpy (m : Mem) (p n : Nat) (s : List UInt8) : Mem :=
  m.write p (s.take n ++ List.replicate (n - s.length) 0)

def addBootpOptions (cfg : ServerConfig) (m : Mem) : Mem :=
  strncpy (strncpy (m.write atSiaddr (be 4 cfg.siaddr)) atSname 63 cfg.sname) atFile 127 cfg.bootFile

/-- What goes out, and to whom. -/
structure Sent where
  destIp : Nat
  destArp : List UInt8
  packet : Mem

def sendPacketToClient (packet : Mem) (forceBroadcast : Bool) : Sent :=
  if forceBroadcast then ⟨0xFFFFFFFF, List.replicate 6 0xFF, packet⟩
  else if word packet atCiaddr ≠ 0 then ⟨word packet atCiaddr, packet.read atChaddr 6, packet⟩
  else if packet atFlags &&& 0x80 ≠ 0 then ⟨0xFFFFFFFF, List.replicate 6 0xFF, packet⟩
  else ⟨word packet atYiaddr, packet.read atChaddr 6, packet⟩

/-- What comes of a message.  An offer that is abandoned has taken a buffer that nobody frees. -/
inductive Outcome
  | nothing
  | abandoned
  | offer (yiaddr leaseTime : Nat) (sent : Sent)
  | ack (yiaddr leaseTime : Nat) (sent : Sent)
  | nak (sent : Sent)
  | inform (sent : Sent)
  | declined (yiaddr : Nat)
  | released

/-- The address for an offer, or 0. -/
def offerAddress (n : Nat) (cfg : ServerConfig) (now : Nat) (leases : List OfferedAddr) (old : Mem) : Option Nat :=
  match findLeaseByChaddr leases (chaddrOf old) with
  | some (_, lease) => some lease.yiaddr
  | none =>
    match (getOption old dhcpRequestedIp).map (word old) with
    | some req =>
      if cfg.start ≤ req ∧ req ≤ cfg.end_ ∧ notTaken leases now true req = true then some req else search
    | none => search
where
  search : Option Nat :=
    (findAddress n cfg.start cfg.end_ leases now false).bind fun a =>
      if a ≠ 0 then some a else findAddress n cfg.start cfg.end_ leases now true

/-- The lease time that an offer says. -/
def offerTimeFor (cfg : ServerConfig) (now : Nat) (leases : List OfferedAddr) (old : Mem) : Nat :=
  let leaseTime := match findLeaseByChaddr leases (chaddrOf old) with
    | some (_, lease) => if leaseExpired lease now then cfg.lease else lease.expires - now
    | none => cfg.lease
  let leaseTime := match (getOption old dhcpLeaseTime).map (word old) with
    | some t => if cfg.lease < t then cfg.lease else t
    | none => leaseTime
  if leaseTime < cfg.minLease then cfg.lease else leaseTime

/-- The packet of an offer or an acknowledgement. -/
def leasePacket (cfg : ServerConfig) (old : Mem) (type : UInt8) (yiaddr leaseTime : Nat) : Mem :=
  let m := (initPacket cfg old type).write atYiaddr (be 4 yiaddr)
  let m := addSimpleOption m atOptions dhcpLeaseTime (htonl leaseTime)
  addBootpOptions cfg (addOptions cfg m)

def sendOffer (n : Nat) (cfg : ServerConfig) (now : Nat) (leases : List OfferedAddr) (old : Mem) :
    Option (List OfferedAddr × Outcome) :=
  (offerAddress n cfg now leases old).map fun yiaddr =>
    if yiaddr = 0 then (leases, .abandoned)
    else
      let (leases', added) := addLease leases now (chaddrOf old) yiaddr cfg.offerTime
      if added then
        let leaseTime := offerTimeFor cfg now leases old
        (leases', .offer yiaddr leaseTime
          (sendPacketToClient (leasePacket cfg old dhcpOffer yiaddr leaseTime) false))
      else (leases', .abandoned)

def sendNAK (cfg : ServerConfig) (leases : List OfferedAddr) (old : Mem) : List OfferedAddr × Outcome :=
  (leases, .nak (sendPacketToClient (initPacket cfg old dhcpNak) true))

/-- The lease time that an acknowledgement says. -/
def ackTime (cfg : ServerConfig) (old : Mem) : Nat :=
  match (getOption old dhcpLeaseTime).map (word old) with
  | some t => if cfg.lease < t then cfg.lease else if t < cfg.minLease then cfg.lease else t
  | none => cfg.lease

def sendACK (cfg : ServerConfig) (now : Nat) (leases : List OfferedAddr) (old : Mem) (yiaddr : Nat) :
    List OfferedAddr × Outcome :=
  ((addLease leases now (chaddrOf old) yiaddr (ackTime cfg old)).1, .ack yiaddr (ackTime cfg old)
    (sendPacketToClient (leasePacket cfg old dhcpAck yiaddr (ackTime cfg old)) false))

def sendInform (cfg : ServerConfig) (leases : List OfferedAddr) (old : Mem) : List OfferedAddr × Outcome :=
  (leases, .inform (sendPacketToClient (addBootpOptions cfg (addOptions cfg (initPacket cfg old dhcpAck))) false))

/-- `DHCPREQUEST`. -/
def handleRequest (cfg : ServerConfig) (now : Nat) (leases : List OfferedAddr) (packet : Mem) :
    List OfferedAddr × Outcome :=
  let requested := (getOption packet dhcpRequestedIp).map (word packet)
  let serverId := (getOption packet dhcpServerId).map (word packet)
  match findLeaseByChaddr leases (chaddrOf packet), serverId, requested with
  -- SELECTING
  | some (_, lease), some id, requested =>
    if id = cfg.server ∧ requested = some lease.yiaddr then sendACK cfg now leases packet lease.yiaddr
    else (leases, .nothing)
  -- INIT-REBOOT
  | some (_, lease), none, some req =>
    if lease.yiaddr = req then sendACK cfg now leases packet lease.yiaddr else sendNAK cfg leases packet
  -- RENEWING or REBINDING
  | some (_, lease), none, none =>
    if lease.yiaddr = word packet atCiaddr then sendACK cfg now leases packet lease.yiaddr
    else sendNAK cfg leases packet
  | none, some _, _ => (leases, .nothing)
  | none, none, some req =>
    match findLeaseByYiaddr leases req with
    | some (i, lease) =>
      if leaseExpired lease now then (leases.modify i fun l => { l with chaddr := noChaddr }, .nothing)
      else sendNAK cfg leases packet
    -- inside of the range or not, the answer is the same
    | none => sendNAK cfg leases packet
  | none, none, none => (leases, .nothing)

def dhcpdHandlePacket (n : Nat) (cfg : ServerConfig) (now : Nat) (leases : List OfferedAddr) (packet : Mem) :
    Option (List OfferedAddr × Outcome) :=
  match (getOption packet dhcpMessageType).map packet with
  | none => some (leases, .nothing)
  | some state =>
    if state = dhcpDiscover then sendOffer n cfg now leases packet
    else if state = dhcpRequest then some (handleRequest cfg now leases packet)
    else if state = dhcpDecline then
      match findLeaseByChaddr leases (chaddrOf packet) with
      | some (i, lease) =>
        some (leases.modify i fun l => { l with chaddr := noChaddr, expires := (cfg.declineTime + now) % 2 ^ 32 },
          .declined lease.yiaddr)
      | none => some (leases, .nothing)
    else if state = dhcpRelease then
      match findLeaseByChaddr leases (chaddrOf packet) with
      | some (i, _) => some (leases.modify i fun l => { l with expires := now }, .released)
      | none => some (leases, .nothing)
    else if state = dhcpInform then some (sendInform cfg leases packet)
    else some (leases, .nothing)

/-- `msg_in`, with what lies behind it. -/
def msgIn (payload : List UInt8) (behind : Mem) : Mem := fun i =>
  if i < sizeofMessage then payload.getD i 0 else behind i

/-- With the interface up.  What is longer than a message is copied over what lies behind `msg_in`; nothing is said
about that. -/
def dhcpdRecvCb (n : Nat) (cfg : ServerConfig) (now : Nat) (leases : List OfferedAddr) (payload : List UInt8)
    (behind : Mem) : Option (List OfferedAddr × Outcome) :=
  if sizeofMessage < payload.length then none
  else if payload.length < atOptions then some (leases, .nothing)
  else if msgIn payload behind 0 ≠ bootRequest then some (leases, .nothing)
  else dhcpdHandlePacket n cfg now leases (msgIn payload behind)

end code

end En675.Net.Dhcpd
