import En675.Lib.Word
import En675.Lib.Scan
import En675.Lib.Transition

/-! The destination filter of the Ethernet MAC (`eth.c`) and how IGMP fills it (`ethernetif.c`), beside
the mapping of the Wi-Fi port (`wifiif.c`).  The processor is little-endian, and group addresses are in
network byte order.  Only the MAC addresses of the Wi-Fi port are modelled, not its firmware. -/

namespace En675.Net

open Lib

structure MacAddr where
  b0 : UInt8
  b1 : UInt8
  b2 : UInt8
  b3 : UInt8
  b4 : UInt8
  b5 : UInt8
  deriving DecidableEq

/-- `ip4_addr_t`. -/
structure Ip4Addr where
  addr : UInt32
  deriving DecidableEq

namespace Ip4Addr

variable (g : Ip4Addr)

/-- `ip4_addr_get_byte`. -/
def byte (i : Nat) : UInt8 := (g.addr >>> (8 * i).toUInt32).toUInt8

def ip4Addr2 : UInt8 := g.byte 1

def ip4Addr3 : UInt8 := g.byte 2

def ip4Addr4 : UInt8 := g.byte 3

/-- What the address is when it is written down. -/
def host : Nat :=
  (g.byte 0).toNat * 2 ^ 24 + (g.byte 1).toNat * 2 ^ 16 + (g.byte 2).toNat * 2 ^ 8 + (g.byte 3).toNat

/-- The MAC address of a group: its low 23 bits behind 01:00:5E. -/
def groupMac : MacAddr :=
  let low := g.host % 2 ^ 23
  ⟨0x01, 0x00, 0x5E, .ofNat (low / 2 ^ 16), .ofNat (low / 2 ^ 8), .ofNat low⟩

/-- `macAddr` of `igmp_mac_filter_set`. -/
def igmpMac : MacAddr :=
  ⟨0x01, 0x00, 0x5E, ((0x7f : UInt32) &&& (g.addr >>> 16)).toUInt8,
    ((0xff : UInt32) &&& (g.addr >>> 8)).toUInt8, ((0xff : UInt32) &&& g.addr).toUInt8⟩

/-- `multicast_mac` of `igmp_mac_filter_set_mlanif`. -/
def mlanMac : MacAddr :=
  ⟨0x01, 0x00, 0x5E, g.ip4Addr2 &&& 0x7F, g.ip4Addr3, g.ip4Addr4⟩

/-- The bytes read the same backwards. -/
def Mirrored : Prop := g.byte 0 = g.byte 3 ∧ g.byte 1 = g.byte 2

instance : Decidable g.Mirrored := inferInstanceAs (Decidable (_ ∧ _))

end Ip4Addr

/-- The registers of an entry. -/
structure DstMac where
  en : Bool
  adr4732 : Nat
  adr310 : Nat
  deriving DecidableEq

def ethRxfilterCnt : Nat := 31

/-- How an address stands in the registers. -/
def MacAddr.regs (addr : MacAddr) : Nat × Nat :=
  (addr.b0.toNat <<< 8 ||| addr.b1.toNat,
    addr.b2.toNat <<< 24 ||| addr.b3.toNat <<< 16 ||| addr.b4.toNat <<< 8 ||| addr.b5.toNat)

def DstMac.entry (e : DstMac) : Option (Nat × Nat) := if e.en then some (e.adr4732, e.adr310) else none

section filter

variable (dstMac : List DstMac) (addr : MacAddr)

def ethRxFilterInsert : Scan DstMac :=
  scan (fun e => !e.en) (fun _ => ⟨true, addr.regs.1, addr.regs.2⟩) ethRxfilterCnt dstMac

def ethRxFilterDelete : Scan DstMac :=
  scan (fun e => e.en && (e.adr4732 == addr.regs.1 && e.adr310 == addr.regs.2))
    (fun _ => ⟨false, 0, 0⟩) ethRxfilterCnt dstMac

end filter

inductive MacFilterAction where
  | delMacFilter
  | addMacFilter
  deriving DecidableEq

def igmpMacFilterSet (dstMac : List DstMac) (group : Ip4Addr) : MacFilterAction → Scan DstMac
  | .addMacFilter => ethRxFilterInsert dstMac group.igmpMac
  | .delMacFilter => ethRxFilterDelete dstMac group.igmpMac

/-- Inserted by the receive task when it starts. -/
def pauseMacAddress : MacAddr := ⟨0x01, 0x80, 0xc2, 0x00, 0x00, 0x01⟩

structure MacFilter where
  /-- Entries 0 to 31. -/
  dstMac : List DstMac
  /-- Whether the receive task has started. -/
  started : Bool
  /-- What was inserted for no group. -/
  others : List MacAddr
  /-- The joined groups whose insertion succeeded, and those whose insertion failed. -/
  granted : List Ip4Addr
  refused : List Ip4Addr

inductive FilterEvent where
  | start
  | join (g : Ip4Addr)
  | leave (g : Ip4Addr)

namespace MacFilter

variable (s : MacFilter)

/-- After reset, with the own address in the last entry. -/
def boot (own : DstMac) : MacFilter :=
  { dstMac := List.replicate ethRxfilterCnt ⟨false, 0, 0⟩ ++ [own]
    started := false
    others := []
    granted := []
    refused := [] }

def start : MacFilter :=
  let r := ethRxFilterInsert s.dstMac pauseMacAddress
  { s with
    dstMac := r.table s.dstMac
    started := true
    others := if r.isHit then [pauseMacAddress] else [] }

def join (g : Ip4Addr) : MacFilter :=
  let r := igmpMacFilterSet s.dstMac g .addMacFilter
  { s with
    dstMac := r.table s.dstMac
    granted := if r.isHit then g :: s.granted else s.granted
    refused := if r.isHit then s.refused else g :: s.refused }

def leave (g : Ip4Addr) : MacFilter :=
  { s with
    dstMac := (igmpMacFilterSet s.dstMac g .delMacFilter).table s.dstMac
    granted := s.granted.erase g
    refused := s.refused.erase g }

/-- lwIP adds a group when it is joined and deletes it when it is left. -/
def step : FilterEvent → Option MacFilter
  | .start => if s.started then none else some s.start
  | .join g => if g ∈ s.granted ++ s.refused then none else some (s.join g)
  | .leave g => if g ∈ s.granted ++ s.refused then some (s.leave g) else none

def lts (own : DstMac) : Lts MacFilter FilterEvent where
  init s := s = boot own
  step s e t := s.step e = some t

/-- The addresses enabled in entries 0 to 30. -/
def enabled : Multiset (Nat × Nat) := contents DstMac.entry (s.dstMac.take ethRxfilterCnt)

end MacFilter

namespace Ip4Addr

variable (g h : Ip4Addr)

theorem byte_toNat {i : Nat} (hi : i < 4) : (g.byte i).toNat = g.addr.toNat / 2 ^ (8 * i) % 2 ^ 8 := by
  have small : (8 * i).toUInt32.toNat = 8 * i := by
    rw [Nat.toUInt32_eq, UInt32.toNat_ofNat']
    omega
  rw [byte, UInt32.toNat_toUInt8, UInt32.toNat_shiftRight, small, Nat.shiftRight_eq_div_pow,
    Nat.mod_eq_of_lt (show 8 * i < 32 by omega)]

theorem low_byte (x : UInt32) : ((0xff : UInt32) &&& x).toUInt8 = x.toUInt8 := by
  rw [UInt32.toUInt8_and]
  exact UInt8.neg_one_and

theorem igmpMac_eq : g.igmpMac = ⟨0x01, 0x00, 0x5E, 0x7f &&& g.byte 2, g.byte 1, g.byte 0⟩ := by
  rw [igmpMac, low_byte, low_byte, UInt32.toUInt8_and]
  simp [byte]

theorem toNat_low7 (x : UInt8) : ((0x7f : UInt8) &&& x).toNat = x.toNat % 2 ^ 7 := by
  rw [UInt8.toNat_and, Nat.and_comm]
  exact Nat.and_two_pow_sub_one_eq_mod _ 7

theorem groupMac_eq : g.groupMac = ⟨0x01, 0x00, 0x5E, 0x7f &&& g.byte 1, g.byte 2, g.byte 3⟩ := by
  have b1 := (g.byte 1).toNat_lt
  have b2 := (g.byte 2).toNat_lt
  have b3 := (g.byte 3).toNat_lt
  rw [groupMac, host]
  simp only [MacAddr.mk.injEq, true_and, ← UInt8.toNat_inj, toNat_low7, UInt8.toNat_ofNat']
  omega

/-- The Wi-Fi port gets it right. -/
theorem mlanMac_eq : g.mlanMac = g.groupMac := by
  rw [groupMac_eq, mlanMac, ip4Addr2, ip4Addr3, ip4Addr4, UInt8.and_comm]

theorem igmpMac_eq_groupMac_iff : g.igmpMac = g.groupMac ↔ g.Mirrored := by
  rw [igmpMac_eq, groupMac_eq, Mirrored]
  simp only [MacAddr.mk.injEq, true_and]
  constructor
  · rintro ⟨-, mid, out⟩
    exact ⟨out, mid⟩
  · rintro ⟨out, mid⟩
    exact ⟨by rw [mid], mid, out⟩

variable {g h}

theorem ext_bytes (h0 : g.byte 0 = h.byte 0) (h1 : g.byte 1 = h.byte 1) (h2 : g.byte 2 = h.byte 2)
    (h3 : g.byte 3 = h.byte 3) : g = h := by
  have lt := g.addr.toNat_lt
  have lt' := h.addr.toNat_lt
  simp only [← UInt8.toNat_inj, byte_toNat _ (show 0 < 4 by decide),
    byte_toNat _ (show 1 < 4 by decide), byte_toNat _ (show 2 < 4 by decide),
    byte_toNat _ (show 3 < 4 by decide)] at h0 h1 h2 h3
  have same : g.addr.toNat = h.addr.toNat := by omega
  cases g
  cases h
  exact congrArg _ (UInt32.toNat_inj.1 same)

/-- Mirrored groups have a MAC address each. -/
theorem Mirrored.inj (hg : g.Mirrored) (hh : h.Mirrored) (eq : g.groupMac = h.groupMac) : g = h := by
  rw [groupMac_eq, groupMac_eq] at eq
  simp only [MacAddr.mk.injEq, true_and] at eq
  obtain ⟨-, mid, out⟩ := eq
  apply ext_bytes
  · rw [hg.1, hh.1, out]
  · rw [hg.2, hh.2, mid]
  · exact mid
  · exact out

end Ip4Addr

namespace MacAddr

theorem regs_eq (a : MacAddr) : a.regs =
    (a.b0.toNat * 2 ^ 8 + a.b1.toNat,
      a.b2.toNat * 2 ^ 24 + a.b3.toNat * 2 ^ 16 + a.b4.toNat * 2 ^ 8 + a.b5.toNat) := by
  have h1 := a.b1.toNat_lt
  have h3 := a.b3.toNat_lt
  have h4 := a.b4.toNat_lt
  have h5 := a.b5.toNat_lt
  rw [regs, shl_or a.b0.toNat (by omega), Nat.or_assoc, Nat.or_assoc, shl_or a.b4.toNat (by omega),
    shl_or a.b3.toNat (by omega), shl_or a.b2.toNat (by omega)]
  simp only [Prod.mk.injEq, true_and]
  omega

theorem regs_inj {a b : MacAddr} (h : a.regs = b.regs) : a = b := by
  rw [regs_eq, regs_eq, Prod.mk.injEq] at h
  have := a.b1.toNat_lt
  have := a.b3.toNat_lt
  have := a.b4.toNat_lt
  have := a.b5.toNat_lt
  have := b.b1.toNat_lt
  have := b.b3.toNat_lt
  have := b.b4.toNat_lt
  have := b.b5.toNat_lt
  cases a
  cases b
  simp only [mk.injEq, ← UInt8.toNat_inj] at *
  omega

end MacAddr

section filter

variable {dstMac dstMac' : List DstMac} {addr : MacAddr}

theorem DstMac.entry_eq {e : DstMac} : e.entry = some addr.regs ↔
    (e.en && (e.adr4732 == addr.regs.1 && e.adr310 == addr.regs.2)) = true := by
  rw [DstMac.entry, Bool.and_eq_true, Bool.and_eq_true, beq_iff_eq, beq_iff_eq, ← Prod.mk_inj,
    Option.ite_none_right_eq_some, Option.some.injEq]

theorem insert_hit (h : ethRxFilterInsert dstMac addr = .hit dstMac') :
    contents DstMac.entry (dstMac'.take ethRxfilterCnt) =
      addr.regs ::ₘ contents DstMac.entry (dstMac.take ethRxfilterCnt) := by
  apply contents_fill (scan_take (Nat.le_refl _) h)
  · intro e free
    rw [DstMac.entry, if_neg]
    rwa [Bool.not_eq_true, ← Bool.not_eq_true']
  · exact fun _ => rfl

theorem delete_hit (h : ethRxFilterDelete dstMac addr = .hit dstMac') :
    contents DstMac.entry (dstMac.take ethRxfilterCnt) =
      addr.regs ::ₘ contents DstMac.entry (dstMac'.take ethRxfilterCnt) := by
  apply contents_clear (scan_take (Nat.le_refl _) h)
  · exact fun _ found => DstMac.entry_eq.2 found
  · exact fun _ => rfl

theorem delete_missed (h : ethRxFilterDelete dstMac addr = .missed) :
    addr.regs ∉ contents DstMac.entry (dstMac.take ethRxfilterCnt) := by
  intro mem
  obtain ⟨e, he, used⟩ := mem_contents.1 mem
  have fails := (scan_missed.1 h).2 e he
  exact Bool.false_ne_true (fails.symm.trans (DstMac.entry_eq.1 used))

end filter

namespace MacFilter

variable {own : DstMac} {s t : MacFilter} {g : Ip4Addr} {e : FilterEvent}

/-- The filter shows what has been inserted and not deleted, each group under the address it was
inserted with. -/
structure Shows (own : DstMac) (s : MacFilter) : Prop where
  entries : s.enabled = (s.others.map MacAddr.regs : Multiset (Nat × Nat)) +
    (s.granted.map fun g => g.igmpMac.regs : Multiset (Nat × Nat))
  own : s.dstMac.drop ethRxfilterCnt = [own]
  once : (s.granted ++ s.refused).Nodup
  others : ∀ a ∈ s.others, a = pauseMacAddress
  started : s.started = false → s.others = []

namespace Shows

theorem length (w : Shows own s) : s.dstMac.length = ethRxfilterCnt + 1 := by
  have rest := congrArg List.length w.own
  rw [List.length_drop, List.length_singleton] at rest
  omega

theorem inside (w : Shows own s) : ethRxfilterCnt ≤ s.dstMac.length := by
  rw [w.length]
  exact Nat.le_succ _

theorem boot (own : DstMac) : Shows own (boot own) where
  entries := rfl
  own := rfl
  once := List.nodup_nil
  others := fun _ h => absurd h List.not_mem_nil
  started := fun _ => rfl

theorem start (w : Shows own s) (fresh : s.started = false) : Shows own s.start := by
  have entries := w.entries
  rw [w.started fresh] at entries
  rw [MacFilter.start]
  cases hr : ethRxFilterInsert s.dstMac pauseMacAddress with
  | hit d =>
    exact
      { entries := (insert_hit hr).trans (by rw [← enabled, entries]; rfl)
        own := (hit_drop hr).trans w.own
        once := w.once
        others := fun _ ha => List.mem_singleton.1 ha
        started := fun h => nomatch h }
  | missed =>
    exact
      { entries := entries
        own := w.own
        once := w.once
        others := fun _ ha => absurd ha List.not_mem_nil
        started := fun h => nomatch h }
  | beyond => exact absurd hr (scan_ne_beyond w.inside)

theorem join (w : Shows own s) (fresh : g ∉ s.granted ++ s.refused) : Shows own (s.join g) := by
  have once := List.nodup_cons.2 ⟨fresh, w.once⟩
  rw [MacFilter.join, igmpMacFilterSet]
  cases hr : ethRxFilterInsert s.dstMac g.igmpMac with
  | hit d =>
    refine
      { entries := (insert_hit hr).trans ?_
        own := (hit_drop hr).trans w.own
        once := once
        others := w.others
        started := w.started }
    rw [← enabled, w.entries]
    exact (Multiset.add_cons _ _ _).symm
  | missed =>
    exact
      { entries := w.entries
        own := w.own
        once := List.nodup_middle.2 once
        others := w.others
        started := w.started }
  | beyond => exact absurd hr (scan_ne_beyond w.inside)

/-- A group whose insertion failed is left without harm exactly if no entry has its address. -/
theorem leave_iff (w : Shows own s) (joined : g ∈ s.granted ++ s.refused) :
    Shows own (s.leave g) ↔ (g ∈ s.refused → g.igmpMac.regs ∉ s.enabled) := by
  have fresh := List.disjoint_of_nodup_append w.once
  have once : (s.granted.erase g ++ s.refused.erase g).Nodup :=
    w.once.sublist (List.erase_sublist.append List.erase_sublist)
  rw [MacFilter.leave, igmpMacFilterSet]
  cases hr : ethRxFilterDelete s.dstMac g.igmpMac with
  | hit d =>
    have taken : s.enabled = g.igmpMac.regs ::ₘ contents DstMac.entry (d.take ethRxfilterCnt) :=
      delete_hit hr
    constructor
    · intro shows_ refused
      have entries := shows_.entries
      rw [List.erase_of_not_mem fun granted => fresh granted refused, ← w.entries, taken] at entries
      have card := congrArg Multiset.card entries
      rw [Multiset.card_cons] at card
      exact absurd card (Nat.succ_ne_self _).symm
    · intro clean
      have granted : g ∈ s.granted := by
        rcases List.mem_append.1 joined with granted | refused
        · exact granted
        · exact absurd (taken ▸ Multiset.mem_cons_self _ _) (clean refused)
      refine
        { entries := ?_
          own := (hit_drop hr).trans w.own
          once := once
          others := w.others
          started := w.started }
      have perm := List.Perm.map (fun g => g.igmpMac.regs) (List.perm_cons_erase granted)
      have entries := w.entries
      rw [Multiset.coe_eq_coe.2 perm, taken, List.map_cons, ← Multiset.cons_coe,
        Multiset.add_cons, Multiset.cons_inj_right] at entries
      exact entries
  | missed =>
    have absent := delete_missed hr
    have granted : g ∉ s.granted := by
      intro granted
      apply absent
      rw [← enabled, w.entries]
      exact Multiset.mem_add.2 (.inr (List.mem_map.2 ⟨g, granted, rfl⟩))
    constructor
    · exact fun _ _ => absent
    · intro _
      refine
        { entries := ?_
          own := w.own
          once := once
          others := w.others
          started := w.started }
      rw [List.erase_of_not_mem granted]
      exact w.entries
  | beyond => exact absurd hr (scan_ne_beyond w.inside)

end Shows

section run

/-- Only mirrored groups are joined. -/
def MirroredJoin (_ : MacFilter) : FilterEvent → Prop
  | .join g => g.Mirrored
  | _ => True

instance (s : MacFilter) (e : FilterEvent) : Decidable (MirroredJoin s e) := by
  cases e <;> unfold MirroredJoin <;> infer_instance

/-- The enabled entries are those of the joined groups that got one, beside what was inserted for no
group; the entry of the own address stays. -/
structure Follows (own : DstMac) (s : MacFilter) : Prop where
  entries : s.enabled = (s.others.map MacAddr.regs : Multiset (Nat × Nat)) +
    (s.granted.map fun g => g.groupMac.regs : Multiset (Nat × Nat))
  others : ∀ a ∈ s.others, a = pauseMacAddress
  own : s.dstMac.drop ethRxfilterCnt = [own]

/-- The filter shows mirrored groups only. -/
structure ShowsMirrored (own : DstMac) (s : MacFilter) : Prop extends Shows own s where
  mirrored : ∀ g ∈ s.granted ++ s.refused, g.Mirrored

theorem pause_ne (g : Ip4Addr) : g.igmpMac ≠ pauseMacAddress := by
  intro h
  have second : (0x00 : UInt8) = 0x80 := congrArg MacAddr.b1 h
  exact absurd second (by decide)

namespace ShowsMirrored

theorem mac (w : ShowsMirrored own s) (joined : g ∈ s.granted ++ s.refused) :
    g.igmpMac = g.groupMac :=
  g.igmpMac_eq_groupMac_iff.2 (w.mirrored g joined)

theorem follows (w : ShowsMirrored own s) : Follows own s where
  entries := by
    have same : (s.granted.map fun g => g.igmpMac.regs) = s.granted.map fun g => g.groupMac.regs :=
      List.map_congr_left fun g hg => by rw [w.mac (List.mem_append_left _ hg)]
    rw [w.entries, same]
  others := w.others
  own := w.own

/-- No two of them share an address, so a group without an entry finds none. -/
theorem clean (w : ShowsMirrored own s) (refused : g ∈ s.refused) : g.igmpMac.regs ∉ s.enabled := by
  rw [w.entries, Multiset.mem_add, Multiset.mem_coe, Multiset.mem_coe, List.mem_map, List.mem_map]
  rintro (⟨a, ha, eq⟩ | ⟨h, hh, eq⟩)
  · exact pause_ne g ((MacAddr.regs_inj eq).symm.trans (w.others a ha))
  · have mem := List.mem_append_left s.refused hh
    have mem' := List.mem_append_right s.granted refused
    have mac := MacAddr.regs_inj eq
    rw [w.mac mem, w.mac mem'] at mac
    have same := (w.mirrored h mem).inj (w.mirrored g mem') mac
    exact List.disjoint_of_nodup_append w.once hh (same ▸ refused)

theorem step (w : ShowsMirrored own s) (hok : MirroredJoin s e) (h : s.step e = some t) :
    ShowsMirrored own t := by
  cases e with
  | start =>
    rw [MacFilter.step] at h
    split at h
    · cases h
    · obtain rfl := Option.some.inj h
      exact { w.toShows.start (Bool.eq_false_of_not_eq_true ‹_›) with mirrored := w.mirrored }
  | join g =>
    rw [MacFilter.step] at h
    split at h
    · cases h
    · obtain rfl := Option.some.inj h
      refine { w.toShows.join ‹_› with mirrored := ?_ }
      intro k hk
      rw [MacFilter.join] at hk
      have known : k = g ∨ k ∈ s.granted ++ s.refused := by
        dsimp only at hk
        split at hk <;> simpa [or_left_comm] using hk
      rcases known with rfl | known
      · exact hok
      · exact w.mirrored k known
  | leave g =>
    rw [MacFilter.step] at h
    split at h
    · obtain rfl := Option.some.inj h
      refine { (w.toShows.leave_iff ‹_›).2 w.clean with mirrored := ?_ }
      exact fun k hk => w.mirrored k
        ((List.erase_sublist.append List.erase_sublist).subset hk)
    · cases h

end ShowsMirrored

theorem showsMirrored_inductive (own : DstMac) :
    (lts own).Inductive MirroredJoin (ShowsMirrored own) where
  init := fun h => h ▸ { Shows.boot own with mirrored := fun _ h => absurd h List.not_mem_nil }
  step := fun w hok h => w.step hok h

end run

/-- The Ethernet port programs the address of a group exactly for the groups that read the same
backwards, the Wi-Fi port for all.  With such groups the filter follows the joins and leaves, and a
leave spares the entries of the others. -/
theorem filter_follows (own : DstMac) :
    (∀ g : Ip4Addr, g.mlanMac = g.groupMac ∧ (g.igmpMac = g.groupMac ↔ g.Mirrored)) ∧
      ∀ s, Reach (lts own) MirroredJoin s →
        Follows own s ∧
          ∀ g t, s.step (.leave g) = some t → ∀ h ∈ s.granted, h ≠ g → h.groupMac.regs ∈ t.enabled := by
  refine ⟨fun g => ⟨g.mlanMac_eq, g.igmpMac_eq_groupMac_iff⟩, fun s r => ?_⟩
  have w := (showsMirrored_inductive own).reach r
  refine ⟨w.follows, fun g t ht h hh ne => ?_⟩
  have left := (w.step (e := .leave g) trivial ht).follows
  have granted : h ∈ t.granted := by
    rw [step] at ht
    split at ht
    · obtain rfl := Option.some.inj ht
      exact (List.mem_erase_of_ne ne).2 hh
    · cases ht
  rw [left.entries, Multiset.mem_add]
  exact .inr (List.mem_map.2 ⟨h, granted, rfl⟩)

/-- The group `a.b.c.d`. -/
def group (a b c d : UInt32) : Ip4Addr := ⟨a ||| b <<< 8 ||| c <<< 16 ||| d <<< 24⟩

def ownEntry : DstMac := ⟨true, 0x0011, 0x22334455⟩

/-- 224.0.0.224 and 239.5.5.239 beside the pause address, and the first of them left again. -/
def mirroredRun : List FilterEvent :=
  [.start, .join (group 224 0 0 224), .join (group 239 5 5 239), .leave (group 224 0 0 224)]

theorem filter_follows_two : ∃ t, mirroredRun.foldlM step (boot ownEntry) = some t ∧
    Follows ownEntry t ∧ t.granted = [group 239 5 5 239] ∧
    t.enabled = {pauseMacAddress.regs, (⟨0x01, 0x00, 0x5E, 5, 5, 239⟩ : MacAddr).regs} := by
  have allowed : Admitted MirroredJoin step (boot ownEntry) mirroredRun := by decide
  exact ⟨_, rfl, ((filter_follows ownEntry).2 _ (Reach.foldlM id (.init rfl) allowed rfl)).1, rfl,
    by decide⟩

/-- More groups than entries: 224.0.0.1 to 224.30.0.1 fill the table, 224.0.128.1 finds no room but
has the address of the first, and is left. -/
def crowdedRun : List FilterEvent :=
  (List.range 31).map (fun b => .join (group 224 b.toUInt32 0 1)) ++
    [.join (group 224 0 128 1), .leave (group 224 0 128 1)]

/-- The group of mDNS is filed under another address, and a leave takes the entry of a joined group. -/
theorem filter_astray :
    (∃ t, [.join (group 224 0 0 251)].foldlM step (boot ownEntry) = some t ∧
      t.enabled = {(⟨0x01, 0x00, 0x5E, 0, 0, 224⟩ : MacAddr).regs} ∧
      (group 224 0 0 251).groupMac = ⟨0x01, 0x00, 0x5E, 0, 0, 251⟩ ∧ ¬Follows ownEntry t) ∧
    ∃ t, crowdedRun.foldlM step (boot ownEntry) = some t ∧ group 224 0 0 1 ∈ t.granted ∧
      (group 224 0 0 1).igmpMac.regs ∉ t.enabled := by
  refine ⟨⟨_, rfl, by decide, by decide, fun follows => ?_⟩, ⟨_, rfl, by decide, by decide⟩⟩
  exact absurd follows.entries (by decide)

end MacFilter

end En675.Net
