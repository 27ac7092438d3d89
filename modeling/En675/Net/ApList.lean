import Mathlib.Data.Finset.Card
import En675.Lib.Word
import En675.Net.MacFilter

/-! The list of the stations at the access point (`wifiif.c`): five entries, searched up to a limit
that the settings may change at any time.  The radio reports connects and disconnects, the DHCP server
the addresses it gives. -/

namespace En675.Net

open Lib

def wifiApMaxuser : Nat := 5

/-- The mark of a free entry. -/
def MacAddr.zero : MacAddr := ⟨0, 0, 0, 0, 0, 0⟩

/-- `WiFiAPConnectSTAitem`. -/
structure ConnectSta where
  mac : MacAddr
  conntime : Nat
  ipaddr : Nat

/-- `WiFiAPConnectSTAlist` and `un8MaxSTA`, beside the stations as the radio and the DHCP server know
them. -/
structure ApList where
  maccount : Nat
  item : List ConnectSta
  un8MaxSta : Nat
  /-- Every index so far was one of the array. -/
  inside : Bool
  connected : Finset MacAddr
  /-- The address a connected station has been given, or 0. -/
  address : MacAddr → Nat
  /-- At some time more stations were connected than the list had room for. -/
  crowded : Bool

inductive ApEvent where
  | connect (mac : MacAddr) (time : Nat)
  | disconnect (mac : MacAddr)
  | setIp (mac : MacAddr) (ipaddr : Nat)
  | maxSta (v : Nat)

def ConnectSta.isFree (e : ConnectSta) : Bool := e.mac == .zero

def ConnectSta.station (e : ConnectSta) : Option (MacAddr × Nat) :=
  if e.mac = .zero then none else some (e.mac, e.ipaddr)

namespace ApList

variable (s : ApList)

def boot (un8MaxSta : Nat) : ApList :=
  { maccount := 0
    item := List.replicate wifiApMaxuser ⟨.zero, 0, 0⟩
    un8MaxSta := un8MaxSta
    inside := true
    connected := ∅
    address := fun _ => 0
    crowded := false }

/-- A search that goes beyond the array reads what lies behind it. -/
def searched (r : Scan ConnectSta) (maccount : Nat) : ApList :=
  match r with
  | .hit item => { s with item := item, maccount := maccount }
  | .missed => s
  | .beyond => { s with inside := false }

def connListAdd (mac : MacAddr) (time : Nat) : ApList :=
  s.searched (scan ConnectSta.isFree (fun _ => ⟨mac, time, 0⟩) s.un8MaxSta s.item)
    (uadd s.maccount 1)

def connListDel (mac : MacAddr) : ApList :=
  s.searched (scan (fun e => e.mac == mac) (fun _ => ⟨.zero, 0, 0⟩) s.un8MaxSta s.item)
    (usub s.maccount 1)

def connListSetip (mac : MacAddr) (ipaddr : Nat) : ApList :=
  s.searched (scan (fun e => e.mac == mac) (fun e => { e with ipaddr := ipaddr }) s.un8MaxSta s.item)
    s.maccount

def room : Nat := min s.un8MaxSta wifiApMaxuser

/-- The event in the code and in the world. -/
def act : ApEvent → ApList
  | .connect mac time =>
    { s.connListAdd mac time with connected := insert mac s.connected }
  | .disconnect mac =>
    { s.connListDel mac with
      connected := s.connected.erase mac
      address := Function.update s.address mac 0 }
  | .setIp mac ipaddr =>
    { s.connListSetip mac ipaddr with
      address := if mac ∈ s.connected then Function.update s.address mac ipaddr else s.address }
  | .maxSta v => { s with un8MaxSta := v }

def watch : ApList := { s with crowded := s.crowded || decide (s.room < s.connected.card) }

def step (e : ApEvent) : ApList := (s.act e).watch

def lts : Lts ApList ApEvent where
  init s := ∃ v, s = boot v
  step s e t := t = s.step e

/-- The stations in the list, with their addresses. -/
def listed : Multiset (MacAddr × Nat) := contents ConnectSta.station s.item

def macs : List MacAddr := s.item.map ConnectSta.mac

/-- The addresses that a search gets to see. -/
def seen : List MacAddr := (s.item.take s.un8MaxSta).map ConnectSta.mac

/-- The station has an entry. -/
def Has (mac : MacAddr) : Prop := mac ≠ .zero ∧ mac ∈ s.macs

instance (mac : MacAddr) : Decidable (s.Has mac) := inferInstanceAs (Decidable (_ ∧ _))

/-- When an event does what it should.  A connect that finds a free entry is of a station that has none,
and no address yet.  A disconnect that finds an entry is not of the address that marks the free ones.
A search that finds nothing has seen all stations and has stayed in the array. -/
def Fits (s : ApList) : ApEvent → Prop
  | .connect mac _ =>
    if .zero ∈ s.seen then mac ≠ .zero ∧ ¬s.Has mac ∧ s.address mac = 0
    else s.un8MaxSta ≤ wifiApMaxuser
  | .disconnect mac =>
    if mac ∈ s.seen then mac ≠ .zero else s.un8MaxSta ≤ wifiApMaxuser ∧ ¬s.Has mac
  | .setIp mac _ => mac ∈ s.seen ∨ s.un8MaxSta ≤ wifiApMaxuser ∧ ¬s.Has mac
  | .maxSta _ => True

instance (s : ApList) : (e : ApEvent) → Decidable (Fits s e)
  | .connect _ _ => by unfold Fits; infer_instance
  | .disconnect _ => by unfold Fits; infer_instance
  | .setIp _ _ => by unfold Fits; infer_instance
  | .maxSta _ => by unfold Fits; infer_instance

/-- The list holds the stations of `K`, once each and with their addresses. -/
structure Stores (s : ApList) (K : Finset MacAddr) : Prop where
  listed : s.listed = K.val.map fun m => (m, s.address m)
  count : s.maccount = K.card
  connected : K ⊆ s.connected
  inside : s.inside = true
  size : s.item.length = wifiApMaxuser
  strange : ∀ m ∉ s.connected, s.address m = 0

/-- And all that are connected, as long as there has been room for them. -/
structure Shows (s : ApList) (K : Finset MacAddr) : Prop extends Stores s K where
  whole : s.crowded = false → K = s.connected ∧ s.connected.card ≤ s.room

section entries

variable {s} {K : Finset MacAddr} {m mac : MacAddr}

theorem station_eq {e : ConnectSta} {k : MacAddr × Nat} :
    e.station = some k ↔ e.mac ≠ .zero ∧ (e.mac, e.ipaddr) = k := by
  rw [ConnectSta.station, Option.ite_none_left_eq_some, Option.some.injEq]

theorem mem_seen : m ∈ s.seen ↔ ∃ e ∈ s.item.take s.un8MaxSta, e.mac = m := by
  rw [seen, List.mem_map]

theorem Stores.mem_iff (w : Stores s K) : m ∈ K ↔ s.Has m := by
  have keys : m ∈ K ↔ ∃ a, (m, a) ∈ s.listed := by
    simp [w.listed]
  rw [keys, Has, macs, List.mem_map]
  constructor
  · rintro ⟨a, ha⟩
    obtain ⟨e, he, used⟩ := mem_contents.1 ha
    obtain ⟨ne, eq⟩ := station_eq.1 used
    obtain ⟨rfl, rfl⟩ := Prod.mk.inj eq
    exact ⟨ne, e, he, rfl⟩
  · rintro ⟨ne, e, he, rfl⟩
    exact ⟨e.ipaddr, mem_contents.2 ⟨e, he, station_eq.2 ⟨ne, rfl⟩⟩⟩

/-- A used entry is that of a station in the list, with its address. -/
theorem Stores.entry (w : Stores s K) {e : ConnectSta} (he : e ∈ s.item) (real : e.mac ≠ .zero) :
    e.mac ∈ K ∧ e.ipaddr = s.address e.mac := by
  have mem : (e.mac, e.ipaddr) ∈ s.listed := mem_contents.2 ⟨e, he, station_eq.2 ⟨real, rfl⟩⟩
  rw [w.listed, Multiset.mem_map] at mem
  obtain ⟨m, hm, eq⟩ := mem
  obtain ⟨rfl, ip⟩ := Prod.mk.inj eq
  exact ⟨hm, ip.symm⟩

theorem Stores.card (w : Stores s K) : K.card = Multiset.card s.listed := by
  rw [w.listed, Multiset.card_map]
  rfl

theorem Stores.card_le (w : Stores s K) : K.card ≤ wifiApMaxuser := by
  rw [w.card, ← w.size]
  exact card_contents_le _

/-- Another address function, if it gives the stations in the list the same. -/
theorem Stores.listed_congr (w : Stores s K) {address : MacAddr → Nat}
    (same : ∀ m ∈ K, address m = s.address m) : s.listed = K.val.map fun m => (m, address m) := by
  rw [w.listed]
  exact Multiset.map_congr rfl fun m hm => by rw [same m hm]

theorem map_insert (a : MacAddr → Nat) (fresh : m ∉ K) :
    ((insert m K).val.map fun m => (m, a m)) = (m, a m) ::ₘ K.val.map fun m => (m, a m) := by
  rw [Finset.insert_val_of_notMem fresh, Multiset.map_cons]

/-- The entry of one station, and the others. -/
theorem map_erase (a : MacAddr → Nat) (hm : m ∈ K) :
    (K.val.map fun m => (m, a m)) = (m, a m) ::ₘ (K.erase m).val.map fun m => (m, a m) := by
  rw [← map_insert a (Finset.notMem_erase m K), Finset.insert_erase hm]

end entries

section steps

variable {s} {K : Finset MacAddr} {mac : MacAddr} {item : List ConnectSta}

/-- A connect that finds a free entry. -/
theorem Stores.connect_hit (w : Stores s K) (time : Nat)
    (h : scan ConnectSta.isFree (fun _ => ⟨mac, time, 0⟩) s.un8MaxSta s.item = .hit item)
    (real : mac ≠ .zero) (fresh : mac ∉ K) (none_ : s.address mac = 0) :
    Stores (s.act (.connect mac time)) (insert mac K) := by
  have entry : contents ConnectSta.station item = (mac, 0) ::ₘ s.listed := by
    apply contents_fill h
    · intro e free
      exact if_pos (beq_iff_eq.1 free)
    · exact fun _ => if_neg real
  rw [w.listed, ← none_, ← map_insert s.address fresh] at entry
  have le := w.card_le
  rw [← w.count] at le
  have count : uadd s.maccount 1 = s.maccount + 1 :=
    uadd_of_lt (Nat.lt_of_le_of_lt (Nat.succ_le_succ le) (by decide))
  rw [act, connListAdd, h]
  exact
    { listed := entry
      count := by
        rw [Finset.card_insert_of_notMem fresh, ← w.count]
        exact count
      connected := Finset.insert_subset_insert mac w.connected
      inside := w.inside
      size := (hit_length h).trans w.size
      strange := fun m hm => w.strange m fun hm' => hm (Finset.mem_insert_of_mem hm') }

theorem Stores.connect_missed (w : Stores s K) (time : Nat)
    (h : scan ConnectSta.isFree (fun _ => ⟨mac, time, 0⟩) s.un8MaxSta s.item = .missed) :
    Stores (s.act (.connect mac time)) K := by
  rw [act, connListAdd, h]
  exact
    { listed := w.listed
      count := w.count
      connected := w.connected.trans (Finset.subset_insert mac _)
      inside := w.inside
      size := w.size
      strange := fun m hm => w.strange m fun hm' => hm (Finset.mem_insert_of_mem hm') }

/-- Then the list holds as many stations as it may. -/
theorem Stores.full (w : Stores s K) {f : ConnectSta → ConnectSta}
    (h : scan ConnectSta.isFree f s.un8MaxSta s.item = .missed) : s.un8MaxSta ≤ K.card := by
  obtain ⟨inside, none_⟩ := scan_missed.1 h
  rw [w.card]
  apply le_card_contents inside
  intro e he free
  rw [ConnectSta.station] at free
  split at free
  · have used := none_ e he
    rw [ConnectSta.isFree, beq_eq_false_iff_ne] at used
    exact used ‹_›
  · cases free

/-- An address is forgotten with its station. -/
theorem strange_erase (w : Stores s K) : ∀ m ∉ s.connected.erase mac,
    Function.update s.address mac 0 m = 0 := by
  intro m hm
  rcases eq_or_ne m mac with rfl | ne
  · exact Function.update_self ..
  · rw [Function.update_of_ne ne]
    exact w.strange m fun hm' => hm (Finset.mem_erase.2 ⟨ne, hm'⟩)

theorem Stores.disconnect_hit (w : Stores s K)
    (h : scan (fun e => e.mac == mac) (fun _ => ⟨.zero, 0, 0⟩) s.un8MaxSta s.item = .hit item)
    (real : mac ≠ .zero) : Stores (s.act (.disconnect mac)) (K.erase mac) ∧ mac ∈ K := by
  obtain ⟨e, he, found, moved⟩ := contents_hit ConnectSta.station h
  obtain rfl := beq_iff_eq.1 found
  obtain ⟨known, ip⟩ := w.entry he real
  have used : e.station = some (e.mac, s.address e.mac) := station_eq.2 ⟨real, by rw [ip]⟩
  have free : (⟨.zero, 0, 0⟩ : ConnectSta).station = none := rfl
  rw [used, free, held_none, held_some, add_zero, add_comm, Multiset.singleton_add, ← ApList.listed,
    w.listed, map_erase _ known, Multiset.cons_inj_right] at moved
  refine ⟨?_, known⟩
  have listed : contents ConnectSta.station item = (K.erase e.mac).val.map fun m =>
      (m, Function.update s.address e.mac 0 m) :=
    moved.trans (Multiset.map_congr rfl fun m hm => by
      rw [Function.update_of_ne (Finset.ne_of_mem_erase (Finset.mem_def.2 hm))])
  have pos := Finset.card_pos.2 ⟨_, known⟩
  have le := w.card_le
  rw [← w.count] at le pos
  have count : usub s.maccount 1 = s.maccount - 1 :=
    usub_of_le pos (Nat.lt_of_le_of_lt le (by decide))
  rw [act, connListDel, h, searched]
  exact
    { listed := listed
      count := by
        rw [Finset.card_erase_of_mem known, ← w.count, ← count]
      connected := Finset.erase_subset_erase e.mac w.connected
      inside := w.inside
      size := (hit_length h).trans w.size
      strange := strange_erase w }

theorem Stores.disconnect_missed (w : Stores s K)
    (h : scan (fun e => e.mac == mac) (fun _ => ⟨.zero, 0, 0⟩) s.un8MaxSta s.item = .missed)
    (fresh : mac ∉ K) : Stores (s.act (.disconnect mac)) K := by
  rw [act, connListDel, h]
  exact
    { listed := w.listed_congr fun m hm => Function.update_of_ne (fun eq : m = mac => fresh (eq ▸ hm)) _ _
      count := w.count
      connected := fun m hm => Finset.mem_erase.2 ⟨fun eq : m = mac => fresh (eq ▸ hm), w.connected hm⟩
      inside := w.inside
      size := w.size
      strange := strange_erase w }

/-- An address is kept for connected stations only. -/
theorem strange_setIp (w : Stores s K) (ipaddr : Nat) : ∀ m ∉ s.connected,
    (if mac ∈ s.connected then Function.update s.address mac ipaddr else s.address) m = 0 := by
  intro m hm
  split
  · rw [Function.update_of_ne fun eq : m = mac => hm (eq ▸ ‹_›)]
    exact w.strange m hm
  · exact w.strange m hm

theorem setIp_of_ne (ipaddr : Nat) {m : MacAddr} (ne : m ≠ mac) :
    (if mac ∈ s.connected then Function.update s.address mac ipaddr else s.address) m =
      s.address m := by
  split
  · exact Function.update_of_ne ne ..
  · rfl

theorem Stores.setIp_hit (w : Stores s K) (ipaddr : Nat)
    (h : scan (fun e => e.mac == mac) (fun e => { e with ipaddr := ipaddr }) s.un8MaxSta s.item =
      .hit item) : Stores (s.act (.setIp mac ipaddr)) K := by
  obtain ⟨e, he, found, moved⟩ := contents_hit ConnectSta.station h
  obtain rfl := beq_iff_eq.1 found
  have listed : contents ConnectSta.station item = K.val.map fun m =>
      (m, (if e.mac ∈ s.connected then Function.update s.address e.mac ipaddr else s.address) m) := by
    by_cases real : e.mac = .zero
    · -- a free entry stays free
      have old : e.station = none := if_pos real
      have new : ({ e with ipaddr := ipaddr } : ConnectSta).station = none := if_pos real
      rw [old, new, add_left_inj] at moved
      refine moved.trans (w.listed_congr fun m hm => setIp_of_ne ipaddr ?_)
      rw [real]
      exact (w.mem_iff.1 hm).1
    · obtain ⟨known, ip⟩ := w.entry he real
      have old : e.station = some (e.mac, s.address e.mac) := station_eq.2 ⟨real, by rw [ip]⟩
      have new : ({ e with ipaddr := ipaddr } : ConnectSta).station = some (e.mac, ipaddr) :=
        station_eq.2 ⟨real, rfl⟩
      rw [old, new, held_some, held_some, ← ApList.listed, w.listed, map_erase _ known,
        add_comm, Multiset.singleton_add, Multiset.cons_add, Multiset.cons_inj_right, add_comm,
        Multiset.singleton_add] at moved
      rw [moved, map_erase _ known, if_pos (w.connected known), Function.update_self]
      congr 1
      exact Multiset.map_congr rfl fun m hm => by
        rw [Function.update_of_ne (Finset.ne_of_mem_erase (Finset.mem_def.2 hm))]
  rw [act, connListSetip, h]
  exact
    { listed := listed
      count := w.count
      connected := w.connected
      inside := w.inside
      size := (hit_length h).trans w.size
      strange := strange_setIp w ipaddr }

theorem Stores.setIp_missed (w : Stores s K) (ipaddr : Nat)
    (h : scan (fun e => e.mac == mac) (fun e => { e with ipaddr := ipaddr }) s.un8MaxSta s.item =
      .missed) (fresh : mac ∉ K) : Stores (s.act (.setIp mac ipaddr)) K := by
  rw [act, connListSetip, h]
  exact
    { listed := w.listed_congr fun m hm => setIp_of_ne ipaddr fun eq : m = mac => fresh (eq ▸ hm)
      count := w.count
      connected := w.connected
      inside := w.inside
      size := w.size
      strange := strange_setIp w ipaddr }

end steps

section run

variable {s} {K L : Finset MacAddr} {mac : MacAddr} {e : ApEvent}

@[simp] theorem searched_crowded (r : Scan ConnectSta) (n : Nat) :
    (s.searched r n).crowded = s.crowded := by
  cases r <;> rfl

@[simp] theorem searched_un8MaxSta (r : Scan ConnectSta) (n : Nat) :
    (s.searched r n).un8MaxSta = s.un8MaxSta := by
  cases r <;> rfl

@[simp] theorem searched_connected (r : Scan ConnectSta) (n : Nat) :
    (s.searched r n).connected = s.connected := by
  cases r <;> rfl

@[simp] theorem act_crowded : (s.act e).crowded = s.crowded := by
  cases e <;> simp [act, connListAdd, connListDel, connListSetip]

theorem Shows.of_act (w : Shows s K) (stores : Stores (s.act e) L)
    (whole : K = s.connected → s.connected.card ≤ s.room →
      (s.act e).connected.card ≤ (s.act e).room → L = (s.act e).connected) :
    Shows (s.step e) L where
  listed := stores.listed
  count := stores.count
  connected := stores.connected
  inside := stores.inside
  size := stores.size
  strange := stores.strange
  whole := by
    intro calm
    rw [step, watch] at calm
    simp only [Bool.or_eq_false_iff, act_crowded, decide_eq_false_iff_not, Nat.not_lt] at calm
    obtain ⟨same, fits⟩ := w.whole calm.1
    exact ⟨whole same fits calm.2, calm.2⟩

/-- What a search that finds nothing has done. -/
theorem Stores.search_missed (w : Stores s K) {p : ConnectSta → Bool} {f : ConnectSta → ConnectSta}
    (inside : s.un8MaxSta ≤ wifiApMaxuser) (none_ : ∀ e ∈ s.item.take s.un8MaxSta, p e = false) :
    scan p f s.un8MaxSta s.item = .missed :=
  scan_missed.2 ⟨w.size ▸ inside, none_⟩

theorem not_seen (h : mac ∉ s.seen) : ∀ e ∈ s.item.take s.un8MaxSta, (e.mac == mac) = false :=
  fun e he => beq_eq_false_iff_ne.2 fun eq => h (mem_seen.2 ⟨e, he, eq⟩)

theorem seen_hit (h : mac ∈ s.seen) (f : ConnectSta → ConnectSta) :
    ∃ item, scan (fun e => e.mac == mac) f s.un8MaxSta s.item = .hit item := by
  obtain ⟨e, he, eq⟩ := mem_seen.1 h
  exact exists_scan_hit ⟨e, he, beq_iff_eq.2 eq⟩

theorem Shows.connect (w : Shows s K) (time : Nat) (hok : Fits s (.connect mac time)) :
    ∃ L, Shows (s.step (.connect mac time)) L := by
  rw [Fits] at hok
  split at hok
  · obtain ⟨real, fresh, none_⟩ := hok
    obtain ⟨item, hit⟩ := seen_hit ‹_› (fun _ => ⟨mac, time, 0⟩)
    have stores := w.toStores.connect_hit time hit real (w.mem_iff.not.2 fresh) none_
    exact ⟨_, w.of_act stores fun same _ _ => by rw [same]; simp [act, connListAdd]⟩
  · have missed := w.toStores.search_missed (f := fun _ => ⟨mac, time, 0⟩) hok (not_seen ‹_›)
    have full := w.toStores.full missed
    refine ⟨K, w.of_act (w.toStores.connect_missed time missed) fun same _ fits => ?_⟩
    have connected : (s.act (.connect mac time)).connected = insert mac s.connected := by
      simp [act, connListAdd]
    have room : (s.act (.connect mac time)).room ≤ s.un8MaxSta := by
      simp [act, connListAdd, ApList.room]
    rw [connected] at fits ⊢
    -- a new station would be one too many
    have known : mac ∈ s.connected := by
      by_contra new
      rw [Finset.card_insert_of_notMem new, ← same] at fits
      omega
    rw [Finset.insert_eq_of_mem known, same]

theorem Shows.disconnect (w : Shows s K) (hok : Fits s (.disconnect mac)) :
    ∃ L, Shows (s.step (.disconnect mac)) L := by
  have connected : (s.act (.disconnect mac)).connected = s.connected.erase mac := by
    simp [act, connListDel]
  rw [Fits] at hok
  split at hok
  · obtain ⟨item, hit⟩ := seen_hit ‹_› (fun _ => ⟨.zero, 0, 0⟩)
    refine ⟨_, w.of_act (w.toStores.disconnect_hit hit hok).1 fun same _ _ => ?_⟩
    rw [connected, same]
  · have missed := w.toStores.search_missed (f := fun _ => ⟨.zero, 0, 0⟩) hok.1 (not_seen ‹_›)
    have fresh : mac ∉ K := w.mem_iff.not.2 hok.2
    refine ⟨K, w.of_act (w.toStores.disconnect_missed missed fresh) fun same _ _ => ?_⟩
    rw [connected, ← same, Finset.erase_eq_of_notMem fresh]

theorem Shows.setIp (w : Shows s K) (ipaddr : Nat) (hok : Fits s (.setIp mac ipaddr)) :
    Shows (s.step (.setIp mac ipaddr)) K := by
  have connected : (s.act (.setIp mac ipaddr)).connected = s.connected := by
    simp [act, connListSetip]
  have whole (same : K = s.connected) : K = (s.act (.setIp mac ipaddr)).connected :=
    same.trans connected.symm
  by_cases seen : mac ∈ s.seen
  · obtain ⟨item, hit⟩ := seen_hit seen (fun e => { e with ipaddr := ipaddr })
    exact w.of_act (w.toStores.setIp_hit ipaddr hit) fun same _ _ => whole same
  · obtain ⟨inside, strange⟩ := Or.resolve_left hok seen
    have missed := w.toStores.search_missed (f := fun e => { e with ipaddr := ipaddr }) inside
      (not_seen seen)
    exact w.of_act (w.toStores.setIp_missed ipaddr missed (w.mem_iff.not.2 strange))
      fun same _ _ => whole same

theorem Shows.maxSta (w : Shows s K) (v : Nat) : Shows (s.step (.maxSta v)) K :=
  w.of_act { w.toStores with } fun same _ _ => same

theorem Shows.boot (v : Nat) : Shows (boot v) ∅ where
  listed := rfl
  count := rfl
  connected := Finset.Subset.refl _
  inside := rfl
  size := rfl
  strange := fun _ _ => rfl
  whole := fun _ => ⟨rfl, Nat.zero_le _⟩

theorem shows_inductive : lts.Inductive Fits fun s => ∃ K, Shows s K where
  init := by
    rintro _ ⟨v, rfl⟩
    exact ⟨∅, Shows.boot v⟩
  step := by
    rintro s e _ ⟨K, w⟩ hok rfl
    cases e with
    | connect mac time => exact w.connect time hok
    | disconnect mac => exact w.disconnect hok
    | setIp mac ipaddr => exact ⟨K, w.setIp ipaddr hok⟩
    | maxSta v => exact ⟨K, w.maxSta v⟩

end run

/-- In a run of such events no search leaves the array, the count is that of the used entries, and the
list holds connected stations only, once each and with their addresses; all of them, as long as there
has been room. -/
theorem apList_follows (r : Reach lts Fits s) :
    s.inside = true ∧ s.maccount = Multiset.card s.listed ∧
      ∃ K ⊆ s.connected, s.listed = (K.val.map fun m => (m, s.address m)) ∧
        (s.crowded = false → K = s.connected) := by
  obtain ⟨K, w⟩ := shows_inductive.reach r
  exact ⟨w.inside, w.count.trans w.card, K, w.connected, w.listed, fun calm => (w.whole calm).1⟩

/-- A station with the last byte `n`. -/
def station (n : UInt8) : MacAddr := ⟨0x02, 0, 0, 0, 0, n⟩

/-- Two stations come, the first gets an address, the limit is lowered and the first goes. -/
def quietRun : List ApEvent :=
  [.connect (station 1) 10, .setIp (station 1) 7, .connect (station 2) 20, .maxSta 3,
    .disconnect (station 1)]

theorem apList_follows_two : ∃ K ⊆ (quietRun.foldl step (boot 5)).connected,
    (quietRun.foldl step (boot 5)).listed =
        (K.val.map fun m => (m, (quietRun.foldl step (boot 5)).address m)) ∧
      K = {station 2} := by
  have allowed : Allowed Fits step (boot 5) quietRun :=
    ⟨by decide, by decide, by decide, by decide, by decide, trivial⟩
  have r : Reach lts Fits (quietRun.foldl step (boot 5)) :=
    Reach.foldl (fun _ _ => rfl) (Reach.init (M := lts) ⟨5, rfl⟩) allowed
  obtain ⟨-, -, K, sub, listed, whole⟩ := apList_follows _ r
  exact ⟨K, sub, listed, (whole (by decide)).trans (by decide)⟩

/-- A repeated connect takes a second entry, which outlives the station; a disconnect of the zero address
makes the count wrap; with a limit of six a sixth station is written behind the array. -/
theorem apList_astray :
    ([.connect (station 1) 10, .connect (station 1) 20].foldl step (boot 5)).listed =
        {(station 1, 0), (station 1, 0)} ∧
      ([.connect (station 1) 10, .connect (station 1) 20, .disconnect (station 1)].foldl step
        (boot 5)).listed = {(station 1, 0)} ∧
      ([.disconnect .zero].foldl step (boot 5)).maccount = 2 ^ 32 - 1 ∧
      (([1, 2, 3, 4, 5, 6].map fun n => .connect (station n) 0).foldl step (boot 6)).inside = false := by
  decide

end ApList

end En675.Net
