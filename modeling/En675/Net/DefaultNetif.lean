import Mathlib.Logic.Function.Basic
import En675.Lib.Transition

/-! Which interface the default route goes to (`networkif.c`), with the link callbacks of the Ethernet
port (`ethernetif.c`) and of the two Wi-Fi interfaces (`wifiif.c`), and the functions of lwIP that call
them.  Addresses, name servers and DHCP are left out, but for the interface a fixed address brings up. -/

namespace En675.Net

open Lib

/-- In the order of `NETIFLIST`. -/
inductive NetIf where
  | ethernet
  | wifiSta
  | wifiUap
  deriving DecidableEq

structure Netifs where
  /-- The Wi-Fi interfaces whose `_netif` is set. -/
  wifi : NetIf → Bool
  up : NetIf → Bool
  linkUp : NetIf → Bool
  netifDefault : Option NetIf

inductive NetifEvent where
  | add (i : NetIf)
  /-- With the DHCP setting of the moment. -/
  | linkUp (i : NetIf) (useDhcp : Bool)
  | linkDown (i : NetIf)
  | ifUp (i : NetIf)
  | ifDown (i : NetIf)

namespace Netifs

variable (s : Netifs)

def boot : Netifs :=
  { wifi := fun _ => false
    up := fun _ => false
    linkUp := fun _ => false
    netifDefault := none }

def present (i : NetIf) : Bool := i == .ethernet || s.wifi i

/-- The test of `network_default_netif`. -/
def live (i : NetIf) : Bool := s.present i && (s.up i && s.linkUp i)

/-- What its branches choose: each leaves the interface out that is the default already. -/
def chosen : List NetIf → Option NetIf
  | [] => none
  | i :: is =>
    if s.live i then
      if s.netifDefault ≠ some i then some i else chosen is
    else chosen is

def order : List NetIf := [.ethernet, .wifiSta, .wifiUap]

def networkDefaultNetif : Netifs := { s with netifDefault := s.chosen order }

/-- The first live interface. -/
def best : Option NetIf := order.find? s.live

def setUp (i : NetIf) (b : Bool) : Netifs := { s with up := Function.update s.up i b }

def setLink (i : NetIf) (b : Bool) : Netifs := { s with linkUp := Function.update s.linkUp i b }

/-- The first part of a link callback: a fixed address brings the interface up, but not the access
point. -/
def bind (i : NetIf) (useDhcp : Bool) : Netifs :=
  if s.linkUp i ∧ useDhcp = false ∧ i ≠ .wifiUap then s.setUp i true else s

def networkEthifLinkCb (useDhcp : Bool) : Netifs := (s.bind .ethernet useDhcp).networkDefaultNetif

def networkWlifstaLinkCb (useDhcp : Bool) : Netifs := (s.bind .wifiSta useDhcp).networkDefaultNetif

def networkWlifuapLinkCb (useDhcp : Bool) : Netifs := (s.bind .wifiUap useDhcp).networkDefaultNetif

def linkCb (useDhcp : Bool) : NetIf → Netifs
  | .ethernet => s.networkEthifLinkCb useDhcp
  | .wifiSta => s.networkWlifstaLinkCb useDhcp
  | .wifiUap => s.networkWlifuapLinkCb useDhcp

/-- `netif_add` clears the flags, and `low_level_init` sets that of the Ethernet port. -/
def netifAdd (i : NetIf) : Netifs :=
  let added : Netifs := { s with wifi := Function.update s.wifi i true }
  (added.setLink i false).setUp i (i == .ethernet)

def netifSetLinkUp (i : NetIf) (useDhcp : Bool) : Netifs :=
  if s.present i ∧ s.linkUp i = false then (s.setLink i true).linkCb useDhcp i else s

def netifSetLinkDown (i : NetIf) : Netifs :=
  if s.present i ∧ s.linkUp i = true then (s.setLink i false).linkCb true i else s

def step : NetifEvent → Netifs
  | .add i => s.netifAdd i
  | .linkUp i useDhcp => s.netifSetLinkUp i useDhcp
  | .linkDown i => s.netifSetLinkDown i
  | .ifUp i => if s.present i then s.setUp i true else s
  | .ifDown i => if s.present i then s.setUp i false else s

/-- The state in which the callback of an event, if it has one, calls `network_default_netif`. -/
def callback : NetifEvent → Option Netifs
  | .linkUp i useDhcp =>
    if s.present i ∧ s.linkUp i = false then some ((s.setLink i true).bind i useDhcp) else none
  | .linkDown i =>
    if s.present i ∧ s.linkUp i = true then some ((s.setLink i false).bind i true) else none
  | _ => none

section choice

variable {s}

theorem chosen_mem {is : List NetIf} {i : NetIf} (h : s.chosen is = some i) : i ∈ is := by
  induction is with
  | nil => cases h
  | cons j is ih =>
    rw [chosen] at h
    split at h
    · split at h
      · obtain rfl := Option.some.inj h
        exact List.mem_cons_self
      · exact List.mem_cons_of_mem _ (ih h)
    · exact List.mem_cons_of_mem _ (ih h)

/-- The choice is the first live interface, unless that is the default already. -/
theorem chosen_eq_find_iff {is : List NetIf} (once : is.Nodup) :
    s.chosen is = is.find? s.live ↔
      (is.find? s.live = none ∨ s.netifDefault ≠ is.find? s.live) := by
  induction is with
  | nil => simp [chosen]
  | cons i is ih =>
    obtain ⟨fresh, once⟩ := List.nodup_cons.1 once
    rw [chosen, List.find?_cons]
    cases s.live i with
    | false => exact ih once
    | true =>
      simp only [if_true, reduceCtorEq, false_or]
      split
      · exact ⟨fun _ => ‹_›, fun _ => rfl⟩
      · rename_i current
        rw [not_not] at current
        constructor
        · exact fun h => absurd (chosen_mem h) fresh
        · exact fun h => absurd current h

theorem networkDefaultNetif_iff :
    s.networkDefaultNetif.netifDefault = s.networkDefaultNetif.best ↔
      (s.best = none ∨ s.netifDefault ≠ s.best) :=
  chosen_eq_find_iff (by decide)

end choice

section callback

variable {s} {e : NetifEvent} {c : Netifs}

theorem linkCb_eq (useDhcp : Bool) (i : NetIf) :
    s.linkCb useDhcp i = (s.bind i useDhcp).networkDefaultNetif := by
  cases i <;> rfl

/-- An event with a callback ends in `network_default_netif`. -/
theorem step_callback (h : s.callback e = some c) : s.step e = c.networkDefaultNetif := by
  cases e with
  | add => cases h
  | linkUp i useDhcp =>
    rw [callback, Option.ite_none_right_eq_some] at h
    rw [step, netifSetLinkUp, if_pos h.1, linkCb_eq, Option.some.inj h.2]
  | linkDown i =>
    rw [callback, Option.ite_none_right_eq_some] at h
    rw [step, netifSetLinkDown, if_pos h.1, linkCb_eq, Option.some.inj h.2]
  | ifUp => cases h
  | ifDown => cases h

@[simp] theorem bind_netifDefault (i : NetIf) (useDhcp : Bool) :
    (s.bind i useDhcp).netifDefault = s.netifDefault := by
  rw [bind]
  split <;> rfl

/-- What comes before does not touch the default route. -/
theorem callback_netifDefault (h : s.callback e = some c) : c.netifDefault = s.netifDefault := by
  cases e with
  | add => cases h
  | linkUp i useDhcp =>
    rw [callback, Option.ite_none_right_eq_some] at h
    rw [← Option.some.inj h.2, bind_netifDefault]
    rfl
  | linkDown i =>
    rw [callback, Option.ite_none_right_eq_some] at h
    rw [← Option.some.inj h.2, bind_netifDefault]
    rfl
  | ifUp => cases h
  | ifDown => cases h

end callback

section run

/-- If the event has a callback, the default route is right after it. -/
def RightAfter (s : Netifs) (e : NetifEvent) : Prop :=
  (s.callback e).isSome → (s.step e).netifDefault = (s.step e).best

/-- If the event has a callback, the default is not yet what it is to become, or is to become `NULL`. -/
def Moves (s : Netifs) (e : NetifEvent) : Prop :=
  ∀ c, s.callback e = some c → c.best = none ∨ s.netifDefault ≠ c.best

theorem rightAfter_iff (s : Netifs) (e : NetifEvent) : RightAfter s e ↔ Moves s e := by
  rw [RightAfter, Moves]
  cases h : s.callback e with
  | none => simp
  | some c =>
    rw [step_callback h, ← callback_netifDefault h]
    simpa using networkDefaultNetif_iff

/-- In a run from any state, the default route is right after every link callback exactly if no
callback finds the right one in place. -/
theorem default_best_iff (s : Netifs) (es : List NetifEvent) :
    Allowed RightAfter step s es ↔ Allowed Moves step s es := by
  induction es generalizing s with
  | nil => rfl
  | cons e es ih => rw [Allowed, Allowed, rightAfter_iff, ih]

/-- The Ethernet port comes up, and then the station. -/
def secondLink : List NetifEvent :=
  [.add .ethernet, .add .wifiSta, .linkUp .ethernet false, .linkUp .wifiSta false]

/-- The station takes the default route away. -/
theorem secondLink_wrong : (secondLink.foldl step boot).best = some .ethernet ∧
    (secondLink.foldl step boot).netifDefault = some .wifiSta ∧
    ¬Allowed RightAfter step boot secondLink := by
  refine ⟨by decide, by decide, fun all => ?_⟩
  exact absurd (all.2.2.2.1 (by decide)) (by decide)

end run

end Netifs

end En675.Net
