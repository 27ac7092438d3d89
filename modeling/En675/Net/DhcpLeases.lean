import Mathlib.Algebra.Ring.Nat
import Mathlib.Data.List.Forall2
import Mathlib.Data.List.Pairwise
import Mathlib.Tactic.ByContra
import En675.Lib.While

/-! The lease table of the DHCP server (`leases.c`).  An address is the number that its octets are, the first one
highest, so that the order of addresses is that of the code, which converts them to compare. -/

namespace En675.Net.Dhcpd

open Lib

section code

/-- `struct dhcpOfferedAddr`. -/
structure OfferedAddr where
  chaddr : List UInt8
  yiaddr : Nat
  expires : Nat
  deriving DecidableEq

def noChaddr : List UInt8 := List.replicate 16 0

/-- What `memset` leaves. -/
def OfferedAddr.blank : OfferedAddr := ⟨noChaddr, 0, 0⟩

def clearLease (leases : List OfferedAddr) (chaddr : List UInt8) (yiaddr : Nat) : List OfferedAddr :=
  leases.map fun l =>
    if chaddr ≠ noChaddr ∧ l.chaddr = chaddr ∨ yiaddr ≠ 0 ∧ l.yiaddr = yiaddr then .blank else l

def leaseExpired (lease : OfferedAddr) (now : Nat) : Bool := decide (lease.expires < now)

/-- The loop of `oldest_expired_lease`, at the entry `i`. -/
def oldestFrom (oldestLease : Nat) (oldest : Option Nat) (i : Nat) : List OfferedAddr → Option Nat
  | [] => oldest
  | l :: leases =>
    if l.expires < oldestLease then oldestFrom l.expires (some i) (i + 1) leases
    else oldestFrom oldestLease oldest (i + 1) leases

def oldestExpiredLease (leases : List OfferedAddr) (now : Nat) : Option Nat := oldestFrom now none 0 leases

/-- Whether there was an entry for it. -/
def addLease (leases : List OfferedAddr) (now : Nat) (chaddr : List UInt8) (yiaddr lease : Nat) :
    List OfferedAddr × Bool :=
  let cleared := clearLease leases chaddr yiaddr
  match oldestExpiredLease cleared now with
  | some i => (cleared.set i ⟨chaddr, yiaddr, (lease + now) % 2 ^ 32⟩, true)
  | none => (cleared, false)

/-- The first entry that passes, and where it is. -/
def findLease (p : OfferedAddr → Bool) (leases : List OfferedAddr) : Option (Nat × OfferedAddr) :=
  (leases.findIdx? p).bind fun i => leases[i]?.map fun l => (i, l)

def findLeaseByChaddr (leases : List OfferedAddr) (chaddr : List UInt8) : Option (Nat × OfferedAddr) :=
  findLease (fun l => l.chaddr == chaddr) leases

def findLeaseByYiaddr (leases : List OfferedAddr) (yiaddr : Nat) : Option (Nat × OfferedAddr) :=
  findLease (fun l => l.yiaddr == yiaddr) leases

/-- The lease is not taken, or it is expired and that is enough. -/
def notTaken (leases : List OfferedAddr) (now : Nat) (checkExpired : Bool) (yiaddr : Nat) : Bool :=
  match findLeaseByYiaddr leases yiaddr with
  | none => true
  | some (_, l) => checkExpired && leaseExpired l now

/-- From `start` to `end_`; what is returned is 0 where nothing has been found. -/
def findAddress (n : Nat) (start end_ : Nat) (leases : List OfferedAddr) (now : Nat) (checkExpired : Bool) :
    Option Nat :=
  (whileDo (fun (addr, _) => decide (addr ≤ end_))
    (fun (addr, _) =>
      if addr % 256 = 0 then .next ((addr + 1) % 2 ^ 32, 0)
      else if addr % 256 = 255 then .next ((addr + 1) % 2 ^ 32, 0)
      else if notTaken leases now checkExpired addr then .stop (addr, addr)
      else .next ((addr + 1) % 2 ^ 32, 0)) n (start, 0)).map Prod.snd

end code

/-- No two entries are of the same client, and no two of the same address; who has an entry has an address. -/
structure Distinct (leases : List OfferedAddr) : Prop where
  chaddrs : leases.Pairwise fun l k => l.chaddr = k.chaddr → l.chaddr = noChaddr
  yiaddrs : leases.Pairwise fun l k => l.yiaddr = k.yiaddr → l.yiaddr = 0
  owned : ∀ l ∈ leases, l.chaddr ≠ noChaddr → l.yiaddr ≠ 0

section find

variable {leases : List OfferedAddr} {p : OfferedAddr → Bool} {i : Nat} {l k : OfferedAddr}

theorem findLease_some (h : findLease p leases = some (i, l)) : leases[i]? = some l ∧ p l = true := by
  simp only [findLease, Option.bind_eq_some_iff, Option.map_eq_some_iff, Prod.mk.injEq,
    List.findIdx?_eq_some_iff_getElem] at h
  obtain ⟨j, ⟨lt, pass, -⟩, l', hl', rfl, rfl⟩ := h
  rw [List.getElem?_eq_getElem lt] at hl'
  obtain rfl := Option.some.inj hl'
  exact ⟨List.getElem?_eq_getElem lt, pass⟩

theorem findLease_none : findLease p leases = none ↔ ∀ l ∈ leases, p l = false := by
  rw [← List.findIdx?_eq_none_iff]
  constructor
  · intro h
    by_contra some
    obtain ⟨i, hi⟩ := Option.ne_none_iff_exists'.mp some
    have lt : i < leases.length := (List.findIdx?_eq_some_iff_getElem.mp hi).1
    rw [findLease, hi, Option.bind_some, List.getElem?_eq_getElem lt] at h
    cases h
  · intro h
    rw [findLease, h]
    rfl

theorem Distinct.chaddr_unique (d : Distinct leases) (hl : l ∈ leases) (hk : k ∈ leases) (same : l.chaddr = k.chaddr)
    (real : l.chaddr ≠ noChaddr) : l = k := by
  by_contra ne
  have symm : Std.Symm fun l k : OfferedAddr => l.chaddr = k.chaddr → l.chaddr = noChaddr :=
    ⟨fun l k h eq => eq.trans (h eq.symm)⟩
  exact real (d.chaddrs.forall hl hk ne same)

theorem Distinct.yiaddr_unique (d : Distinct leases) (hl : l ∈ leases) (hk : k ∈ leases) (same : l.yiaddr = k.yiaddr)
    (real : l.yiaddr ≠ 0) : l = k := by
  by_contra ne
  have symm : Std.Symm fun l k : OfferedAddr => l.yiaddr = k.yiaddr → l.yiaddr = 0 :=
    ⟨fun l k h eq => eq.trans (h eq.symm)⟩
  exact real (d.yiaddrs.forall hl hk ne same)

theorem notTaken_iff (d : Distinct leases) {now a : Nat} {check : Bool} (real : a ≠ 0) :
    notTaken leases now check a = true ↔ ∀ l ∈ leases, l.yiaddr = a → check = true ∧ l.expires < now := by
  unfold notTaken
  split
  · rename_i none
    refine iff_of_true rfl fun l hl same => ?_
    have other := findLease_none.mp none l hl
    rw [same, beq_self_eq_true] at other
    cases other
  · rename_i i l found
    obtain ⟨here, pass⟩ := findLease_some found
    have hl := List.mem_of_getElem? here
    have same : l.yiaddr = a := by simpa using pass
    simp only [leaseExpired, Bool.and_eq_true, decide_eq_true_eq]
    constructor
    · intro free k hk eq
      rwa [← d.yiaddr_unique hl hk (same.trans eq.symm) (same ▸ real)]
    · exact fun all => all l hl same

end find

/-- `k` says no more than `l` did. -/
structure Lessens (k l : OfferedAddr) : Prop where
  chaddr : k.chaddr = l.chaddr ∨ k.chaddr = noChaddr
  yiaddr : k.yiaddr = l.yiaddr ∨ k.yiaddr = 0
  owned : k.chaddr ≠ noChaddr → k.yiaddr = l.yiaddr

section keep

variable {leases : List OfferedAddr} {l : OfferedAddr} {c : List UInt8} {now i a t : Nat}

theorem lessens_refl (l : OfferedAddr) : Lessens l l := ⟨.inl rfl, .inl rfl, fun _ => rfl⟩

theorem lessens_blank (l : OfferedAddr) : Lessens .blank l := ⟨.inr rfl, .inr rfl, fun h => absurd rfl h⟩

theorem pairwise_of_forall₂ {R : OfferedAddr → OfferedAddr → Prop} {less : List OfferedAddr}
    (h : List.Forall₂ Lessens less leases)
    (keeps : ∀ {k l k' l'}, Lessens k l → Lessens k' l' → R l l' → R k k') (p : leases.Pairwise R) :
    less.Pairwise R := by
  induction h with
  | nil => exact .nil
  | @cons k l less leases first rest ih =>
    obtain ⟨behind, p⟩ := List.pairwise_cons.mp p
    refine List.pairwise_cons.mpr ⟨fun k' hk' => ?_, ih p⟩
    obtain ⟨i, hi, rfl⟩ := List.getElem_of_mem hk'
    have hi' : i < leases.length := rest.length_eq ▸ hi
    exact keeps first (rest.get hi hi') (behind _ (List.getElem_mem hi'))

/-- To say less keeps entries distinct. -/
theorem Distinct.lessen (d : Distinct leases) {less : List OfferedAddr} (h : List.Forall₂ Lessens less leases) :
    Distinct less := by
  refine ⟨pairwise_of_forall₂ h (fun {k l k' l'} hl hl' apart same => ?_) d.chaddrs,
    pairwise_of_forall₂ h (fun {k l k' l'} hl hl' apart same => ?_) d.yiaddrs, fun k hk real => ?_⟩
  · rcases hl.chaddr with eq | none
    · rcases hl'.chaddr with eq' | none
      · rw [eq] at same ⊢
        exact apart (same.trans eq')
      · exact same.trans none
    · exact none
  · rcases hl.yiaddr with eq | none
    · rcases hl'.yiaddr with eq' | none
      · rw [eq] at same ⊢
        exact apart (same.trans eq')
      · exact same.trans none
    · exact none
  · obtain ⟨i, hi, rfl⟩ := List.getElem_of_mem hk
    have hi' : i < leases.length := h.length_eq ▸ hi
    have first := h.get hi hi'
    have eq : less[i].yiaddr = leases[i].yiaddr := first.owned real
    rw [eq]
    refine d.owned _ (List.getElem_mem hi') fun none => real ?_
    rcases first.chaddr with eq | none'
    · exact Eq.trans eq none
    · exact none'

theorem forall₂_modify {f : OfferedAddr → OfferedAddr} (less : ∀ l, Lessens (f l) l) (i : Nat)
    (leases : List OfferedAddr) : List.Forall₂ Lessens (leases.modify i f) leases := by
  induction leases generalizing i with
  | nil =>
    rw [List.modify_nil]
    exact .nil
  | cons l leases ih =>
    cases i with
    | zero => exact .cons (less l) (List.forall₂_same.mpr fun x _ => lessens_refl x)
    | succ i => exact .cons (lessens_refl l) (ih i)

theorem forall₂_clear (c : List UInt8) (a : Nat) (leases : List OfferedAddr) :
    List.Forall₂ Lessens (clearLease leases c a) leases := by
  rw [clearLease, List.forall₂_map_left_iff, List.forall₂_same]
  intro l _
  split
  · exact lessens_blank l
  · exact lessens_refl l

/-- What `clear_lease` leaves is of others. -/
theorem mem_clearLease {k : OfferedAddr} : k ∈ clearLease leases c a ↔
    (k ∈ leases ∧ ¬ (c ≠ noChaddr ∧ k.chaddr = c ∨ a ≠ 0 ∧ k.yiaddr = a)) ∨
      k = .blank ∧ ∃ l ∈ leases, c ≠ noChaddr ∧ l.chaddr = c ∨ a ≠ 0 ∧ l.yiaddr = a := by
  rw [clearLease, List.mem_map]
  constructor
  · rintro ⟨l, hl, rfl⟩
    split
    · exact .inr ⟨rfl, l, hl, ‹_›⟩
    · exact .inl ⟨hl, ‹_›⟩
  · rintro (⟨hk, other⟩ | ⟨rfl, l, hl, same⟩)
    · exact ⟨k, hk, if_neg other⟩
    · exact ⟨l, hl, if_pos same⟩

theorem oldestFrom_some {best : Option Nat} {j k : Nat} (h : oldestFrom t best j leases = some k) :
    best = some k ∨ ∃ l, leases[k - j]? = some l ∧ j ≤ k ∧ l.expires < t := by
  induction leases generalizing t best j with
  | nil => exact .inl h
  | cons l leases ih =>
    rw [oldestFrom] at h
    split at h
    · rename_i older
      rcases ih h with eq | ⟨x, here, le, lt⟩
      · obtain rfl := Option.some.inj eq
        exact .inr ⟨l, by rw [Nat.sub_self]; rfl, Nat.le_refl j, older⟩
      · refine .inr ⟨x, ?_, Nat.le_of_succ_le le, Nat.lt_trans lt older⟩
        rw [show k - j = k - (j + 1) + 1 by omega]
        exact here
    · rcases ih h with eq | ⟨x, here, le, lt⟩
      · exact .inl eq
      · refine .inr ⟨x, ?_, Nat.le_of_succ_le le, lt⟩
        rw [show k - j = k - (j + 1) + 1 by omega]
        exact here

theorem oldestFrom_none {best : Option Nat} {j : Nat} :
    oldestFrom t best j leases = none ↔ best = none ∧ ∀ l ∈ leases, t ≤ l.expires := by
  induction leases generalizing t best j with
  | nil => simp [oldestFrom]
  | cons l leases ih =>
    rw [oldestFrom, List.forall_mem_cons]
    split
    · rename_i older
      rw [ih]
      exact iff_of_false (fun h => by cases h.1) fun h => absurd h.2.1 (Nat.not_le.2 older)
    · rename_i newer
      rw [ih]
      exact and_congr_right fun _ => (and_iff_right (Nat.not_lt.1 newer)).symm

theorem oldestExpiredLease_some (h : oldestExpiredLease leases now = some i) :
    ∃ l, leases[i]? = some l ∧ l.expires < now := by
  rcases oldestFrom_some h with none | ⟨l, here, -, lt⟩
  · cases none
  · exact ⟨l, here, lt⟩

theorem oldestExpiredLease_none : oldestExpiredLease leases now = none ↔ ∀ l ∈ leases, now ≤ l.expires :=
  oldestFrom_none.trans (and_iff_right rfl)

/-- A new entry in the place of another. -/
theorem Distinct.set (d : Distinct leases) (l : OfferedAddr)
    (free : ∀ k ∈ leases, (k.chaddr = l.chaddr → l.chaddr = noChaddr) ∧ (k.yiaddr = l.yiaddr → l.yiaddr = 0))
    (owned : l.chaddr ≠ noChaddr → l.yiaddr ≠ 0) (i : Nat) : Distinct (leases.set i l) := by
  refine ⟨?_, ?_, fun k hk => ?_⟩
  · refine List.pairwise_iff_getElem.mpr fun x y hx hy lt => ?_
    rw [List.length_set] at hx hy
    rw [List.getElem_set, List.getElem_set]
    split
    · split
      · omega
      · exact fun same => (free _ (List.getElem_mem hy)).1 same.symm
    · split
      · exact fun same => same.trans ((free _ (List.getElem_mem hx)).1 same)
      · exact List.pairwise_iff_getElem.mp d.chaddrs x y hx hy lt
  · refine List.pairwise_iff_getElem.mpr fun x y hx hy lt => ?_
    rw [List.length_set] at hx hy
    rw [List.getElem_set, List.getElem_set]
    split
    · split
      · omega
      · exact fun same => (free _ (List.getElem_mem hy)).2 same.symm
    · split
      · exact fun same => same.trans ((free _ (List.getElem_mem hx)).2 same)
      · exact List.pairwise_iff_getElem.mp d.yiaddrs x y hx hy lt
  · rcases List.mem_or_eq_of_mem_set hk with hk | rfl
    · exact d.owned k hk
    · exact owned

/-- What stays where another entry is replaced. -/
theorem mem_set_of_ne {k x l : OfferedAddr} (hk : k ∈ leases) (there : leases[i]? = some x) (ne : k ≠ x) :
    k ∈ leases.set i l := by
  obtain ⟨j, hj, rfl⟩ := List.getElem_of_mem hk
  have other : i ≠ j := by
    rintro rfl
    rw [List.getElem?_eq_getElem hj] at there
    exact ne (Option.some.inj there)
  refine List.mem_of_getElem? (i := j) ?_
  rw [List.getElem?_set_ne other, List.getElem?_eq_getElem hj]

theorem addLease_cases (leases : List OfferedAddr) (now : Nat) (c : List UInt8) (a t : Nat) :
    (∃ i x, (clearLease leases c a)[i]? = some x ∧ x.expires < now ∧
      addLease leases now c a t = ((clearLease leases c a).set i ⟨c, a, (t + now) % 2 ^ 32⟩, true)) ∨
    addLease leases now c a t = (clearLease leases c a, false) ∧ ∀ l ∈ clearLease leases c a, now ≤ l.expires := by
  unfold addLease
  dsimp only
  split
  · rename_i i h
    obtain ⟨x, there, lt⟩ := oldestExpiredLease_some h
    exact .inl ⟨i, x, there, lt, rfl⟩
  · rename_i h
    exact .inr ⟨rfl, oldestExpiredLease_none.mp h⟩

theorem Distinct.addLease (d : Distinct leases) (now : Nat) (owned : c ≠ noChaddr → a ≠ 0) (t : Nat) :
    Distinct (addLease leases now c a t).1 := by
  have cleared := d.lessen (forall₂_clear c a leases)
  rcases addLease_cases leases now c a t with ⟨i, x, -, -, eq⟩ | ⟨eq, -⟩
  · rw [eq]
    refine cleared.set _ (fun k hk => ?_) owned i
    rcases mem_clearLease.mp hk with ⟨-, other⟩ | ⟨rfl, -⟩
    · obtain ⟨chaddr, yiaddr⟩ := not_or.mp other
      exact ⟨fun same => not_not.mp fun real => chaddr ⟨real, same⟩,
        fun same => not_not.mp fun real => yiaddr ⟨real, same⟩⟩
    · exact ⟨fun same => same.symm, fun same => same.symm⟩
  · rw [eq]
    exact cleared

/-- An entry of another client, for another address, that has not expired. -/
theorem mem_addLease_of_other {k : OfferedAddr} (hk : k ∈ leases)
    (other : ¬ (c ≠ noChaddr ∧ k.chaddr = c ∨ a ≠ 0 ∧ k.yiaddr = a)) (valid : now ≤ k.expires) :
    k ∈ (addLease leases now c a t).1 := by
  have cleared : k ∈ clearLease leases c a := mem_clearLease.mpr (.inl ⟨hk, other⟩)
  rcases addLease_cases leases now c a t with ⟨i, x, there, lt, eq⟩ | ⟨eq, -⟩
  · rw [eq]
    refine mem_set_of_ne cleared there ?_
    rintro rfl
    exact absurd lt (Nat.not_lt.2 valid)
  · rw [eq]
    exact cleared

theorem mem_addLease {k : OfferedAddr} (hk : k ∈ (addLease leases now c a t).1) :
    k = ⟨c, a, (t + now) % 2 ^ 32⟩ ∨ k = .blank ∨ k ∈ leases := by
  have cleared (h : k ∈ clearLease leases c a) : k = .blank ∨ k ∈ leases :=
    (mem_clearLease.mp h).elim (fun h => .inr h.1) fun h => .inl h.1
  rcases addLease_cases leases now c a t with ⟨i, x, -, -, eq⟩ | ⟨eq, -⟩
  · rw [eq] at hk
    rcases List.mem_or_eq_of_mem_set hk with hk | eq
    · exact .inr (cleared hk)
    · exact .inl eq
  · rw [eq] at hk
    exact .inr (cleared hk)

/-- Where it was added, it is there. -/
theorem mem_addLease_self (added : (addLease leases now c a t).2 = true) :
    ⟨c, a, (t + now) % 2 ^ 32⟩ ∈ (addLease leases now c a t).1 := by
  rcases addLease_cases leases now c a t with ⟨i, x, there, -, eq⟩ | ⟨eq, -⟩
  · rw [eq]
    obtain ⟨lt, -⟩ := List.getElem?_eq_some_iff.mp there
    exact List.mem_set lt _
  · rw [eq] at added
    cases added

/-- There is room where some entry has expired, or the client or the address has one. -/
theorem addLease_added_iff (pos : 0 < now) : (addLease leases now c a t).2 = true ↔
    ∃ l ∈ leases, l.expires < now ∨ c ≠ noChaddr ∧ l.chaddr = c ∨ a ≠ 0 ∧ l.yiaddr = a := by
  rcases addLease_cases leases now c a t with ⟨i, x, there, lt, eq⟩ | ⟨eq, all⟩
  · rw [eq]
    refine iff_of_true rfl ?_
    rcases mem_clearLease.mp (List.mem_of_getElem? there) with ⟨hx, -⟩ | ⟨-, l, hl, same⟩
    · exact ⟨x, hx, .inl lt⟩
    · exact ⟨l, hl, .inr same⟩
  · rw [eq]
    refine iff_of_false Bool.false_ne_true ?_
    rintro ⟨l, hl, same⟩
    by_cases matched : c ≠ noChaddr ∧ l.chaddr = c ∨ a ≠ 0 ∧ l.yiaddr = a
    · exact absurd (all _ (mem_clearLease.mpr (.inr ⟨rfl, l, hl, matched⟩))) (Nat.not_le.2 pos)
    · exact absurd (all l (mem_clearLease.mpr (.inl ⟨hl, matched⟩))) (Nat.not_le.2 (same.resolve_right matched))

end keep

section search

variable {leases : List OfferedAddr} {start end_ now n r : Nat} {check : Bool}

/-- What `find_address` may return. -/
def Suits (leases : List OfferedAddr) (now : Nat) (check : Bool) (a : Nat) : Prop :=
  a % 256 ≠ 0 ∧ a % 256 ≠ 255 ∧ notTaken leases now check a = true

/-- The search ends, with an address that suits or with 0 where none does. -/
theorem findAddress_spec (leases : List OfferedAddr) (now : Nat) (check : Bool) (top : end_ + 1 < 2 ^ 32)
    (hn : end_ + 1 - start ≤ n) :
    ∃ r, findAddress n start end_ leases now check = some r ∧
      (r ≠ 0 → start ≤ r ∧ r ≤ end_ ∧ Suits leases now check r) ∧
      (r = 0 → ∀ a, start ≤ a → a ≤ end_ → ¬ Suits leases now check a) := by
  have loop : Variant (fun (s : Nat × Nat) => decide (s.1 ≤ end_))
      (fun (s : Nat × Nat) =>
        if s.1 % 256 = 0 then .next ((s.1 + 1) % 2 ^ 32, 0)
        else if s.1 % 256 = 255 then .next ((s.1 + 1) % 2 ^ 32, 0)
        else if notTaken leases now check s.1 then .stop (s.1, s.1)
        else .next ((s.1 + 1) % 2 ^ 32, 0))
      (fun s => s.2 = 0 ∧ start ≤ s.1 ∧ ∀ a, start ≤ a → a < s.1 → ¬ Suits leases now check a)
      (fun s => end_ + 1 - s.1)
      (fun s => (s.2 ≠ 0 → start ≤ s.2 ∧ s.2 ≤ end_ ∧ Suits leases now check s.2) ∧
        (s.2 = 0 → ∀ a, start ≤ a → a ≤ end_ → ¬ Suits leases now check a)) := by
    refine ⟨fun {s} inv stop => ?_, fun {s t} inv on step => ?_, fun {s t} inv on step => ?_, fun {s} inv on => ?_⟩
    · have past := of_decide_eq_false stop
      exact ⟨fun some => absurd inv.1 some, fun _ a lower upper => inv.2.2 a lower (by omega)⟩
    · have inside := of_decide_eq_true on
      obtain ⟨-, lower, before⟩ := inv
      have next (unfit : ¬ Suits leases now check s.1) (eq : t = ((s.1 + 1) % 2 ^ 32, 0)) :
          (t.2 = 0 ∧ start ≤ t.1 ∧ ∀ a, start ≤ a → a < t.1 → ¬ Suits leases now check a) ∧
            end_ + 1 - t.1 < end_ + 1 - s.1 := by
        have wrap : (s.1 + 1) % 2 ^ 32 = s.1 + 1 := Nat.mod_eq_of_lt (by omega)
        rw [eq, wrap]
        refine ⟨⟨rfl, Nat.le_succ_of_le lower, fun a ha lt => ?_⟩, by dsimp only; omega⟩
        rcases Nat.lt_or_eq_of_le (Nat.le_of_lt_succ lt) with lt | rfl
        · exact before a ha lt
        · exact unfit
      split at step
      · rename_i low
        exact next (fun suits => suits.1 low) (Round.next.inj step).symm
      · split at step
        · rename_i high
          exact next (fun suits => suits.2.1 high) (Round.next.inj step).symm
        · split at step
          · cases step
          · rename_i taken
            exact next (fun suits => taken suits.2.2) (Round.next.inj step).symm
    · have inside := of_decide_eq_true on
      split at step
      · cases step
      · split at step
        · cases step
        · split at step
          · rename_i low high free
            obtain rfl := Round.stop.inj step
            refine ⟨fun _ => ⟨inv.2.1, inside, low, high, free⟩, fun zero => ?_⟩
            exact absurd (congrArg (· % 256) zero) low
          · cases step
    · have inside := of_decide_eq_true on
      omega
  obtain ⟨t, run, post⟩ := loop.total (s := (start, 0))
    ⟨rfl, Nat.le_refl _, fun a lower upper => absurd upper (Nat.not_lt.2 lower)⟩ hn
  exact ⟨t.2, by rw [findAddress, run, Option.map_some], post⟩

end search

end En675.Net.Dhcpd
