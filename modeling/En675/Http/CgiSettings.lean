import En675.Http.Cgi
import Mathlib.Data.UInt

/-! What a call of the handler leaves in gtUser, gtNetwork and gtSystem: the settings in their
ranges, the strings closed, every other byte as it was; and exactly when. -/

namespace En675.Http

open Lib

section spec

variable (L : Layout)

/-- Bytes that belong to some setting. -/
inductive Settable : Nat → Prop
  | ip (f : IpField) : f.addr L ≤ x → x < f.addr L + 4 → Settable x
  | int (f : IntField) : f.addr L ≤ x → x < f.addr L + f.size → Settable x
  | mac : macAddr L ≤ x → x < macAddr L + 6 → Settable x
  | str (f : StrField) : f.addr L ≤ x → x < f.addr L + f.size → Settable x

def InObjects (x : Nat) : Prop :=
  L.user ≤ x ∧ x < L.user + userSize ∨ L.network ≤ x ∧ x < L.network + networkSize ∨
    L.system ≤ x ∧ x < L.system + systemSize

/-- A setting, read as wide as it is. -/
def IntField.value (m : Mem) (f : IntField) : Nat := readBE (m.read (f.addr L) f.size).reverse

structure Valid (m : Mem) : Prop where
  int : ∀ f : IntField, f.nMin ≤ f.value L m ∧ f.value L m ≤ f.nMax
  str : ∀ f : StrField, 0 ∈ m.read (f.addr L) f.size

def Untouched (m m' : Mem) : Prop := ∀ x, InObjects L x → ¬ Settable L x → m' x = m x

def rtspInfoMax : Nat := 20

/-- What the call promises of the state it leaves. -/
structure Promise (m : Mem) (mem : Mem) (kicks : List Nat) : Prop where
  valid : Valid L mem
  untouched : Untouched L m mem
  kicks : ∀ k ∈ kicks, k < rtspInfoMax

/-- The two bytes that close gtNetwork, behind the port. -/
def PadZero (m : Mem) : Prop :=
  m (IntField.addr L .portnumRTSP + 2) = 0 ∧ m (IntField.addr L .portnumRTSP + 3) = 0

/-- The condition on a parameter: a string fits its array, a kick names a slot, and a new port
finds no other bits in the word it is stored to. -/
def Fits (m : Mem) (pcParam pcValue : CStr) : Prop :=
  match paramOf pcParam with
  | .str f => pcValue.1.length < f.size
  | .int .portnumRTSP =>
    PadZero L m ∨ uintOf pcValue = readUint m (IntField.addr L .portnumRTSP)
  | .other => ∀ k ∈ kickOf pcParam, k < rtspInfoMax
  | _ => True

end spec

section words

variable (m : Mem) (a : Nat)

theorem readUint_eq : readUint m a =
    (m a).toNat + 2 ^ 8 * (m (a + 1)).toNat + 2 ^ 16 * (m (a + 2)).toNat + 2 ^ 24 * (m (a + 3)).toNat := by
  simp only [readUint, Mem.read, List.reverse_cons, List.reverse_nil, readBE, List.nil_append,
    List.cons_append, List.foldl_cons, List.foldl_nil]
  ring

theorem readUint_writeUint (n : Nat) : readUint (writeUint m a n) a = n % 2 ^ 32 := by
  have back := Mem.read_write m a (be 4 n).reverse
  rw [List.length_reverse, length_be] at back
  rw [readUint, writeUint, back, List.reverse_reverse, readBE_be]
  exact congrArg (n % ·) (by decide)

theorem writeUint_of_outside (n : Nat) (h : x < a ∨ a + 4 ≤ x) : writeUint m a n x = m x := by
  rcases h with h | h
  · exact Mem.write_of_lt _ _ _ _ h
  · exact Mem.write_of_ge _ _ _ _ (by simpa using h)

end words

section

variable {L : Layout} {m m' : Mem}

theorem value_port : IntField.value L m .portnumRTSP = (m (IntField.addr L .portnumRTSP)).toNat +
    2 ^ 8 * (m (IntField.addr L .portnumRTSP + 1)).toNat := by
  simp only [IntField.value, IntField.size, Mem.read, List.reverse_cons, List.reverse_nil, readBE,
    List.nil_append, List.cons_append, List.foldl_cons, List.foldl_nil]
  ring

theorem value_of_ne (h : f ≠ .portnumRTSP) : IntField.value L m f = readUint m (f.addr L) := by
  cases f with
  | portnumRTSP => exact absurd rfl h
  | _ => rfl

theorem value_port_le : IntField.value L m .portnumRTSP ≤ 0xFFFF := by
  have lo := (m (IntField.addr L .portnumRTSP)).toNat_lt
  have hi := (m (IntField.addr L .portnumRTSP + 1)).toNat_lt
  rw [value_port]
  omega

/-- A store elsewhere. -/
theorem Valid.congr_of (valid : Valid L m)
    (int : ∀ f : IntField, ∀ x, f.addr L ≤ x → x < f.addr L + f.size → m' x = m x)
    (str : ∀ f : StrField, ∀ x, f.addr L ≤ x → x < f.addr L + f.size → m' x = m x) :
    Valid L m' := by
  constructor
  · intro f
    rw [IntField.value, Mem.read_congr (int f)]
    exact valid.int f
  · intro f
    rw [Mem.read_congr (str f)]
    exact valid.str f

theorem IntField.size_le (f : IntField) : f.size ≤ 4 := by cases f <;> decide

/-- The fields lie apart. -/
theorem IntField.apart {f g : IntField} (ne : f ≠ g) :
    f.addr L + 4 ≤ g.addr L ∨ g.addr L + 4 ≤ f.addr L := by
  have := L.user_network
  cases f <;> cases g <;> simp only [IntField.addr, userSize, networkSize] at * <;> first
    | exact absurd rfl ne
    | omega

theorem IntField.apart_str (f : IntField) (g : StrField) :
    f.addr L + 4 ≤ g.addr L ∨ g.addr L + g.size ≤ f.addr L := by
  have := L.user_network
  cases f <;> cases g <;> simp only [IntField.addr, StrField.addr, StrField.size, userSize,
    networkSize] at * <;> omega

theorem StrField.apart {f g : StrField} (ne : f ≠ g) :
    f.addr L + f.size ≤ g.addr L ∨ g.addr L + g.size ≤ f.addr L := by
  cases f <;> cases g <;> simp only [StrField.addr, StrField.size] <;> first
    | exact absurd rfl ne
    | omega

theorem IpField.apart (f : IpField) :
    (∀ g : IntField, f.addr L + 4 ≤ g.addr L ∨ g.addr L + 4 ≤ f.addr L) ∧
    ∀ g : StrField, f.addr L + 4 ≤ g.addr L ∨ g.addr L + g.size ≤ f.addr L := by
  have := L.user_network
  constructor <;> intro g <;> cases f <;> cases g <;> simp only [IpField.addr, IntField.addr,
    StrField.addr, StrField.size, userSize, networkSize] at * <;> omega

theorem mac_apart (i : Fin 6) :
    (∀ g : IntField, macAddr L + i < g.addr L ∨ g.addr L + 4 ≤ macAddr L + i) ∧
    ∀ g : StrField, macAddr L + i < g.addr L ∨ g.addr L + g.size ≤ macAddr L + i := by
  have := L.user_system
  have := L.network_system
  have := i.isLt
  constructor <;> intro g <;> cases g <;> simp only [macAddr, IntField.addr,
    StrField.addr, StrField.size, userSize, networkSize, systemSize] at * <;> omega

theorem clampEntry_range (hle : lo ≤ hi) (h : clampEntry old v hi lo = some n) : lo ≤ n ∧ n ≤ hi := by
  rw [clampEntry] at h
  split at h
  · rw [if_neg (by omega)] at h
    obtain rfl := Option.some.inj h
    split
    · omega
    · split <;> omega
  · cases h

theorem clampEntry_none (h : clampEntry old v hi lo = none) : old = v := by
  rw [clampEntry] at h
  split at h
  · cases h
  · rename_i same
    exact not_not.1 same

theorem Untouched.trans (h : Untouched L m m') (h' : ∀ x, InObjects L x → ¬ Settable L x → m'' x = m' x) :
    Untouched L m m'' := fun x inside free => (h' x inside free).trans (h x inside free)

/-- A store to an IP address. -/
theorem Valid.set_ip (valid : Valid L m) (f : IpField) (n : Nat) : Valid L (writeUint m (f.addr L) n) := by
  obtain ⟨int, str⟩ := IpField.apart (L := L) f
  refine valid.congr_of (fun g x lo hi => ?_) (fun g x lo hi => ?_)
  · have := int g
    have := g.size_le
    exact writeUint_of_outside _ _ _ (by omega)
  · have := str g
    exact writeUint_of_outside _ _ _ (by omega)

theorem untouched_ip (f : IpField) (n : Nat) : Untouched L m (writeUint m (f.addr L) n) := by
  intro x _ free
  by_cases outside : x < f.addr L ∨ f.addr L + 4 ≤ x
  · exact writeUint_of_outside _ _ _ outside
  · exact absurd (.ip f (by omega) (by omega)) free

theorem Valid.set_mac (valid : Valid L m) (i : Fin 6) (b : UInt8) :
    Valid L (m.write (macAddr L + i) [b]) := by
  obtain ⟨int, str⟩ := mac_apart (L := L) i
  have other (x : Nat) (ne : x ≠ macAddr L + i) : m.write (macAddr L + i) [b] x = m x :=
    Function.update_of_ne ne _ _
  refine valid.congr_of (fun g x lo hi => other x ?_) (fun g x lo hi => other x ?_)
  · have := int g
    have := g.size_le
    omega
  · have := str g
    omega

theorem untouched_mac (i : Fin 6) (b : UInt8) : Untouched L m (m.write (macAddr L + i) [b]) := by
  intro x _ free
  have := i.isLt
  refine Function.update_of_ne (fun at_i => free ?_) _ _
  exact .mac (by omega) (by omega)

/-- A clamped value in a setting. -/
theorem Valid.set_int (valid : Valid L m) (f : IntField) (hn : f.nMin ≤ n ∧ n ≤ f.nMax) :
    Valid L (writeUint m (f.addr L) n) := by
  constructor
  · intro g
    by_cases same : g = f
    · subst same
      cases g with
      | portnumRTSP => exact ⟨Nat.zero_le _, value_port_le⟩
      | u1UseDhcp | nTimeSummer | nTimeZone =>
        rw [value_of_ne (by decide), readUint_writeUint, Nat.mod_eq_of_lt]
        · exact hn
        · exact Nat.lt_of_le_of_lt hn.2 (by decide)
    · have apart := IntField.apart (L := L) same
      have small := g.size_le
      rw [IntField.value, Mem.read_congr fun x lo hi => writeUint_of_outside m (f.addr L) n (x := x) (by omega)]
      exact valid.int g
  · intro g
    have apart := IntField.apart_str (L := L) f g
    rw [Mem.read_congr fun x lo hi => writeUint_of_outside m (f.addr L) n (x := x) (by omega)]
    exact valid.str g

theorem untouched_int {f : IntField} (ne : f ≠ .portnumRTSP) (n : Nat) :
    Untouched L m (writeUint m (f.addr L) n) := by
  intro x _ free
  have wide : f.size = 4 := by
    cases f with
    | portnumRTSP => exact absurd rfl ne
    | _ => rfl
  by_cases outside : x < f.addr L ∨ f.addr L + 4 ≤ x
  · exact writeUint_of_outside _ _ _ outside
  · exact absurd (.int f (by omega) (by omega)) free

/-- What the store of a port leaves behind it. -/
theorem padZero_writeUint (hn : n ≤ 0xFFFF) :
    PadZero L (writeUint m (IntField.addr L .portnumRTSP) n) := by
  have back := readUint_writeUint m (IntField.addr L .portnumRTSP) n
  have lo := (writeUint m (IntField.addr L .portnumRTSP) n (IntField.addr L .portnumRTSP + 2)).toNat_lt
  rw [readUint_eq] at back
  constructor <;> apply UInt8.toNat_inj.1 <;> simp only [UInt8.toNat_zero] <;> omega

/-- The two bytes behind the port are no setting's. -/
theorem not_settable_pad (hx : x = IntField.addr L .portnumRTSP + 2 ∨
    x = IntField.addr L .portnumRTSP + 3) : InObjects L x ∧ ¬ Settable L x := by
  have := L.user_network
  have := L.network_system
  simp only [IntField.addr] at hx
  refine ⟨.inr (.inl (by simp only [networkSize]; omega)), fun settable => ?_⟩
  cases settable with
  | ip f lo hi => cases f <;> simp only [IpField.addr] at lo hi <;> omega
  | int f lo hi =>
    cases f <;> simp only [IntField.addr, IntField.size, userSize, networkSize] at * <;> omega
  | mac lo hi => simp only [macAddr, networkSize, systemSize] at * ; omega
  | str f lo hi =>
    cases f <;> simp only [StrField.addr, StrField.size, userSize, networkSize] at * <;> omega

theorem untouched_port (hn : n ≤ 0xFFFF) :
    Untouched L m (writeUint m (IntField.addr L .portnumRTSP) n) ↔ PadZero L m := by
  have zero := padZero_writeUint (L := L) (m := m) hn
  constructor
  · intro h
    obtain ⟨in₂, free₂⟩ := not_settable_pad (L := L) (.inl rfl)
    obtain ⟨in₃, free₃⟩ := not_settable_pad (L := L) (.inr rfl)
    exact ⟨(h _ in₂ free₂).symm.trans zero.1, (h _ in₃ free₃).symm.trans zero.2⟩
  · intro pad x _ free
    by_cases outside : x < IntField.addr L .portnumRTSP ∨ IntField.addr L .portnumRTSP + 4 ≤ x
    · exact writeUint_of_outside _ _ _ outside
    · by_cases own : x < IntField.addr L .portnumRTSP + 2
      · exact absurd (.int .portnumRTSP (by omega) own) free
      · obtain rfl | rfl : x = IntField.addr L .portnumRTSP + 2 ∨
            x = IntField.addr L .portnumRTSP + 3 := by omega
        · exact zero.1.trans pad.1.symm
        · exact zero.2.trans pad.2.symm

section strings

variable {v : List UInt8}

/-- A string setting holds no more than its array. -/
theorem length_of_closed (nul : 0 ∉ v) (closed : 0 ∈ m.read a k)
    (same : m.read a (v.length + 1) = v ++ [0]) : v.length < k := by
  by_contra long
  have short : m.read a k = v.take k := by
    have split := Mem.read_add m a k (v.length + 1 - k)
    rw [show k + (v.length + 1 - k) = v.length + 1 by omega, same] at split
    have front := congrArg (List.take k) split
    rw [List.take_append_of_le_length (by omega), List.take_left' (Mem.length_read m a k)] at front
    exact front.symm
  rw [short] at closed
  exact nul (List.mem_of_mem_take closed)

theorem closed_iff_length (nul : 0 ∉ v) : 0 ∈ (m.write a (v ++ [0])).read a k ↔ v.length < k := by
  constructor
  · intro closed
    have whole := Mem.read_write m a (v ++ [0])
    rw [List.length_append, List.length_singleton] at whole
    exact length_of_closed nul closed whole
  · intro short
    rw [show k = (v ++ [0]).length + (k - (v.length + 1)) by simp; omega, Mem.read_add, Mem.read_write]
    simp

theorem write_of_outside {bs : List UInt8} (h : x < a ∨ a + bs.length ≤ x) : m.write a bs x = m x := by
  rcases h with h | h
  · exact Mem.write_of_lt _ _ _ _ h
  · exact Mem.write_of_ge _ _ _ _ h

/-- A string in its array. -/
theorem Valid.set_str (valid : Valid L m) (f : StrField) (nul : 0 ∉ v) (short : v.length < f.size) :
    Valid L (m.write (f.addr L) (v ++ [0])) := by
  have len : (v ++ [0]).length = v.length + 1 := by simp
  constructor
  · intro g
    have apart := IntField.apart_str (L := L) g f
    have small := g.size_le
    rw [IntField.value, Mem.read_congr fun x lo hi => write_of_outside (m := m) (x := x) (by omega)]
    exact valid.int g
  · intro g
    by_cases same : g = f
    · subst same
      exact (closed_iff_length nul).2 short
    · have apart := StrField.apart (L := L) same
      rw [Mem.read_congr fun x lo hi => write_of_outside (m := m) (x := x) (by omega)]
      exact valid.str g

theorem untouched_str (f : StrField) (short : v.length < f.size) :
    Untouched L m (m.write (f.addr L) (v ++ [0])) := by
  have len : (v ++ [0]).length = v.length + 1 := by simp
  intro x _ free
  by_cases outside : x < f.addr L ∨ f.addr L + (v ++ [0]).length ≤ x
  · exact write_of_outside outside
  · exact absurd (.str f (by omega) (by omega)) free

end strings

end

section run

variable {L : Layout} {g : List UInt8 → Nat} {m : Mem} {s : Cgi} {p v : CStr}

/-- With other bits behind the port, nothing has been stored there. -/
def PortKept (L : Layout) (m mem : Mem) : Prop :=
  ¬ PadZero L m → readUint mem (IntField.addr L .portnumRTSP) = readUint m (IntField.addr L .portnumRTSP)

theorem PortKept.of_write {mem : Mem} {bs : List UInt8} (kept : PortKept L m mem)
    (apart : a + bs.length ≤ IntField.addr L .portnumRTSP ∨ IntField.addr L .portnumRTSP + 4 ≤ a) :
    PortKept L m (mem.write a bs) := by
  intro pad
  rw [← kept pad, readUint, Mem.read_congr fun x lo hi => write_of_outside (m := mem) (x := x) (by omega)]
  rfl

theorem Promise.store {mem mem' : Mem} {kicks : List Nat} (h : Promise L m mem kicks)
    (valid : Valid L mem') (untouched : Untouched L mem mem') : Promise L m mem' kicks :=
  ⟨valid, h.untouched.trans untouched, h.kicks⟩

/-- A setter that is not the port's. -/
theorem param_int (h : Promise L m s.mem s.kicks) (kept : PortKept L m s.mem) {f : IntField}
    (ne : f ≠ .portnumRTSP) (hp : paramOf p = .int f) :
    Promise L m (s.param L g p v).mem (s.param L g p v).kicks ∧
      PortKept L m (s.param L g p v).mem := by
  simp only [Cgi.param, hp, cgiEntryIntegerMaxMin]
  cases hc : clampEntry (readUint s.mem (f.addr L)) (uintOf v) f.nMax f.nMin with
  | none => exact ⟨h, kept⟩
  | some n =>
    have range := clampEntry_range (Nat.zero_le _) hc
    refine ⟨h.store (h.valid.set_int f range) (untouched_int ne n), kept.of_write ?_⟩
    simpa using IntField.apart (L := L) ne

theorem param_port (h : Promise L m s.mem s.kicks) (kept : PortKept L m s.mem)
    (hp : paramOf p = .int .portnumRTSP) :
    (Promise L m (s.param L g p v).mem (s.param L g p v).kicks ↔ Fits L m p v) ∧
      (Fits L m p v → PortKept L m (s.param L g p v).mem) := by
  have pads : PadZero L s.mem ↔ PadZero L m := by
    obtain ⟨in₂, free₂⟩ := not_settable_pad (L := L) (.inl rfl)
    obtain ⟨in₃, free₃⟩ := not_settable_pad (L := L) (.inr rfl)
    rw [PadZero, PadZero, h.untouched _ in₂ free₂, h.untouched _ in₃ free₃]
  simp only [Cgi.param, hp, cgiEntryIntegerMaxMin, Fits]
  cases hc : clampEntry (readUint s.mem (IntField.addr L .portnumRTSP)) (uintOf v)
      (IntField.nMax .portnumRTSP) (IntField.nMin .portnumRTSP) with
  | none =>
    have same := clampEntry_none hc
    refine ⟨iff_of_true h ?_, fun _ => kept⟩
    by_cases pad : PadZero L m
    · exact .inl pad
    · exact .inr (same.symm.trans (kept pad))
  | some n =>
    have range := clampEntry_range (Nat.zero_le _) hc
    have new : readUint s.mem (IntField.addr L .portnumRTSP) ≠ uintOf v := by
      intro same
      rw [clampEntry, if_neg (not_not.2 same)] at hc
      cases hc
    have fits : PadZero L m ∨ uintOf v = readUint m (IntField.addr L .portnumRTSP) ↔ PadZero L m := by
      refine or_iff_left_of_imp fun same => ?_
      by_contra pad
      exact new ((kept pad).trans same.symm)
    rw [fits]
    refine ⟨⟨fun done => ?_, fun pad => ?_⟩, fun pad other => absurd pad other⟩
    · refine pads.1 ((untouched_port range.2).1 fun x inside free => ?_)
      exact (done.untouched x inside free).trans (h.untouched x inside free).symm
    · exact h.store (h.valid.set_int _ range) ((untouched_port range.2).2 (pads.2 pad))

theorem param_str (h : Promise L m s.mem s.kicks) (kept : PortKept L m s.mem) {f : StrField}
    (hp : paramOf p = .str f) :
    (Promise L m (s.param L g p v).mem (s.param L g p v).kicks ↔ Fits L m p v) ∧
      (Fits L m p v → PortKept L m (s.param L g p v).mem) := by
  simp only [Cgi.param, hp, cgiEntryString, Fits]
  split
  · refine ⟨⟨fun done => (closed_iff_length v.2).1 (done.valid.str f), fun short => ?_⟩, fun short => ?_⟩
    · exact h.store (h.valid.set_str f v.2 short) (untouched_str f short)
    · have apart := IntField.apart_str (L := L) .portnumRTSP f
      have len : (v.1 ++ [0]).length = v.1.length + 1 := by simp
      exact kept.of_write (by omega)
  · rename_i same
    exact ⟨iff_of_true h (length_of_closed v.2 (h.valid.str f) (not_not.1 same)), fun _ => kept⟩

/-- One parameter. -/
theorem param_promise (h : Promise L m s.mem s.kicks) (kept : PortKept L m s.mem) :
    (Promise L m (s.param L g p v).mem (s.param L g p v).kicks ↔ Fits L m p v) ∧
      (Fits L m p v → PortKept L m (s.param L g p v).mem) := by
  cases hp : paramOf p with
  | btOK =>
    simp only [Cgi.param, Fits, hp]
    exact ⟨iff_of_true h trivial, fun _ => kept⟩
  | ip f =>
    simp only [Cgi.param, Fits, hp, cgiEntryIpchang]
    split
    · exact ⟨iff_of_true h trivial, fun _ => kept⟩
    · split
      · refine ⟨iff_of_true (h.store (h.valid.set_ip f _) (untouched_ip f _)) trivial, fun _ => ?_⟩
        exact kept.of_write (by simpa using (IpField.apart (L := L) f).1 .portnumRTSP)
      · exact ⟨iff_of_true h trivial, fun _ => kept⟩
  | int f =>
    by_cases port : f = .portnumRTSP
    · subst port
      exact param_port h kept hp
    · obtain ⟨done, kept⟩ := param_int (v := v) (g := g) h kept port hp
      refine ⟨iff_of_true done ?_, fun _ => kept⟩
      cases f with
      | portnumRTSP => exact absurd rfl port
      | _ => simp only [Fits, hp]
  | mac i =>
    simp only [Cgi.param, Fits, hp, cgiEntryHexinteger8MaxMin]
    cases clampEntry (s.mem (macAddr L + i)).toNat (strtolHex v % 256).toNat 0xFF 0 with
    | none => exact ⟨iff_of_true h trivial, fun _ => kept⟩
    | some n =>
      refine ⟨iff_of_true (h.store (h.valid.set_mac i _) (untouched_mac i _)) trivial, fun _ => ?_⟩
      have apart := (mac_apart (L := L) i).1 .portnumRTSP
      exact kept.of_write (by simp only [List.length_singleton]; omega)
  | str f => exact param_str h kept hp
  | date f =>
    simp only [Cgi.param, Fits, hp]
    cases clampEntry (s.date f) (uintOf v) f.upper f.lower with
    | none => exact ⟨iff_of_true h trivial, fun _ => kept⟩
    | some n => exact ⟨iff_of_true h trivial, fun _ => kept⟩
  | other =>
    simp only [Cgi.param, Fits, hp]
    refine ⟨⟨fun done k hk => ?_, fun slots => ⟨h.valid, h.untouched, fun k hk => ?_⟩⟩, fun _ => kept⟩
    · exact done.kicks k (List.mem_append_right _ (Option.mem_toList.2 hk))
    · rcases List.mem_append.1 hk with hk | hk
      · exact h.kicks k hk
      · exact slots k (Option.mem_toList.1 hk)

/-- A list of parameters, from a state that keeps the promise. -/
theorem params_promise (h : Promise L m s.mem s.kicks) (kept : PortKept L m s.mem)
    (ps : List (CStr × CStr)) :
    (∀ qs, qs <+: ps → Promise L m (s.params L g qs).mem (s.params L g qs).kicks) ↔
      ∀ q ∈ ps, Fits L m q.1 q.2 := by
  induction ps generalizing s with
  | nil =>
    refine iff_of_true (fun qs hq => ?_) nofun
    rw [List.prefix_nil.1 hq]
    exact h
  | cons q ps ih =>
    obtain ⟨one, next⟩ := param_promise (g := g) (p := q.1) (v := q.2) h kept
    rw [List.forall_mem_cons]
    constructor
    · intro all
      have fits := one.1 (all [q] (List.cons_prefix_cons.2 ⟨rfl, List.nil_prefix⟩))
      refine ⟨fits, (ih (one.2 fits) (next fits)).1 fun qs hq => ?_⟩
      exact all (q :: qs) (List.cons_prefix_cons.2 ⟨rfl, hq⟩)
    · rintro ⟨fits, rest⟩ qs hq
      cases qs with
      | nil => exact h
      | cons r qs =>
        obtain ⟨rfl, tail⟩ := List.cons_prefix_cons.1 hq
        exact (ih (one.2 fits) (next fits)).2 rest qs tail

end run

/-- `set_devicetime` goes on with no date that is out of the ranges of the parameters. -/
theorem setDevicetime_range (h : setDevicetime d = some d') (f : DateField) :
    f.lower ≤ d' f ∧ d' f ≤ f.upper := by
  unfold setDevicetime at h
  split_ifs at h
  obtain rfl := Option.some.inj h
  cases f <;> simp only [DateField.lower, DateField.upper] <;> omega

/-- Every call with the parameters, or the first of them, keeps its promise exactly if the settings
were in order and each parameter fits; the date that is set is in range in any case. -/
theorem cgi_valid_iff (L : Layout) (ipaddrAddr : List UInt8 → Nat) (m : Mem) (ps : List (CStr × CStr)) :
    (∀ qs, qs <+: ps →
      Promise L m (appEN675CGIHandler L ipaddrAddr m qs).mem (appEN675CGIHandler L ipaddrAddr m qs).kicks ∧
      ∀ d, (appEN675CGIHandler L ipaddrAddr m qs).deviceTime = some d →
        ∀ f : DateField, f.lower ≤ d f ∧ d f ≤ f.upper) ↔
      Valid L m ∧ ∀ q ∈ ps, Fits L m q.1 q.2 := by
  have date : ∀ qs d, (appEN675CGIHandler L ipaddrAddr m qs).deviceTime = some d →
      ∀ f : DateField, f.lower ≤ d f ∧ d f ≤ f.upper := by
    intro qs d h
    simp only [appEN675CGIHandler, Cgi.finish, Option.ite_none_right_eq_some] at h
    exact setDevicetime_range h.2
  have start (valid : Valid L m) : Promise L m (Cgi.start m).mem (Cgi.start m).kicks :=
    ⟨valid, fun _ _ _ => rfl, fun _ h => by cases h⟩
  constructor
  · intro all
    have valid : Valid L m := (all [] List.nil_prefix).1.valid
    exact ⟨valid, (params_promise (start valid) (fun _ => rfl) ps).1 fun qs hq => (all qs hq).1⟩
  · rintro ⟨valid, fits⟩ qs hq
    exact ⟨(params_promise (start valid) (fun _ => rfl) ps).2 fits qs hq, date qs⟩

def demoLayout : Layout := ⟨0, 1000, 2000, by decide, by decide, by decide⟩

/-- All settings zero, and a byte behind the port that is not. -/
def demoMem : Mem := Function.update 0 1658 7

def longId : List (CStr × CStr) := [(⟨ascii "n_u_id", by decide⟩, ⟨ascii "0123456789abcdef", by decide⟩)]

def portParam : List (CStr × CStr) := [(⟨ascii "n_r_port", by decide⟩, ⟨ascii "80", by decide⟩)]

def kickParam : List (CStr × CStr) := [(⟨ascii "s_i_kik20", by decide⟩, ⟨[], by decide⟩)]

theorem cgi_breaks : Valid demoLayout demoMem ∧
    ¬ Valid demoLayout (appEN675CGIHandler demoLayout (fun _ => 0) demoMem longId).mem ∧
    ¬ Untouched demoLayout demoMem (appEN675CGIHandler demoLayout (fun _ => 0) demoMem portParam).mem ∧
    (appEN675CGIHandler demoLayout (fun _ => 0) demoMem kickParam).kicks = [20] := by
  refine ⟨⟨fun f => ?_, fun f => ?_⟩, fun valid => ?_, fun same => ?_, by decide⟩
  · cases f <;> decide
  · cases f <;> decide
  · exact absurd (valid.str .strDeviceId) (by decide)
  · obtain ⟨inside, free⟩ := not_settable_pad (L := demoLayout) (.inl rfl)
    exact absurd (same _ inside free) (by decide)

end En675.Http
