import En675.Lib.Paged

/-! The send side of the Ethernet port (`ethernetif.c`): each packet is copied into the next of 128
slots, and the MAC is given its address and length.  One call runs at a time (`wltx_lock`).  The
cache flushes, the debug prints and the padding word that the caller gets back at the end are left
out. -/

namespace En675.Net

open Lib

def nettxBufGap : Nat := 1536

def nettxBufCount : Nat := 128

/-- `MLAN_HEADER_SIZE`. -/
def ethPadSize : Nat := 184 + 2

/-- The payloads of a chain, and the total in its first segment. -/
structure PbufChain where
  segs : List (List UInt8)
  totLen : Nat
  whole : totLen = segs.flatten.length

namespace PbufChain

def ofSegs (segs : List (List UInt8)) : PbufChain := ⟨segs, _, rfl⟩

variable (p : PbufChain)

def octets : List UInt8 := p.segs.flatten

theorem length_octets : p.octets.length = p.totLen := p.whole.symm

/-- `pbuf_header(p, -n)`, which fails on a first segment that is shorter. -/
def removeHeader (n : Nat) : PbufChain :=
  match p with
  | ⟨[], _, _⟩ => p
  | ⟨q :: qs, totLen, whole⟩ =>
    if le : n ≤ q.length then
      ⟨q.drop n :: qs, totLen - n, by
        rw [whole, List.flatten_cons, List.flatten_cons, List.length_append, List.length_append,
          List.length_drop, Nat.sub_add_comm le]⟩
    else p

/-- The frame, without the padding word. -/
def frame : PbufChain := p.removeHeader ethPadSize

/-- A packet, of 1 to 1514 bytes. -/
def Packet : Prop := 1 ≤ p.frame.totLen ∧ p.frame.totLen ≤ 1514

instance : Decidable p.Packet := inferInstanceAs (Decidable (_ ∧ _))

end PbufChain

def numLoop (val max : Nat) : Nat := if max ≤ val + 1 then 0 else val + 1

structure EthTx where
  /-- The memory from `qEthernetTX.pkt_data` on. -/
  mem : Nat → UInt8
  index : Nat

/-- A copy by the DMA. -/
structure DmaCopy where
  dst : Nat
  src : List UInt8

def bDmaMemCpy (mem : Nat → UInt8) (c : DmaCopy) : Nat → UInt8 := Paged.splice c.dst c.src mem

/-- The copies of the loop over the chain, and the length it arrives at. -/
def chainCopies (pBase : Nat) : Nat → List (List UInt8) → List DmaCopy × Nat
  | nTotLen, [] => ([], nTotLen)
  | nTotLen, q :: qs =>
    let rest := chainCopies pBase (nTotLen + q.length) qs
    (⟨pBase + nTotLen, q⟩ :: rest.1, rest.2)

/-- What a call does to the world: the copies it makes, and what it hands to `EthTxPacket`, with the
bytes that are there. -/
structure TxCall where
  copies : List DmaCopy
  addr : Nat
  len : Nat
  bytes : List UInt8

namespace EthTx

variable (s : EthTx)

/-- Before the first packet. -/
def boot (mem : Nat → UInt8) : EthTx := ⟨mem, 0⟩

@[simp] theorem boot_index (mem : Nat → UInt8) : (boot mem).index = 0 := rfl

theorem boot_lt (mem : Nat → UInt8) : (boot mem).index < nettxBufCount := by
  rw [boot_index]
  decide

def pBase : Nat := s.index * nettxBufGap

/-- The bytes from `addr` on. -/
def read (addr len : Nat) : List UInt8 := (List.range len).map fun i => s.mem (addr + i)

/-- The length handed to the MAC. -/
def txLen (nTotLen totLen : Nat) : Nat :=
  let nTotLen := if nTotLen ≠ totLen then totLen else nTotLen
  if totLen < 60 then 60 else nTotLen

def lowLevelEthifOutput (p : PbufChain) : EthTx × TxCall :=
  let p := p.frame
  let loop := chainCopies s.pBase 0 p.segs
  let copied : EthTx := { s with mem := loop.1.foldl bDmaMemCpy s.mem }
  let nTotLen := txLen loop.2 p.totLen
  ({ copied with index := numLoop s.index nettxBufCount },
    ⟨loop.1, s.pBase, nTotLen, copied.read s.pBase nTotLen⟩)

def send (p : PbufChain) : EthTx := (s.lowLevelEthifOutput p).1

def handed (p : PbufChain) : TxCall := (s.lowLevelEthifOutput p).2

/-- After a history of packets. -/
def after (h : List PbufChain) : EthTx := h.foldl send s

end EthTx

section loop

variable (pBase n : Nat) (qs : List (List UInt8))

theorem chainCopies_snd : (chainCopies pBase n qs).2 = n + qs.flatten.length := by
  induction qs generalizing n with
  | nil => rfl
  | cons q qs ih =>
    rw [chainCopies, List.flatten_cons, List.length_append, ← Nat.add_assoc]
    exact ih _

/-- The segments end up behind one another. -/
theorem foldl_chainCopies (mem : Nat → UInt8) :
    (chainCopies pBase n qs).1.foldl bDmaMemCpy mem = Paged.splice (pBase + n) qs.flatten mem := by
  induction qs generalizing n mem with
  | nil => exact (Paged.splice_nil _ _).symm
  | cons q qs ih =>
    rw [chainCopies, List.foldl_cons, ih, List.flatten_cons, ← Paged.splice_append, Nat.add_assoc]
    rfl

/-- Each copy lies where its segment belongs. -/
theorem chainCopies_within {c : DmaCopy} (hc : c ∈ (chainCopies pBase n qs).1) :
    pBase + n ≤ c.dst ∧ c.dst + c.src.length ≤ pBase + (n + qs.flatten.length) := by
  induction qs generalizing n with
  | nil => exact absurd hc List.not_mem_nil
  | cons q qs ih =>
    rw [List.flatten_cons, List.length_append]
    rcases List.mem_cons.1 hc with rfl | hc
    · constructor
      · exact Nat.le_refl _
      · simp only
        omega
    · have := ih _ hc
      omega

end loop

namespace EthTx

variable (s : EthTx) (p : PbufChain)

@[simp] theorem send_index : (s.send p).index = numLoop s.index nettxBufCount := rfl

theorem send_mem : (s.send p).mem = Paged.splice s.pBase p.frame.octets s.mem := by
  have loop := foldl_chainCopies s.pBase 0 p.frame.segs s.mem
  rw [Nat.add_zero] at loop
  exact loop

@[simp] theorem after_nil : s.after [] = s := rfl

@[simp] theorem after_cons (h : List PbufChain) : s.after (p :: h) = (s.send p).after h := rfl

theorem handed_len : (s.handed p).len = max 60 p.frame.totLen := by
  have loop := chainCopies_snd s.pBase 0 p.frame.segs
  rw [Nat.zero_add, ← p.frame.whole] at loop
  change txLen (chainCopies s.pBase 0 p.frame.segs).2 _ = _
  rw [loop, txLen]
  simp only [ne_eq, not_true_eq_false, if_false]
  split <;> omega

/-- The bytes of the chain, and behind them whatever the slot held. -/
theorem handed_bytes : (s.handed p).bytes =
    p.frame.octets ++
      s.read (s.pBase + p.frame.totLen) ((s.handed p).len - p.frame.totLen) := by
  have le : p.frame.totLen ≤ (s.handed p).len := by
    rw [handed_len]
    omega
  change (s.send p).read s.pBase (s.handed p).len = _
  apply List.ext_getElem
  · simp [read, p.frame.length_octets, le]
  · intro i hi _
    simp only [read, List.getElem_map, List.getElem_range, send_mem, Paged.splice,
      Nat.le_add_right, if_true, Nat.add_sub_cancel_left]
    rcases Nat.lt_or_ge i p.frame.octets.length with lt | ge
    · rw [List.getElem_append_left lt, List.getElem?_eq_getElem lt]
      rfl
    · rw [List.getElem_append_right ge, List.getElem?_eq_none ge, Option.getD_none]
      simp only [List.getElem_map, List.getElem_range]
      rw [p.frame.length_octets] at ge ⊢
      exact congrArg s.mem (by omega)

theorem handed_copies {c : DmaCopy} (hc : c ∈ (s.handed p).copies) :
    s.pBase ≤ c.dst ∧ c.dst + c.src.length ≤ s.pBase + p.frame.totLen := by
  have := chainCopies_within s.pBase 0 p.frame.segs hc
  rw [p.frame.whole]
  omega

/-- Another slot keeps its bytes. -/
theorem send_mem_other (hp : p.frame.totLen ≤ nettxBufGap) {i j : Nat} (hi : i ≠ s.index)
    (hj : j < nettxBufGap) : (s.send p).mem (i * nettxBufGap + j) = s.mem (i * nettxBufGap + j) := by
  rw [send_mem, Paged.splice]
  split
  · rename_i le
    have past : p.frame.octets.length ≤ i * nettxBufGap + j - s.pBase := by
      rw [p.frame.length_octets]
      rcases Nat.lt_or_gt_of_ne hi with lt | gt
      · have := Nat.mul_le_mul_right nettxBufGap (Nat.succ_le_of_lt lt)
        rw [Nat.succ_mul] at this
        rw [pBase] at le
        omega
      · have := Nat.mul_le_mul_right nettxBufGap (Nat.succ_le_of_lt gt)
        rw [Nat.succ_mul] at this
        rw [pBase]
        omega
    rw [List.getElem?_eq_none past, Option.getD_none]
  · rfl

section run

variable {s} {h : List PbufChain}

theorem numLoop_lt (i : Nat) : numLoop i nettxBufCount < nettxBufCount := by
  rw [numLoop, nettxBufCount]
  split <;> omega

theorem after_index_lt (hs : s.index < nettxBufCount) : (s.after h).index < nettxBufCount := by
  induction h generalizing s with
  | nil => exact hs
  | cons q h ih => exact ih (numLoop_lt _)

/-- The index counts the packets. -/
theorem after_index (hs : s.index < nettxBufCount) :
    (s.after h).index = (s.index + h.length) % nettxBufCount := by
  induction h generalizing s with
  | nil => exact (Nat.mod_eq_of_lt hs).symm
  | cons q h ih =>
    have next : (s.send q).index = (s.index + 1) % nettxBufCount := by
      rw [send_index, numLoop]
      split
      · have last : s.index + 1 = nettxBufCount := Nat.le_antisymm hs ‹_›
        rw [last, Nat.mod_self]
      · rw [Nat.mod_eq_of_lt (Nat.lt_of_not_le ‹_›)]
    rw [after_cons, ih (numLoop_lt _), next, Nat.mod_add_mod, List.length_cons, Nat.add_assoc,
      Nat.add_comm 1]

/-- The packets behind a slot leave it alone until the index comes round. -/
theorem after_mem (hh : ∀ q ∈ h, q.Packet) (hs : s.index + h.length ≤ nettxBufCount) {i j : Nat}
    (hi : i < s.index) (hj : j < nettxBufGap) :
    (s.after h).mem (i * nettxBufGap + j) = s.mem (i * nettxBufGap + j) := by
  induction h generalizing s with
  | nil => rfl
  | cons q h ih =>
    rw [List.length_cons] at hs
    have fits : q.frame.totLen ≤ nettxBufGap :=
      (hh q List.mem_cons_self).2.trans (by decide)
    have kept := send_mem_other s q fits (Nat.ne_of_lt hi) hj
    rw [after_cons, ← kept]
    cases h with
    | nil => rfl
    | cons r h =>
      rw [List.length_cons] at hs
      have next : (s.send q).index = s.index + 1 := by
        rw [send_index, numLoop, if_neg (by omega)]
      apply ih (fun r hr => hh r (List.mem_cons_of_mem _ hr))
      · rw [List.length_cons]
        omega
      · omega

end run

section privacy

/-- What is asked of a packet sent in `s`. -/
structure Delivers (s : EthTx) (p : PbufChain) : Prop where
  slot : s.index < nettxBufCount
  addr : (s.handed p).addr = s.index * nettxBufGap
  chain : p.frame.octets <+: (s.handed p).bytes
  within : ∀ c ∈ (s.handed p).copies,
    s.index * nettxBufGap ≤ c.dst ∧ c.dst + c.src.length ≤ (s.index + 1) * nettxBufGap

/-- The packet is delivered in both runs, and the MAC gets the same bytes. -/
structure Private (s t : EthTx) (p : PbufChain) : Prop where
  left : Delivers s p
  right : Delivers t p
  same : (s.handed p).bytes = (t.handed p).bytes

variable {s : EthTx} {p : PbufChain}

theorem delivers (hs : s.index < nettxBufCount) (hp : p.Packet) : Delivers s p where
  slot := hs
  addr := rfl
  chain := by
    rw [handed_bytes]
    exact List.prefix_append _ _
  within := by
    intro c hc
    have fits : p.frame.totLen ≤ nettxBufGap := hp.2.trans (by decide)
    have := s.handed_copies p hc
    rw [Nat.succ_mul]
    rw [pBase] at this
    omega

theorem handed_bytes_long (hp : 60 ≤ p.frame.totLen) : (s.handed p).bytes = p.frame.octets := by
  rw [handed_bytes, handed_len, Nat.max_eq_right hp, Nat.sub_self]
  exact List.append_nil _

/-- The frame `bs` behind its padding word. -/
def framed (bs : List UInt8) : PbufChain := .ofSegs [.replicate ethPadSize 0, bs]

@[simp] theorem framed_octets (bs : List UInt8) : (framed bs).frame.octets = bs := by
  simp [PbufChain.frame, PbufChain.removeHeader, PbufChain.octets, framed, PbufChain.ofSegs]

@[simp] theorem framed_totLen (bs : List UInt8) : (framed bs).frame.totLen = bs.length := by
  rw [← PbufChain.length_octets, framed_octets]

def filled (b : UInt8) : PbufChain := framed (.replicate 60 b)

theorem filled_packet (b : UInt8) : (filled b).Packet := by
  rw [PbufChain.Packet, filled, framed_totLen, List.length_replicate]
  decide

/-- As many packets as there are slots. -/
def flood (b : UInt8) : List PbufChain := .replicate nettxBufCount (filled b)

theorem flood_packet (b : UInt8) : ∀ q ∈ flood b, q.Packet := fun _ hq =>
  List.eq_of_mem_replicate hq ▸ filled_packet b

/-- It comes back to the first slot, and finds its own first packet there. -/
theorem after_flood (mem : Nat → UInt8) (b : UInt8) :
    ((boot mem).after (flood b)).index = 0 ∧
      ∀ j < 60, ((boot mem).after (flood b)).mem j = b := by
  constructor
  · rw [after_index (boot_lt mem), flood, List.length_replicate, boot_index, Nat.zero_add,
      Nat.mod_self]
  · intro j hj
    have first : (boot mem).after (flood b) =
        ((boot mem).send (filled b)).after (.replicate (nettxBufCount - 1) (filled b)) := by
      rw [← after_cons, ← List.replicate_succ]
      rfl
    have one : ((boot mem).send (filled b)).index = 1 := rfl
    have kept := after_mem (s := (boot mem).send (filled b)) (i := 0) (j := j)
      (h := .replicate (nettxBufCount - 1) (filled b))
      (fun _ hq => List.eq_of_mem_replicate hq ▸ filled_packet b)
      (by rw [one, List.length_replicate]; decide) (by rw [one]; decide)
      (Nat.lt_trans hj (by decide))
    rw [Nat.zero_mul, Nat.zero_add, ← first, send_mem, filled, framed_octets] at kept
    rw [kept, Paged.splice, pBase, boot_index, Nat.zero_mul, Nat.sub_zero, if_pos (Nat.zero_le _),
      List.getElem?_replicate, if_pos hj, Option.getD_some]

/-- What a short packet gets for its padding then. -/
theorem handed_bytes_flood (mem : Nat → UInt8) (b : UInt8) (hp : p.frame.totLen ≤ 60) :
    (((boot mem).after (flood b)).handed p).bytes =
      p.frame.octets ++ .replicate (60 - p.frame.totLen) b := by
  obtain ⟨first, stale⟩ := after_flood mem b
  rw [handed_bytes, handed_len, Nat.max_eq_left hp, pBase, first, Nat.zero_mul, Nat.zero_add]
  rw [List.append_cancel_left_eq]
  apply List.ext_getElem
  · simp [read]
  · intro i hi _
    simp only [read, List.length_map, List.length_range] at hi
    simp only [read, List.getElem_map, List.getElem_range, List.getElem_replicate]
    exact stale _ (by omega)

end privacy

/-- No packet shows another one exactly if it needs no padding. -/
theorem private_iff (mem : Nat → UInt8) (p : PbufChain) (hp : p.Packet) :
    (∀ h k : List PbufChain, (∀ q ∈ h, q.Packet) → (∀ q ∈ k, q.Packet) →
        Private ((boot mem).after h) ((boot mem).after k) p) ↔
      60 ≤ p.frame.totLen := by
  constructor
  · intro all
    by_contra short
    have same := (all (flood 0) (flood 1) (flood_packet 0) (flood_packet 1)).same
    rw [handed_bytes_flood mem 0 (by omega), handed_bytes_flood mem 1 (by omega),
      List.append_cancel_left_eq, List.replicate_inj] at same
    rcases same.2 with none_ | eq
    · omega
    · exact absurd eq (by decide)
  · intro long h k _ _
    exact
      { left := delivers (after_index_lt (boot_lt mem)) hp
        right := delivers (after_index_lt (boot_lt mem)) hp
        same := by rw [handed_bytes_long long, handed_bytes_long long] }

theorem private_sixty : (filled 3).Packet ∧
    ∀ h k : List PbufChain, (∀ q ∈ h, q.Packet) → (∀ q ∈ k, q.Packet) →
      Private ((boot fun _ => 0).after h) ((boot fun _ => 0).after k) (filled 3) :=
  ⟨filled_packet 3, (private_iff _ _ (filled_packet 3)).2 (framed_totLen (.replicate 60 3)).ge⟩

/-- An acknowledgement of 54 bytes. -/
def ack : PbufChain := framed (.replicate 54 7)

/-- Its padding is what was sent 128 packets before. -/
theorem ack_leaks : ack.Packet ∧ (∀ q ∈ flood 0, q.Packet) ∧ (∀ q ∈ flood 1, q.Packet) ∧
    (((boot fun _ => 0).after (flood 0)).handed ack).bytes =
      List.replicate 54 7 ++ List.replicate 6 0 ∧
    (((boot fun _ => 0).after (flood 1)).handed ack).bytes =
      List.replicate 54 7 ++ List.replicate 6 1 ∧
    ¬Private ((boot fun _ => 0).after (flood 0)) ((boot fun _ => 0).after (flood 1)) ack := by
  have size : ack.frame.totLen = 54 := framed_totLen _
  have bytes (b : UInt8) : (((boot fun _ => 0).after (flood b)).handed ack).bytes =
      List.replicate 54 7 ++ List.replicate 6 b := by
    rw [handed_bytes_flood _ _ (by omega), size, ack, framed_octets]
  have packet : ack.Packet := by
    rw [PbufChain.Packet, size]
    decide
  refine ⟨packet, flood_packet 0, flood_packet 1, bytes 0, bytes 1, fun private_ => ?_⟩
  have same := private_.same
  rw [bytes 0, bytes 1] at same
  exact absurd same (by decide)

end EthTx

end En675.Net
