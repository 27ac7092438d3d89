import En675.Lib.Fragment
import En675.Rtsp.RtpNal

/-! The other end of the wire: what a receiver reads in a packet, how RFC 6184 and
RFC 7798 take payloads apart, and what it is for packets to carry an access unit. -/

namespace En675.Rtsp

open Lib

structure RtpView where
  marker : Bool
  payloadType : Nat
  seq : Nat
  ts : Nat
  ssrc : Nat
  payload : List UInt8
  deriving DecidableEq

/-- A datagram as an RTP packet without padding, extension or CSRC. -/
def readRtp (bs : List UInt8) : Option RtpView :=
  match bs with
  | v :: m :: rest =>
    if v = 0x80 ∧ 10 ≤ rest.length then
      some { marker := decide (128 ≤ m.toNat)
             payloadType := m.toNat % 128
             seq := readBE (slice rest 0 2)
             ts := readBE (slice rest 2 4)
             ssrc := readBE (slice rest 6 4)
             payload := rest.drop 10 }
    else none
  | _ => none

/-- A whole interleaved packet: `$`, channel, length and as many octets as it says. -/
def readInterleaved (channel : Nat) (bs : List UInt8) : Option (List UInt8) :=
  match bs with
  | d :: ch :: hi :: lo :: rest =>
    if d = 0x24 ∧ ch = UInt8.ofNat channel ∧ readBE [hi, lo] = rest.length then some rest else none
  | _ => none

def viewPacket (tr : RtspTransport) (channel : Nat) (bs : List UInt8) : Option RtpView :=
  if tr = .udp then readRtp bs else (readInterleaved channel bs).bind readRtp

abbrev NalItem := Item (List UInt8) UInt8

/-- RFC 6184: single NAL unit packets and FU-A. -/
def avcItem (payload : List UInt8) : Option NalItem :=
  match payload with
  | [] => none
  | ind :: rest =>
    if ind &&& 0x1F = 28 then
      match rest with
      | [] => none
      | fu :: d =>
        some (.frag ((fu &&& 0x80) != 0) ((fu &&& 0x40) != 0) [(ind &&& 0xE0) ||| (fu &&& 0x1F)] d)
    else if 1 ≤ (ind &&& 0x1F).toNat ∧ (ind &&& 0x1F).toNat ≤ 23 then some (.single payload)
    else none

/-- RFC 7798: single NAL unit packets and type-49 fragmentation units. -/
def hevcItem (payload : List UInt8) : Option NalItem :=
  match payload with
  | b0 :: b1 :: rest =>
    if (b0 >>> 1) &&& 0x3F = 49 then
      match rest with
      | [] => none
      | fu :: d =>
        some (.frag ((fu &&& 0x80) != 0) ((fu &&& 0x40) != 0)
          [(b0 &&& 0x81) ||| ((fu &&& (0x3F : UInt8)) <<< (1 : UInt8)), b1] d)
    else if ((b0 >>> 1) &&& (0x3F : UInt8)).toNat < 48 then some (.single payload)
    else none
  | _ => none

/-- Packets whose sequence numbers follow `seq` one by one, all stamped `ts`, the last
and no other with the marker, and the items their payloads are. -/
inductive Stream (view : List UInt8 → Option RtpView) (item : List UInt8 → Option NalItem)
    (ts : Nat) : Nat → List (List UInt8) → List NalItem → Prop
  | last : view p = some w → w.marker = true → w.seq = (seq + 1) % 2 ^ 16 → w.ts = ts →
      item w.payload = some x → Stream view item ts seq [p] [x]
  | cons : view p = some w → w.marker = false → w.seq = (seq + 1) % 2 ^ 16 → w.ts = ts →
      item w.payload = some x → Stream view item ts w.seq ps xs →
      Stream view item ts seq (p :: ps) (x :: xs)

/-- The packets of one access unit with NAL units `nals`, after sequence number `seq`. -/
structure Delivers (view : List UInt8 → Option RtpView) (item : List UInt8 → Option NalItem)
    (seq ts : Nat) (packets : List (List UInt8)) (nals : List (List UInt8)) : Prop where
  views : ∃ ws : List RtpView, packets.mapM view = some ws ∧
    ws.map (·.seq) = (List.range ws.length).map (fun i => (seq + 1 + i) % 2 ^ 16) ∧
    (∀ w ∈ ws, w.ts = ts) ∧
    ws.map (·.marker) = List.replicate (ws.length - 1) false ++ [true] ∧
    ∃ xs, ws.mapM (fun w => item w.payload) = some xs ∧
      Item.Carries (· ++ ·) xs nals ∧
      Item.reassemble (· ++ ·) none xs = some nals

variable {view : List UInt8 → Option RtpView} {item : List UInt8 → Option NalItem}

theorem Stream.views (s : Stream view item ts seq ps xs) :
    ∃ ws : List RtpView, ps.mapM view = some ws ∧ ws ≠ [] ∧
      ws.map (·.seq) = (List.range ws.length).map (fun i => (seq + 1 + i) % 2 ^ 16) ∧
      (∀ w ∈ ws, w.ts = ts) ∧
      ws.map (·.marker) = List.replicate (ws.length - 1) false ++ [true] ∧
      ws.mapM (fun w => item w.payload) = some xs := by
  induction s with
  | @last p w seq x hv hm hs ht hx =>
    refine ⟨[w], by simp [hv], by simp, by simp [hs], by simp [ht], by simp [hm], by simp [hx]⟩
  | @cons p w seq x ps xs hv hm hs ht hx _ ih =>
    obtain ⟨ws, hps, hne, hseq, hts, hmk, hit⟩ := ih
    refine ⟨w :: ws, by simp [hv, hps], by simp, ?_, ?_, ?_, by simp [hx, hit]⟩
    · rw [List.map_cons, hseq, List.length_cons, List.range_succ_eq_map, List.map_cons, List.map_map]
      congr 1
      apply List.map_congr_left
      intro i _
      simp only [Function.comp, hs]
      omega
    · intro w' hw'
      rcases List.mem_cons.1 hw' with rfl | h
      · exact ht
      · exact hts _ h
    · have hlen : 0 < ws.length := List.length_pos_of_ne_nil hne
      rw [List.map_cons, hmk, hm, List.length_cons, Nat.add_sub_cancel]
      rw [← List.cons_append, ← List.replicate_succ, Nat.sub_add_cancel hlen]

theorem Stream.delivers (s : Stream view item ts seq ps xs) (c : Item.Carries (· ++ ·) xs nals) :
    Delivers view item seq ts ps nals := by
  obtain ⟨ws, hps, _, hseq, hts, hmk, hit⟩ := s.views
  exact ⟨ws, hps, hseq, hts, hmk, xs, hit, c, c.reassemble⟩

theorem Delivers.ne_nil (h : Delivers view item seq ts ps nals) : ps ≠ [] := by
  rintro rfl
  obtain ⟨ws, hws, _, _, hm, _⟩ := h.views
  cases hws
  simp at hm

section headers

theorem readRtp_head (m : Bool) (pt seq ts ssrc : Nat) (payload : List UInt8)
    (hs : seq < 2 ^ 16) (ht : ts < 2 ^ 32) :
    readRtp (rthRTPHeader m pt seq ts ssrc ++ payload) =
      some ⟨m, pt % 128, seq, ts, ssrc % 2 ^ 32, payload⟩ := by
  have hmark : (UInt8.ofNat ((if m then 128 else 0) + pt % 128)).toNat =
      (if m then 128 else 0) + pt % 128 := by
    rw [UInt8.toNat_ofNat']
    cases m <;> simp <;> omega
  have hseq : slice (be 2 seq ++ be 4 ts ++ be 4 ssrc ++ payload) 0 2 = be 2 seq := by
    simp [slice]
  have hts : slice (be 2 seq ++ be 4 ts ++ be 4 ssrc ++ payload) 2 4 = be 4 ts := by
    rw [List.append_assoc _ (be 4 ssrc)]
    exact slice_append _ _ _ (by simp) (by simp)
  have hssrc : slice (be 2 seq ++ be 4 ts ++ be 4 ssrc ++ payload) 6 4 = be 4 ssrc :=
    slice_append _ _ _ (by simp) (by simp)
  simp only [rthRTPHeader, List.append_assoc, List.cons_append, List.nil_append, readRtp]
  rw [if_pos ⟨trivial, by simp; omega⟩]
  simp only [List.append_assoc] at hseq hts hssrc
  rw [hseq, hts, hssrc, hmark, readBE_be_of_lt hs, readBE_be_of_lt ht, readBE_be]
  congr 2
  · cases m
    · simp
      omega
    · simp
  · cases m <;> simp

theorem readInterleaved_head (channel : Nat) (body : List UInt8) (h : body.length < 2 ^ 16) :
    readInterleaved channel (rthInterleaved channel body.length ++ body) = some body := by
  have hbe : be 2 body.length = [UInt8.ofNat (body.length / 256), UInt8.ofNat body.length] := by
    simp [be]
  have hlen : readBE [UInt8.ofNat (body.length / 256), UInt8.ofNat body.length] = body.length := by
    rw [← hbe]
    exact readBE_be_of_lt h
  simp only [rthInterleaved, hbe, List.cons_append, List.nil_append, readInterleaved]
  simp [hlen]

/-- A receiver reads back the packet it was sent. -/
theorem view_rtpPacket (htr : tr = .udp ∨ tr = .tcp) (hts : v.startRtptime < 2 ^ 32)
    (hlen : payload.length < 2 ^ 15) :
    viewPacket tr channel (rtpPacket tr channel v last payload) =
      some ⟨last, v.payloadType % 128, (v.startSeq + 1) % 2 ^ 16, v.startRtptime,
        v.ssrc % 2 ^ 32, payload⟩ := by
  have hhead := readRtp_head last v.payloadType ((v.startSeq + 1) % 2 ^ 16) v.startRtptime
    v.ssrc payload (Nat.mod_lt _ (by decide)) hts
  simp only [rtpPacket, viewPacket]
  rcases htr with rfl | rfl
  · simpa using hhead
  · rw [if_neg (by decide), if_neg (by decide)]
    have hi := readInterleaved_head channel (rthRTPHeader last v.payloadType
      ((v.startSeq + 1) % 2 ^ 16) v.startRtptime v.ssrc ++ payload) (by simp; omega)
    rw [List.length_append, length_rthRTPHeader] at hi
    rw [List.append_assoc, hi]
    exact hhead

end headers

end En675.Rtsp
