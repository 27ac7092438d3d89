import En675.Rtsp.RtpNalSend

/-! H.265 over RTP: `rtspd_client_rtp_h265_main` against RFC 7798. -/

namespace En675.Rtsp

open Lib Lib.AnnexB

def hevcType (nal : List UInt8) : Nat := ((nal.headD 0 >>> (1 : UInt8)) &&& 0x3F).toNat

def hevcFormat : NalFormat where
  typeOf := hevcType
  hdrLen := 2
  hdrOk _ := True
  item := hevcItem

/-- The first header octet survives the mask, the byte swap and the or. -/
theorem hevc_fragment_bits : ∀ n < 256, ∀ start stop : Bool,
    let b := UInt8.ofNat n
    let hdr := UInt8.ofNat (n &&& 0x81) ||| 0x62
    let fu := UInt8.ofNat ((if start then 128 else 0) + (if stop then 64 else 0) +
      ((b >>> 1) &&& 0x3F).toNat % 64)
    (hdr >>> 1) &&& 0x3F = 49 ∧ (fu &&& 0x80 != 0) = start ∧ (fu &&& 0x40 != 0) = stop ∧
      (hdr &&& 0x81) ||| ((fu &&& (0x3F : UInt8)) <<< (1 : UInt8)) = b := by
  decide +kernel

theorem hevc_single_bits : ∀ n < 256,
    let t := ((UInt8.ofNat n >>> (1 : UInt8)) &&& 0x3F)
    (hevc.isSlice t.toNat || hevc.isParam t.toNat) = true → t ≠ 49 ∧ t.toNat < 48 := by
  decide +kernel

/-- `0x81FF` keeps the forbidden bit, the layer id and the temporal id. -/
theorem nalunithdr_mask (a b : Nat) (hb : b < 256) :
    (a * 256 + b) &&& 0x81FF = (a &&& 0x81) * 256 + b := by
  have h1 : a * 256 + b = a <<< 8 ||| b := by
    rw [← Nat.shiftLeft_add_eq_or_of_lt (by simpa using hb), Nat.shiftLeft_eq]
  have h2 : (a &&& 0x81) * 256 + b = (a &&& 0x81) <<< 8 ||| b := by
    rw [← Nat.shiftLeft_add_eq_or_of_lt (by simpa using hb), Nat.shiftLeft_eq]
  have h3 : (0x81FF : Nat) = 0x81 <<< 8 ||| 0xFF := by decide
  have h4 : b &&& 0xFF = b := by
    rw [show (0xFF : Nat) = 2 ^ 8 - 1 by rfl, Nat.and_two_pow_sub_one_eq_mod]
    exact Nat.mod_eq_of_lt hb
  rw [h1, h2, h3]
  apply Nat.eq_of_testBit_eq
  intro i
  have h5 := congrArg (fun x => x.testBit i) h4
  simp only [Nat.testBit_and] at h5
  simp only [Nat.testBit_and, Nat.testBit_or, Nat.testBit_shiftLeft]
  by_cases hi : i < 8
  · simp [show ¬ 8 ≤ i by omega, h5]
  · have hz : b.testBit i = false := Nat.testBit_lt_two_pow
      (lt_of_lt_of_le hb (Nat.pow_le_pow_right (n := 2) (by omega) (by omega : 8 ≤ i)))
    have hz' : (0xFF : Nat).testBit i = false := Nat.testBit_lt_two_pow
      (lt_of_lt_of_le (by decide : 0xFF < 2 ^ 8)
        (Nat.pow_le_pow_right (n := 2) (by omega) (by omega : 8 ≤ i)))
    simp [show 8 ≤ i by omega, hz, hz']

theorem exists_cons_cons {l : List UInt8} (h : 2 ≤ l.length) : ∃ a b t, l = a :: b :: t := by
  obtain ⟨a, l, rfl⟩ := List.exists_cons_of_length_pos (Nat.zero_lt_of_lt h)
  obtain ⟨b, t, rfl⟩ := List.exists_cons_of_length_pos (Nat.le_of_succ_le_succ h)
  exact ⟨a, b, t, rfl⟩

theorem hevc_lawful : Lawful hevc hevcFormat where
  hdrLen := rfl
  hdrLen_pos := by decide
  hdrLen_lt := by decide
  fuLen_le := by decide
  window := by decide
  readHdr p pk := ⟨_, pk.nalidc, _, rfl⟩
  naltype {p nal} pk h hp := by
    have hl : 0 < nal.length := lt_of_lt_of_le (by decide) h.long
    obtain ⟨b, rest, rfl⟩ := List.exists_cons_of_length_pos hl
    simp [hevc, hevcReadHdr, hevcFormat, hevcType, hp 0 hl]
  length_fuHeader _ _ _ := rfl
  fuHeader_move _ _ _ := rfl
  remembers {p nal} pk h hp start stop d := by
    have hl : 2 ≤ nal.length := h.long
    obtain ⟨b0, b1, rest, rfl⟩ := exists_cons_cons hl
    have hb := hevc_fragment_bits b0.toNat b0.toNat_lt start stop
    rw [UInt8.ofNat_toNat] at hb
    obtain ⟨h1, h2, h3, h4⟩ := hb
    have hp0 : p 0 = b0 := hp 0 (by simp)
    have hp1 : p 1 = b1 := hp 1 (by simp)
    have hhi : ((b0.toNat &&& 0x81) * 256 + b1.toNat) / 256 = b0.toNat &&& 0x81 := by
      have := b1.toNat_lt
      omega
    have hlo : UInt8.ofNat ((b0.toNat &&& 0x81) * 256 + b1.toNat) = b1 := by
      rw [← UInt8.toNat_inj, UInt8.toNat_ofNat']
      have := b1.toNat_lt
      omega
    simp only [hevcFormat, hevc, hevcReadHdr, hevcFUHeader, hp0, hp1,
      nalunithdr_mask _ _ b1.toNat_lt, hhi, hlo, hevcItem, List.cons_append, List.nil_append,
      h1, if_true, h2, h3, h4]
    rfl
  single {nal} h hty := by
    have hl : 2 ≤ nal.length := h.long
    obtain ⟨b0, b1, rest, rfl⟩ := exists_cons_cons hl
    have hb := hevc_single_bits b0.toNat b0.toNat_lt
    rw [UInt8.ofNat_toNat] at hb
    obtain ⟨h1, h2⟩ := hb (by simpa [hevcFormat, hevcType] using hty)
    simp only [hevcFormat, hevcItem]
    rw [if_neg h1, if_pos h2]
  apart t h := by
    simp only [hevc, Bool.or_eq_true, beq_iff_eq] at h ⊢
    rcases h with (rfl | rfl) | rfl <;> rfl

/-- One slice of type 1, 0x13 or 0x15, or VPS, SPS, PPS and such an I slice, each behind a
start code; the start codes after the parameter sets lie in the 64-octet window. -/
inductive H265AccessUnit : List (List UInt8 × List UInt8) → Prop
  | slice : IsStartCode sc → hevcFormat.IsNal nal →
      (hevcType nal = 0x01 ∨ hevcType nal = 0x13 ∨ hevcType nal = 0x15) →
      H265AccessUnit [(sc, nal)]
  | idr : IsStartCode sc₁ → hevcFormat.IsNal vps → hevcType vps = 0x20 →
      IsStartCode sc₂ → hevcFormat.IsNal sps → hevcType sps = 0x21 →
      IsStartCode sc₃ → hevcFormat.IsNal pps → hevcType pps = 0x22 →
      IsStartCode sc₄ → hevcFormat.IsNal nal → (hevcType nal = 0x13 ∨ hevcType nal = 0x15) →
      vps.length + sc₂.length ≤ 64 → sps.length + sc₃.length ≤ 64 →
      pps.length + sc₄.length ≤ 64 →
      H265AccessUnit [(sc₁, vps), (sc₂, sps), (sc₃, pps), (sc₄, nal)]

theorem H265AccessUnit.accessUnit (h : H265AccessUnit us) : AccessUnit hevc hevcFormat us := by
  cases h with
  | slice hsc hnal hty =>
    refine .slice hsc hnal ?_
    rcases hty with h | h | h <;> simp [hevcFormat, hevc, h]
  | idr h1 hvps t1 h2 hsps t2 h3 hpps t3 h4 hnal t4 w1 w2 w3 =>
    refine .param h1 hvps (by simp [hevcFormat, hevc, t1]) w1 ?_
    refine .param h2 hsps (by simp [hevcFormat, hevc, t2]) w2 ?_
    refine .param h3 hpps (by simp [hevcFormat, hevc, t3]) w3 ?_
    refine .slice h4 hnal ?_
    rcases t4 with h | h <;> simp [hevcFormat, hevc, h]

theorem h265_round_trip (mem : Mem) (rc : RtspClient) (s : RtpSs) (pd : RtpQueueData)
    (q : RtpQueue) (us : List (List UInt8 × List UInt8))
    (hq : Queued mem rc s pd q (octets us)) (hau : H265AccessUnit us) :
    ((s.video.rtpPk.nalfirst ≠ 0 ∨ pd.flags = 1) →
      ∃ n ps rc', txRun (rtspdClientRtpH265Main mem) n rc = some (ps, rc') ∧
        Delivers (viewPacket rc.eTransport (rc.connInfo.rtpPort 0)) hevcItem s.video.startSeq
          (uadd s.video.startRtptime pd.ts) ps (us.map Prod.snd)) ∧
    (¬ (s.video.rtpPk.nalfirst ≠ 0 ∨ pd.flags = 1) →
      txRun (rtspdClientRtpH265Main mem) 1 rc =
        some ([], rc.withVideo s q (nalTake s.video pd))) := by
  constructor
  · intro hg
    exact hq.delivers hevc_lawful hau.accessUnit (by simpa [nalAdmits] using hg)
  · intro hg
    refine hq.refused (n := 0) (c := hevc) ?_
    simpa [nalAdmits, imp_iff_not_or] using hg

def h265Key : List (List UInt8 × List UInt8) :=
  [([0, 0, 0, 1], [0x40, 0x01, 0x0C, 0x01]), ([0, 0, 0, 1], [0x42, 0x01, 0x01, 0x60]),
    ([0, 0, 0, 1], [0x44, 0x01, 0xE0]), ([0, 0, 0, 1], [0x26, 0x01, 0xAF, 0, 0, 3, 9])]

theorem h265_round_trip_key :
    ∃ n ps rc', txRun (rtspdClientRtpH265Main (.ofList (octets h265Key))) n
        (freshClient .tcp (octets h265Key) 1) = some (ps, rc') ∧
      Delivers (viewPacket .tcp 0) hevcItem 0 3000 ps (h265Key.map Prod.snd) :=
  (h265_round_trip _ _ _ _ _ h265Key (queued_freshClient .tcp (.inr rfl) _ 1 (by decide))
    (.idr (.inr rfl) ⟨⟨by decide, by decide, by decide⟩, by decide, trivial⟩ rfl
      (.inr rfl) ⟨⟨by decide, by decide, by decide⟩, by decide, trivial⟩ rfl
      (.inr rfl) ⟨⟨by decide, by decide, by decide⟩, by decide, trivial⟩ rfl
      (.inr rfl) ⟨⟨by decide, by decide, by decide⟩, by decide, trivial⟩ (.inl rfl)
      (by decide) (by decide) (by decide))).1 (.inr rfl)

def h265Late : List (List UInt8 × List UInt8) := [([0, 0, 0, 1], [0x02, 0x01, 0xD0])]

/-- As for H.264, a client that joins on a P frame gets nothing of it. -/
theorem h265_late_join : ¬ ∀ (mem : Mem) (rc : RtspClient) (s : RtpSs) (pd : RtpQueueData)
    (q : RtpQueue) (us : List (List UInt8 × List UInt8)),
    Queued mem rc s pd q (octets us) → H265AccessUnit us →
      ∃ n ps rc', txRun (rtspdClientRtpH265Main mem) n rc = some (ps, rc') ∧
        Delivers (viewPacket rc.eTransport (rc.connInfo.rtpPort 0)) hevcItem s.video.startSeq
          (uadd s.video.startRtptime pd.ts) ps (us.map Prod.snd) := by
  intro h
  have hq := queued_freshClient .tcp (.inr rfl) (octets h265Late) 0 (by decide)
  obtain ⟨n, ps, rc', hrun, hd⟩ := h _ _ _ _ _ h265Late hq
    (.slice (.inr rfl) ⟨⟨by decide, by decide, by decide⟩, by decide, trivial⟩ (.inl rfl))
  cases n with
  | zero => simp [txRun] at hrun
  | succ n =>
    have hnone := hq.refused (c := hevc) (n := n) rfl
    cases hnone.symm.trans hrun
    exact hd.ne_nil rfl

end En675.Rtsp
