import En675.Rtsp.RtpNalSend

/-! H.264 over RTP: `rtspd_client_rtp_h264_main` against RFC 6184. -/

namespace En675.Rtsp

open Lib Lib.AnnexB

def avcType (nal : List UInt8) : Nat := (nal.headD 0 &&& 0x1F).toNat

/-- `forbidden_zero_bit` is 0 in every NAL unit. -/
def avcFormat : NalFormat where
  typeOf := avcType
  hdrLen := 1
  hdrOk nal := nal.headD 0 &&& 0x80 = 0
  item := avcItem

theorem avc_fragment_bits : ∀ n < 256, ∀ start stop : Bool, (UInt8.ofNat n) &&& 0x80 = 0 →
    let b := UInt8.ofNat n
    let ind := UInt8.ofNat (((b &&& 0x60) >>> 5).toNat % 4 * 32 + 0x1C)
    let fu := UInt8.ofNat ((if start then 128 else 0) + (if stop then 64 else 0) +
      (b &&& 0x1F).toNat % 32)
    ind &&& 0x1F = 28 ∧ (fu &&& 0x80 != 0) = start ∧ (fu &&& 0x40 != 0) = stop ∧
      (ind &&& 0xE0) ||| (fu &&& 0x1F) = b := by
  decide +kernel

theorem avc_single_bits : ∀ n < 256,
    (avc.isSlice ((UInt8.ofNat n) &&& 0x1F).toNat || avc.isParam ((UInt8.ofNat n) &&& 0x1F).toNat) =
      true →
    (UInt8.ofNat n) &&& 0x1F ≠ 28 ∧ 1 ≤ ((UInt8.ofNat n) &&& 0x1F).toNat ∧
      ((UInt8.ofNat n) &&& 0x1F).toNat ≤ 23 := by
  decide +kernel

theorem avc_lawful : Lawful avc avcFormat where
  hdrLen := rfl
  hdrLen_pos := by decide
  hdrLen_lt := by decide
  fuLen_le := by decide
  window := by decide
  readHdr p pk := ⟨_, _, pk.nalunithdr, rfl⟩
  naltype {p nal} pk h hp := by
    have hl : 0 < nal.length := h.long
    obtain ⟨b, rest, rfl⟩ := List.exists_cons_of_length_pos hl
    simp [avc, avcReadHdr, avcFormat, avcType, hp 0 hl]
  length_fuHeader _ _ _ := rfl
  fuHeader_move _ _ _ := rfl
  remembers {p nal} pk h hp start stop d := by
    have hl : 0 < nal.length := h.long
    obtain ⟨b, rest, rfl⟩ := List.exists_cons_of_length_pos hl
    have hf : b &&& 0x80 = 0 := h.hdr
    have hb := avc_fragment_bits b.toNat b.toNat_lt start stop
    rw [UInt8.ofNat_toNat] at hb
    obtain ⟨h1, h2, h3, h4⟩ := hb hf
    have hp0 : p 0 = b := hp 0 hl
    simp only [avcFormat, avc, avcReadHdr, avcFUHeader, hp0, avcItem, List.cons_append,
      List.nil_append, h1, if_true, h2, h3, h4]
    rfl
  single {nal} h hty := by
    have hl : 0 < nal.length := h.long
    obtain ⟨b, rest, rfl⟩ := List.exists_cons_of_length_pos hl
    have hb := avc_single_bits b.toNat b.toNat_lt
    rw [UInt8.ofNat_toNat] at hb
    obtain ⟨h1, h2⟩ := hb (by simpa [avcFormat, avcType] using hty)
    simp only [avcFormat, avcItem]
    rw [if_neg h1, if_pos h2]
  apart t h := by
    simp only [avc, Bool.or_eq_true, beq_iff_eq] at h ⊢
    rcases h with rfl | rfl <;> rfl

/-- One slice, or SPS, PPS and IDR slice, each behind a start code; the start codes after
the parameter sets lie in the 20-octet window. -/
inductive H264AccessUnit : List (List UInt8 × List UInt8) → Prop
  | slice : IsStartCode sc → avcFormat.IsNal nal → (avcType nal = 1 ∨ avcType nal = 5) →
      H264AccessUnit [(sc, nal)]
  | idr : IsStartCode sc₁ → avcFormat.IsNal sps → avcType sps = 7 →
      IsStartCode sc₂ → avcFormat.IsNal pps → avcType pps = 8 →
      IsStartCode sc₃ → avcFormat.IsNal nal → avcType nal = 5 →
      sps.length + sc₂.length ≤ 20 → pps.length + sc₃.length ≤ 20 →
      H264AccessUnit [(sc₁, sps), (sc₂, pps), (sc₃, nal)]

theorem H264AccessUnit.accessUnit (h : H264AccessUnit us) : AccessUnit avc avcFormat us := by
  cases h with
  | slice hsc hnal hty =>
    refine .slice hsc hnal ?_
    rcases hty with h | h <;> simp [avcFormat, avc, h]
  | idr h1 hsps t1 h2 hpps t2 h3 hnal t3 w1 w2 =>
    refine .param h1 hsps (by simp [avcFormat, avc, t1]) w1 ?_
    refine .param h2 hpps (by simp [avcFormat, avc, t2]) w2 ?_
    exact .slice h3 hnal (by simp [avcFormat, avc, t3])

end En675.Rtsp
