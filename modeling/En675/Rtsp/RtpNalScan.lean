import En675.Lib.AnnexB
import En675.Rtsp.RtpNal

/-! What the two scans of the packetizers find in front of a clean NAL unit. -/

namespace En675.Rtsp

open Lib Lib.AnnexB

theorem startCode_clean {xs : List UInt8} (h : Clean xs) (hp : Reads p xs)
    (hn : i + n ≤ xs.length) : startCode p n i = 0 := by
  induction n generalizing i with
  | zero => rfl
  | succ n ih =>
    have hno := h.no_code hp (i := i) (by omega)
    rw [startCode, if_neg, ih (by omega)]
    simpa [and_assoc] using hno

theorem startCode_code {sc : List UInt8} (h : IsStartCode sc) (hp : Reads p sc) (hn : 2 ≤ n) :
    startCode p n 0 = sc.length := by
  obtain ⟨m, rfl⟩ : ∃ m, n = m + 2 := ⟨n - 2, by omega⟩
  rcases h with rfl | rfl
  · have h0 := hp 0 (by simp)
    have h1 := hp 1 (by simp)
    have h2 := hp 2 (by simp)
    simp_all [startCode]
  · have h0 := hp 0 (by simp)
    have h1 := hp 1 (by simp)
    have h2 := hp 2 (by simp)
    have h3 := hp 3 (by simp)
    simp_all [startCode]

/-- Inside a clean unit the zero run never meets a one. -/
theorem paramSize_body {xs : List UInt8} (h : Clean xs) (hp : Reads p xs) (m : Nat)
    (hi : i + (m + 1) = xs.length) (hj : 0 < j → 0 < i ∧ p (i - 1) = 0) :
    paramSize p (m + 1 + n) i j = paramSize p n xs.length 0 := by
  induction m generalizing i j with
  | zero =>
    have hne : p i ≠ 0 := by
      rw [hp i (by omega)]
      exact h.last_ne hi
    rw [show 0 + 1 + n = n + 1 by omega, paramSize, if_neg (by simpa using hne), ← hi]
  | succ m ih =>
    rw [show m + 1 + 1 + n = (m + 1 + n) + 1 by omega, paramSize]
    by_cases h0 : p i = 0
    · rw [if_pos (by simpa using h0), if_neg]
      · exact ih (by omega) (fun _ => ⟨by omega, by simpa using h0⟩)
      · simp only [Bool.and_eq_true, beq_iff_eq, decide_eq_true_eq, not_and]
        intro h1 h2
        obtain ⟨hpos, hprev⟩ := hj (by omega)
        obtain ⟨k, rfl⟩ : ∃ k, i = k + 1 := ⟨i - 1, by omega⟩
        exact h.no_code hp (i := k) (by omega) ⟨by simpa using hprev, h0, h1⟩
    · rw [if_neg (by simpa using h0)]
      exact ih (by omega) (fun hf => absurd hf (by omega))

/-- A parameter set is measured right when the start code after it is in the window. -/
theorem paramSize_unit {xs sc : List UInt8} (h : Clean xs) (hne : xs ≠ [])
    (hsc : IsStartCode sc) (hp : Reads p (xs ++ sc)) (hw : xs.length + sc.length ≤ w) :
    paramSize p w 0 0 = xs.length := by
  have hlen : 0 < xs.length := List.length_pos_of_ne_nil hne
  have h3 := hsc.three_le
  obtain ⟨n, rfl⟩ : ∃ n, w = xs.length - 1 + 1 + (n + 3) := ⟨w - xs.length - 3, by omega⟩
  rw [paramSize_body h hp.append_left (xs.length - 1) (by omega) (by omega)]
  have hq := hp.append_right
  rcases hsc with rfl | rfl
  · have h0 := hq 0 (by simp)
    have h1 := hq 1 (by simp)
    have h2 := hq 2 (by simp)
    simp only [Nat.add_zero, List.getElem_cons_zero, List.getElem_cons_succ] at h0 h1 h2
    simp [paramSize, h0, h1, h2]
  · have h0 := hq 0 (by simp)
    have h1 := hq 1 (by simp)
    have h2 := hq 2 (by simp)
    have h3 := hq 3 (by simp)
    simp only [Nat.add_zero, List.getElem_cons_zero, List.getElem_cons_succ] at h0 h1 h2 h3
    simp [paramSize, h0, h1, h2, h3]

end En675.Rtsp
