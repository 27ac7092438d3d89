import En675.Isp.AwbRegs
import En675.Lib.Latch

/-! What the white balance keeps: its filters while frames are held, and the preset of the key. -/

namespace En675.Isp

open Lib

/-- The filters are within the limits. -/
structure Inside (sp : AwbSens) (u : AwbPar) (s : AwbState) : Prop where
  db : sp.dbMin ≤ s.giAwbDbIIR >>> (4 : Nat) ∧ s.giAwbDbIIR >>> (4 : Nat) ≤ sp.dbMax
  dr : sp.drMin ≤ s.giAwbDrIIR >>> (4 : Nat) ∧ s.giAwbDrIIR >>> (4 : Nat) ≤ sp.drMax
  gains : ∃ low, u.awbGainMin = some low ∧
    (low ≤ s.gnAwbRGainIIR >>> 4 ∧ s.gnAwbRGainIIR >>> 4 ≤ u.awbGainMax) ∧
    low ≤ s.gnAwbBGainIIR >>> 4 ∧ s.gnAwbBGainIIR >>> 4 ≤ u.awbGainMax

/-- The filters come to the same statistics. -/
structure SameLevels (s t : AwbState) : Prop where
  db : t.giAwbDbIIR >>> (4 : Nat) = s.giAwbDbIIR >>> (4 : Nat)
  dr : t.giAwbDrIIR >>> (4 : Nat) = s.giAwbDrIIR >>> (4 : Nat)
  r : t.gnAwbRGainIIR >>> 4 = s.gnAwbRGainIIR >>> 4
  b : t.gnAwbBGainIIR >>> 4 = s.gnAwbBGainIIR >>> 4

theorem SameLevels.trans {s t v : AwbState} (h : SameLevels s t) (h' : SameLevels t v) : SameLevels s v :=
  ⟨h'.db.trans h.db, h'.dr.trans h.dr, h'.r.trans h.r, h'.b.trans h.b⟩

/-- What holds from the start on.  Only the first call finds the preset loaded, and then it is what the filters are. -/
structure AwbInv (sp : AwbSens) (u : AwbPar) (s : AwbState) : Prop extends Inside sp u s where
  loaded : s.bInitAwb = 0 ∨ (s.bInitAwb = 1 ∧ s.giAwbPrstTbl = s.prst)
  count : s.gnAwbPrstCnt ≤ 0x100

/-- The limited statistics of a call. -/
def AwbOut.stat (o : AwbOut) : Int × Int × Nat × Nat := (o.iDbSum, o.iDrSum, o.nRGain, o.nBGain)

/-- Calls without end, not all of them for long frames from some call on. -/
structure AwbRun (sp : AwbSens) (u : AwbPar) (s : AwbState) where
  frame : Nat → AwbFrame
  st : Nat → AwbState
  out : Nat → Option AwbOut
  start : st 0 = s
  step : ∀ n, awb sp u (frame n) (st n) = some (st (n + 1), out n)
  often : ∀ n, ∃ m, n ≤ m ∧ (frame m).wdrLong = false

namespace AwbRun

variable {sp : AwbSens} {u : AwbPar} {s : AwbState} (r : AwbRun sp u s)

/-- From call `m` on the statistics stay. -/
def Steady (m : Nat) : Prop := ∃ c, ∀ n, m ≤ n → ∀ o, r.out n = some o → o.stat = c

/-- The preset is saved in call `n`. -/
def SavesAt (n : Nat) : Prop := (r.frame n).wdrLong = false ∧ Saves u (r.frame n) (r.st n) (r.st (n + 1)).gnAwbErr

end AwbRun

/-- A preset is near to the statistics of its call. -/
structure AwbPrst.Near (t : AwbPrst) (o : AwbOut) : Prop where
  db : (t.db >>> (4 : Nat) - o.iDbSum).natAbs < 0x18
  dr : (t.dr >>> (4 : Nat) - o.iDrSum).natAbs < 0x18
  r : (t.r >>> (4 : Nat) - o.nRGain).natAbs < 0x18
  b : (t.b >>> (4 : Nat) - o.nBGain).natAbs < 0x18

/-- A preset that `InitAwb` restores from the bytes. -/
def AwbPrst.Restored (t : AwbPrst) (sp : AwbSens) (u : AwbPar) (ud : Nat → UInt8) : Prop :=
  ∃ s, initAwb sp u ud = some s ∧ s.giAwbDbIIR = t.db ∧ s.giAwbDrIIR = t.dr ∧ s.gnAwbRGainIIR = t.r ∧
    s.gnAwbBGainIIR = t.b

/-- What is promised of the calls from `s` on. -/
structure Keeps (sp : AwbSens) (u : AwbPar) (s : AwbState) : Prop where
  holds : u.awb = upAwbAuto → ∀ (fs : List AwbFrame) (t : AwbState),
    fs.foldlM (fun s f => awbNext sp s (u, f)) s = some t →
    ∀ hs : List AwbFrame, (∀ f ∈ hs, f.cct < u.awbTcntLmt.toNat) →
    ∃ v, hs.foldlM (fun s f => awbNext sp s (u, f)) t = some v ∧ SameLevels t v
  settles : ∀ (r : AwbRun sp u s) (m : Nat), r.Steady m → ∃ a, ∀ n, a ≤ n → (r.st n).gnAwbErr < 0x18
  once : u.awb = upAwbPreset → ∀ (r : AwbRun sp u s) (m on : Nat), r.Steady m →
    (∀ n, (r.frame n).gbMpAwbPrst = true ↔ on ≤ n) → ∃! n, r.SavesAt n
  saved : ∀ (r : AwbRun sp u s) (n : Nat), r.SavesAt n →
    (r.st (n + 1)).giAwbPrstTbl = (r.st (n + 1)).prst ∧ (∃ o, r.out n = some o ∧ (r.st (n + 1)).prst.Near o) ∧
      (r.st (n + 1)).prst.Restored sp u (r.st (n + 1)).ud

section filters

variable {sp : AwbSens} {u : AwbPar} {f : AwbFrame} {s t : AwbState} {o : AwbOut}

theorem clampInt_inside {v lo hi : Int} (h : lo ≤ v ∧ v ≤ hi) : clampInt v lo hi = v := by
  unfold clampInt
  rw [if_neg (by omega), if_neg (by omega)]

theorem clampNat_inside {v lo hi : Nat} (h : lo ≤ v ∧ v ≤ hi) : clampNat v lo hi = v := by
  unfold clampNat
  rw [if_neg (by omega), if_neg (by omega)]

/-- A filter that is drawn to what it shows stays. -/
theorem mean_holds (u : AwbPar) (x : Int) :
    mean 256 u.speed x (x >>> (4 : Nat) * 2 ^ 4) >>> (4 : Nat) = x >>> (4 : Nat) := by
  obtain ⟨s0, s1, -⟩ := speed_range u
  have whole : ((2 ^ 4 : Nat) : Int) = 2 ^ 4 := rfl
  rw [Int.shiftRight_eq_div_pow, Int.shiftRight_eq_div_pow, whole]
  have ge := le_mean (by decide : (0 : Int) < 256) s0 s1 (by omega : x / 2 ^ 4 * 2 ^ 4 ≤ x)
    (Int.le_refl (x / 2 ^ 4 * 2 ^ 4))
  have le := mean_le (by decide : (0 : Int) < 256) s0 s1 (Int.le_refl x) (by omega : x / 2 ^ 4 * 2 ^ 4 ≤ x)
  omega

/-- What shows between two limits stays there if it is drawn to what lies between them. -/
theorem mean_inside (u : AwbPar) {x v lo hi : Int} (hx : lo ≤ x >>> (4 : Nat) ∧ x >>> (4 : Nat) ≤ hi)
    (hv : lo ≤ v ∧ v ≤ hi) :
    lo ≤ mean 256 u.speed x (v * 2 ^ 4) >>> (4 : Nat) ∧ mean 256 u.speed x (v * 2 ^ 4) >>> (4 : Nat) ≤ hi := by
  obtain ⟨s0, s1, -⟩ := speed_range u
  rw [Int.shiftRight_eq_div_pow] at hx ⊢
  have ge := le_mean (by decide : (0 : Int) < 256) s0 s1 (by omega : lo * 2 ^ 4 ≤ x) (by omega : lo * 2 ^ 4 ≤ v * 2 ^ 4)
  have le := mean_le (by decide : (0 : Int) < 256) s0 s1 (by omega : x ≤ hi * 2 ^ 4 + 15)
    (by omega : v * 2 ^ 4 ≤ hi * 2 ^ 4 + 15)
  omega

theorem cast_shiftRight (n : Nat) : ((n >>> 4 : Nat) : Int) = (n : Int) >>> (4 : Nat) := by
  rw [Int.shiftRight_eq_div_pow, Nat.shiftRight_eq_div_pow]
  omega

theorem Inside.bounded (h : Inside sp u s) : s.Bounded := by
  obtain ⟨low, -, r, b⟩ := h.gains
  have fdb := sp.db_fits
  have fdr := sp.dr_fits
  have hdb := h.db
  have hdr := h.dr
  have small := u.awbGainMax_lt
  rw [Int.shiftRight_eq_div_pow] at hdb hdr
  rw [Nat.shiftRight_eq_div_pow] at r b
  exact ⟨by omega, by omega, by omega, by omega⟩

theorem AwbStep.inside (h : AwbStep sp u f s t o) (i : Inside sp u s) : Inside sp u t := by
  obtain ⟨db, dr, r, b⟩ := h.means i.bounded
  obtain ⟨ldb, ldr, low, hlow, lr, lb⟩ := h.limited
  obtain ⟨low', hlow', ir, ib⟩ := i.gains
  obtain rfl := Option.some.inj (hlow.symm.trans hlow')
  have gain : ∀ {n g new : Nat}, (new : Int) = mean 256 u.speed n (g * 2 ^ 4 : Int) → low ≤ g ∧ g ≤ u.awbGainMax →
      low ≤ n >>> 4 ∧ n >>> 4 ≤ u.awbGainMax → low ≤ new >>> 4 ∧ new >>> 4 ≤ u.awbGainMax := by
    intro n g new eq hg hn
    have shown : (low : Int) ≤ (n : Int) >>> (4 : Nat) ∧ (n : Int) >>> (4 : Nat) ≤ u.awbGainMax := by
      rw [← cast_shiftRight]
      omega
    have inside := mean_inside u shown (by omega : (low : Int) ≤ g ∧ (g : Int) ≤ u.awbGainMax)
    rw [← eq, ← cast_shiftRight] at inside
    omega
  exact ⟨db ▸ mean_inside u i.db ldb, dr ▸ mean_inside u i.dr ldr, low, hlow, gain r lr ir, gain b lb ib⟩

theorem AwbStep.inv (h : AwbStep sp u f s t o) (i : AwbInv sp u s) : AwbInv sp u t := by
  have init := h.init
  have count := i.count
  refine ⟨h.inside i.toInside, Or.inl ?_, ?_⟩
  · rcases i.loaded with zero | ⟨one, -⟩
    · omega
    · omega
  · by_cases key : u.awb = upAwbPreset ∧ f.gbMpAwbPrst = true
    · by_cases saves : Saves u f s t.gnAwbErr
      · rw [(h.saved saves).2.2.2]
        exact Nat.zero_le _
      · rw [(h.pushed key.1 key.2 saves).1]
        exact Nat.min_le_right _ _
    · rw [(h.loose key).1]
      exact Nat.zero_le _

theorem uint32_asInt {n : Nat} (h : n < 2 ^ 31) : uint32 (asInt n) = n := by
  rw [asInt_of_lt h]
  unfold uint32
  omega

theorem uint32_shift {n : Nat} (h : n < 2 ^ 31) : uint32 (asInt n >>> (4 : Nat)) = n >>> 4 := by
  rw [asInt_of_lt h, ← cast_shiftRight]
  unfold uint32
  rw [Nat.shiftRight_eq_div_pow]
  omega

/-- What a held call of the automatic mode uses is what the filters show. -/
theorem held_sums (i : AwbInv sp u s) (mode : u.awb = upAwbAuto) (hold : f.cct < u.awbTcntLmt.toNat) :
    awbSums sp u f s = some (s.giAwbDbIIR >>> (4 : Nat), s.giAwbDrIIR >>> (4 : Nat)) ∧
      ∀ low, awbGains u f s low = some (s.gnAwbRGainIIR >>> 4, s.gnAwbBGainIIR >>> 4) := by
  have held : Held u f s := Or.inr (Or.inr hold)
  have mnl : u.awb ≠ upAwbMnl := by rw [mode]; decide
  have small := i.bounded
  have hr := small.r
  have hb := small.b
  rcases i.loaded with zero | ⟨one, table⟩
  · have auto : ¬(s.bInitAwb ≠ 0 ∨ u.awb = upAwbPreset) := by
      rw [mode]
      exact fun c => c.elim (fun ne => ne zero) (by decide)
    refine ⟨?_, fun low => ?_⟩
    · unfold awbSums
      rw [if_neg mnl, if_pos held, if_neg auto]
    · unfold awbGains
      rw [if_neg mnl, if_pos held, if_neg auto]
  · have first : s.bInitAwb ≠ 0 ∨ u.awb = upAwbPreset := Or.inl (by omega)
    refine ⟨?_, fun low => ?_⟩
    · unfold awbSums
      rw [if_neg mnl, if_pos held, if_pos first, table]
      rfl
    · unfold awbGains
      rw [if_neg mnl, if_pos held, if_pos first, table]
      exact congrArg some (Prod.ext (uint32_shift (by omega)) (uint32_shift (by omega)))

theorem AwbStep.held (h : AwbStep sp u f s t o) (i : AwbInv sp u s) (mode : u.awb = upAwbAuto)
    (hold : f.cct < u.awbTcntLmt.toNat) : SameLevels s t := by
  obtain ⟨sums, gains⟩ := held_sums i mode hold
  obtain ⟨v, hv, odb, odr⟩ := h.sums
  obtain rfl := Option.some.inj (sums.symm.trans hv)
  obtain ⟨low, g, hlow, hg, onr, onb⟩ := h.gains
  obtain rfl := Option.some.inj ((gains low).symm.trans hg)
  obtain ⟨low', hlow', ir, ib⟩ := i.gains
  obtain rfl := Option.some.inj (hlow.symm.trans hlow')
  obtain ⟨db, dr, r, b⟩ := h.means i.bounded
  rw [odb, clampInt_inside i.db] at db
  rw [odr, clampInt_inside i.dr] at dr
  rw [onr, clampNat_inside ir] at r
  rw [onb, clampNat_inside ib] at b
  have gain : ∀ {n new : Nat}, (new : Int) = mean 256 u.speed n ((n >>> 4 : Nat) * 2 ^ 4 : Int) →
      new >>> 4 = n >>> 4 := by
    intro n new eq
    have stays := mean_holds u n
    rw [← cast_shiftRight, ← eq, ← cast_shiftRight] at stays
    exact Int.ofNat.inj stays
  exact ⟨db ▸ mean_holds u _, dr ▸ mean_holds u _, gain r, gain b⟩

end filters

section calls

variable {sp : AwbSens} {u : AwbPar} {f : AwbFrame} {s t : AwbState} {r : Option AwbOut}

theorem awb_inv (i : AwbInv sp u s) (h : awb sp u f s = some (t, r)) : AwbInv sp u t := by
  by_cases long : f.wdrLong = true
  · obtain ⟨rfl, -⟩ := Prod.mk.inj (Option.some.inj ((awb_long long).symm.trans h))
    exact i
  · obtain ⟨o, -, step⟩ := awb_step (by simpa using long) h
    exact step.inv i

theorem awb_hold (i : AwbInv sp u s) (mode : u.awb = upAwbAuto) (hold : f.cct < u.awbTcntLmt.toNat) :
    ∃ t r, awb sp u f s = some (t, r) ∧ SameLevels s t := by
  obtain ⟨low, hlow, -⟩ := i.gains
  obtain ⟨t, r, eq⟩ := awb_ends sp i.bounded (AwbPar.awbGainTimes_ne hlow)
    (fun d : Divides u f s => absurd (Or.inr (Or.inr hold)) d.2.2)
  refine ⟨t, r, eq, ?_⟩
  by_cases long : f.wdrLong = true
  · obtain ⟨rfl, -⟩ := Prod.mk.inj (Option.some.inj ((awb_long long).symm.trans eq))
    exact ⟨rfl, rfl, rfl, rfl⟩
  · obtain ⟨o, -, step⟩ := awb_step (by simpa using long) eq
    exact step.held i mode hold

theorem awbNext_inv (i : AwbInv sp u s) (h : awbNext sp s (u, f) = some t) : AwbInv sp u t := by
  obtain ⟨⟨t', r⟩, eq, rfl⟩ := Option.map_eq_some_iff.1 h
  exact awb_inv i eq

theorem awbNext_foldlM {fs : List AwbFrame} (i : AwbInv sp u s)
    (h : fs.foldlM (fun s f => awbNext sp s (u, f)) s = some t) : AwbInv sp u t := by
  induction fs generalizing s with
  | nil => exact Option.some.inj h ▸ i
  | cons f fs ih =>
    rw [List.foldlM_cons] at h
    obtain ⟨v, hv, rest⟩ := Option.bind_eq_some_iff.1 h
    exact ih (awbNext_inv i hv) rest

/-- Any number of held calls. -/
theorem awb_holds {hs : List AwbFrame} (i : AwbInv sp u s) (mode : u.awb = upAwbAuto)
    (hold : ∀ f ∈ hs, f.cct < u.awbTcntLmt.toNat) :
    ∃ v, hs.foldlM (fun s f => awbNext sp s (u, f)) s = some v ∧ SameLevels s v := by
  induction hs generalizing s with
  | nil => exact ⟨s, rfl, rfl, rfl, rfl, rfl⟩
  | cons f fs ih =>
    obtain ⟨t, r, eq, same⟩ := awb_hold i mode (hold f List.mem_cons_self)
    have next : awbNext sp s (u, f) = some t := by
      unfold awbNext
      rw [eq]
      rfl
    obtain ⟨v, hv, rest⟩ := ih (awbNext_inv i next) fun g hg => hold g (List.mem_cons_of_mem _ hg)
    refine ⟨v, ?_, same.trans rest⟩
    rw [List.foldlM_cons, next]
    exact hv

end calls

section bytes

/-- The four bytes of a word. -/
theorem or_bytes {a b c d : Nat} (hb : b < 2 ^ 8) (hc : c < 2 ^ 8) (hd : d < 2 ^ 8) :
    a <<< 24 ||| b <<< 16 ||| c <<< 8 ||| d <<< 0 = a * 2 ^ 24 + b * 2 ^ 16 + c * 2 ^ 8 + d := by
  rw [Nat.shiftLeft_zero, Nat.or_assoc, Nat.or_assoc, shl_or c hd, shl_or b (by omega), shl_or a (by omega)]
  omega

theorem asInt_uint32 {v : Int} (h : -2 ^ 31 ≤ v ∧ v < 2 ^ 31) : asInt (uint32 v) = v := by
  unfold asInt uint32
  split <;> omega

theorem store_byte (t : AwbPrst) (ud : Nat → UInt8) {i k : Nat} (hi : i < 4) (hk : k < 4) :
    (t.store ud (i * 4 + k)).toNat = uint32 (t.get i) / 2 ^ (8 * k) % 2 ^ 8 := by
  have cell : (i * 4 + k) / 4 = i ∧ (i * 4 + k) % 4 = k := by omega
  have byte : ∀ v : Int, uint32 (v >>> (8 * k)) % 2 ^ 8 = uint32 v / 2 ^ (8 * k) % 2 ^ 8 := by
    intro v
    rw [Int.shiftRight_eq_div_pow]
    unfold uint32
    match k, hk with
    | 0, _ => omega
    | 1, _ => omega
    | 2, _ => omega
    | 3, _ => omega
  unfold AwbPrst.store
  rw [if_pos (by omega), cell.1, cell.2, UInt8.toNat_ofNat']
  exact byte _

/-- A word is read as it was saved. -/
theorem word_store (t : AwbPrst) (ud : Nat → UInt8) {i : Nat} (hi : i < 4) (h : -2 ^ 31 ≤ t.get i ∧ t.get i < 2 ^ 31) :
    AwbPrst.word (t.store ud) i = t.get i := by
  have b0 := store_byte t ud hi (by decide : 0 < 4)
  have b1 := store_byte t ud hi (by decide : 1 < 4)
  have b2 := store_byte t ud hi (by decide : 2 < 4)
  have b3 := store_byte t ud hi (by decide : 3 < 4)
  have wide : uint32 (t.get i) < 2 ^ 32 := by
    unfold uint32
    omega
  unfold AwbPrst.word
  rw [or_bytes (UInt8.toNat_lt _) (UInt8.toNat_lt _) (UInt8.toNat_lt _), b3, b2, b1]
  rw [Nat.add_zero] at b0
  rw [b0]
  have whole : uint32 (t.get i) / 2 ^ (8 * 3) % 2 ^ 8 * 2 ^ 24 + uint32 (t.get i) / 2 ^ (8 * 2) % 2 ^ 8 * 2 ^ 16 +
      uint32 (t.get i) / 2 ^ (8 * 1) % 2 ^ 8 * 2 ^ 8 + uint32 (t.get i) / 2 ^ (8 * 0) % 2 ^ 8 = uint32 (t.get i) := by
    omega
  rw [whole, asInt_uint32 h]

end bytes

section save

variable {sp : AwbSens} {u : AwbPar} {f : AwbFrame} {s t : AwbState} {o : AwbOut}

theorem AwbStep.err_near (h : AwbStep sp u f s t o) (i : Inside sp u s) : t.gnAwbErr < 0x18 ↔ t.prst.Near o := by
  have small := (h.inside i).bounded
  have hr := small.r
  have hb := small.b
  obtain ⟨-, -, low, -, lr, lb⟩ := h.limited
  have max_ := u.awbGainMax_lt
  have narrow : ∀ n, n < 2 ^ 20 → n >>> 4 < 2 ^ 31 := fun n hn => by
    rw [Nat.shiftRight_eq_div_pow]
    omega
  have r : t.prst.r >>> (4 : Nat) = asInt (t.gnAwbRGainIIR >>> 4) := by
    rw [asInt_of_lt (narrow _ hr), cast_shiftRight, ← asInt_of_lt (by omega : t.gnAwbRGainIIR < 2 ^ 31)]
    rfl
  have b : t.prst.b >>> (4 : Nat) = asInt (t.gnAwbBGainIIR >>> 4) := by
    rw [asInt_of_lt (narrow _ hb), cast_shiftRight, ← asInt_of_lt (by omega : t.gnAwbBGainIIR < 2 ^ 31)]
    rfl
  rw [h.err, asInt_of_lt (by omega : o.nRGain < 2 ^ 31), asInt_of_lt (by omega : o.nBGain < 2 ^ 31), ← r, ← b]
  constructor
  · intro err
    exact ⟨by have : t.prst.db = t.giAwbDbIIR := rfl; rw [this]; omega,
      by have : t.prst.dr = t.giAwbDrIIR := rfl; rw [this]; omega, by omega, by omega⟩
  · intro near
    have db : (t.giAwbDbIIR >>> (4 : Nat) - o.iDbSum).natAbs < 0x18 := near.db
    have dr : (t.giAwbDrIIR >>> (4 : Nat) - o.iDrSum).natAbs < 0x18 := near.dr
    have nr := near.r
    have nb := near.b
    omega

/-- The start takes what was saved within the limits. -/
theorem prst_restored (i : Inside sp u t) (ud : Nat → UInt8) : t.prst.Restored sp u (t.prst.store ud) := by
  have small := i.bounded
  have hdb := small.db
  have hdr := small.dr
  have hr : t.gnAwbRGainIIR < 2 ^ 31 := by have := small.r; omega
  have hb : t.gnAwbBGainIIR < 2 ^ 31 := by have := small.b; omega
  obtain ⟨low, hlow, ir, ib⟩ := i.gains
  have load : AwbPrst.load (t.prst.store ud) = t.prst := by
    unfold AwbPrst.load
    rw [word_store t.prst ud (by decide : 0 < 4) ⟨by change _ ≤ t.giAwbDbIIR; omega, by change t.giAwbDbIIR < _; omega⟩,
      word_store t.prst ud (by decide : 1 < 4) ⟨by change _ ≤ t.giAwbDrIIR; omega, by change t.giAwbDrIIR < _; omega⟩,
      word_store t.prst ud (by decide : 2 < 4) (asInt_fits _), word_store t.prst ud (by decide : 3 < 4) (asInt_fits _)]
    rfl
  have shows : (sp.dbMin ≤ t.prst.db >>> (4 : Nat) ∧ t.prst.db >>> (4 : Nat) ≤ sp.dbMax ∧
      sp.drMin ≤ t.prst.dr >>> (4 : Nat) ∧ t.prst.dr >>> (4 : Nat) ≤ sp.drMax) := ⟨i.db.1, i.db.2, i.dr⟩
  have gains : low ≤ uint32 (t.prst.r >>> (4 : Nat)) ∧ uint32 (t.prst.r >>> (4 : Nat)) ≤ u.awbGainMax ∧
      low ≤ uint32 (t.prst.b >>> (4 : Nat)) ∧ uint32 (t.prst.b >>> (4 : Nat)) ≤ u.awbGainMax := by
    unfold AwbState.prst
    rw [uint32_shift hr, uint32_shift hb]
    exact ⟨ir.1, ir.2, ib⟩
  refine ⟨⟨t.prst.db, t.prst.dr, uint32 t.prst.r, uint32 t.prst.b, 0, t.prst, t.prst.store ud, 1, 0, 0⟩, ?_, rfl, rfl,
    ?_, ?_⟩
  · unfold initAwb
    rw [load]
    dsimp only
    rw [if_pos shows, hlow]
    exact if_pos gains
  · unfold AwbState.prst
    dsimp only
    rw [uint32_asInt hr, asInt_of_lt hr]
  · unfold AwbState.prst
    dsimp only
    rw [uint32_asInt hb, asInt_of_lt hb]

end save

namespace AwbRun

variable {sp : AwbSens} {u : AwbPar} {s : AwbState} (r : AwbRun sp u s)

theorem inv (i : AwbInv sp u s) (n : Nat) : AwbInv sp u (r.st n) := by
  induction n with
  | zero =>
    rw [r.start]
    exact i
  | succ n ih => exact awb_inv ih (r.step n)

theorem idle {n : Nat} (long : ¬(r.frame n).wdrLong = false) : r.st (n + 1) = r.st n := by
  have eq := r.step n
  rw [awb_long (by simpa using long)] at eq
  exact (Prod.mk.inj (Option.some.inj eq)).1.symm

theorem acts {n : Nat} (short : (r.frame n).wdrLong = false) :
    ∃ o, r.out n = some o ∧ AwbStep sp u (r.frame n) (r.st n) (r.st (n + 1)) o := awb_step short (r.step n)

/-- One filter comes to rest by the statistic that it is drawn to. -/
theorem filter_settles {x : AwbState → Int} {v : AwbOut → Int} {m : Nat} {c : Int}
    (draws : ∀ n o, AwbStep sp u (r.frame n) (r.st n) (r.st (n + 1)) o →
      x (r.st (n + 1)) = mean 256 u.speed (x (r.st n)) (v o * 2 ^ 4))
    (const : ∀ n, m ≤ n → ∀ o, r.out n = some o → v o = c) :
    ∃ a, ∀ n, a ≤ n → Settled 256 (x (r.st n) - c * 2 ^ 4) := by
  obtain ⟨s0, -, s1⟩ := speed_range u
  have q : (0 : Int) < 256 := by decide
  obtain ⟨a, ha⟩ := @decay_settles 256 (fun k => x (r.st (m + k)) - c * 2 ^ 4)
    (fun k => (r.frame (m + k)).wdrLong = false) q
    (fun k short => by
      obtain ⟨o, ho, step⟩ := r.acts short
      refine ⟨u.speed, s0, s1, ?_⟩
      have eq := draws (m + k) o step
      rw [const (m + k) (by omega) o ho, mean_eq q] at eq
      change x (r.st (m + k + 1)) - c * 2 ^ 4 = _
      omega)
    (fun k long => by
      change x (r.st (m + k + 1)) - c * 2 ^ 4 = _
      rw [r.idle long])
    (fun k => by
      obtain ⟨n, hn, short⟩ := r.often (m + k)
      refine ⟨n - m, by omega, ?_⟩
      rw [Nat.add_sub_cancel' (by omega)]
      exact short)
  refine ⟨m + a, fun n hn => ?_⟩
  have at_n := ha (n - m) (by omega)
  rw [Nat.add_sub_cancel' (by omega)] at at_n
  exact at_n

/-- Rounding leaves less than one step, which the threshold admits. -/
theorem near_of_settled {x c : Int} (h : Settled 256 (x - c * 2 ^ 4)) : (x >>> (4 : Nat) - c).natAbs < 0x18 := by
  obtain ⟨lo, hi⟩ := h
  rw [Int.shiftRight_eq_div_pow]
  omega

/-- In the end what would be saved is near to the statistics. -/
theorem ends_near (i : AwbInv sp u s) {m : Nat} (steady : r.Steady m) :
    ∃ a, ∀ n, a ≤ n → ∀ o, r.out n = some o → (r.st (n + 1)).prst.Near o := by
  obtain ⟨⟨cdb, cdr, cr, cb⟩, hc⟩ := steady
  have parts : ∀ n, m ≤ n → ∀ o, r.out n = some o → o.iDbSum = cdb ∧ o.iDrSum = cdr ∧ o.nRGain = cr ∧ o.nBGain = cb := by
    intro n hn o ho
    have eq := hc n hn o ho
    unfold AwbOut.stat at eq
    simpa only [Prod.mk.injEq] using eq
  have means := fun n o (step : AwbStep sp u (r.frame n) (r.st n) (r.st (n + 1)) o) => step.means (r.inv i n).bounded
  obtain ⟨a0, db⟩ := r.filter_settles (x := AwbState.giAwbDbIIR) (v := AwbOut.iDbSum)
    (fun n o step => (means n o step).1) fun n hn o ho => (parts n hn o ho).1
  obtain ⟨a1, dr⟩ := r.filter_settles (x := AwbState.giAwbDrIIR) (v := AwbOut.iDrSum)
    (fun n o step => (means n o step).2.1) fun n hn o ho => (parts n hn o ho).2.1
  obtain ⟨a2, gr⟩ := r.filter_settles (x := fun s => s.gnAwbRGainIIR) (v := fun o => o.nRGain) (c := cr)
    (fun n o step => (means n o step).2.2.1) fun n hn o ho => congrArg _ (parts n hn o ho).2.2.1
  obtain ⟨a3, gb⟩ := r.filter_settles (x := fun s => s.gnAwbBGainIIR) (v := fun o => o.nBGain) (c := cb)
    (fun n o step => (means n o step).2.2.2) fun n hn o ho => congrArg _ (parts n hn o ho).2.2.2
  refine ⟨max m (max (max a0 a1) (max a2 a3)), fun n hn o ho => ?_⟩
  obtain ⟨e0, e1, e2, e3⟩ := parts n (by omega) o ho
  have small := (r.inv i (n + 1)).bounded
  have hr : asInt (r.st (n + 1)).gnAwbRGainIIR = (r.st (n + 1)).gnAwbRGainIIR :=
    asInt_of_lt (by have := small.r; omega)
  have hb : asInt (r.st (n + 1)).gnAwbBGainIIR = (r.st (n + 1)).gnAwbBGainIIR :=
    asInt_of_lt (by have := small.b; omega)
  constructor
  · rw [e0]
    exact near_of_settled (db (n + 1) (by omega))
  · rw [e1]
    exact near_of_settled (dr (n + 1) (by omega))
  · rw [e2]
    change (asInt (r.st (n + 1)).gnAwbRGainIIR >>> (4 : Nat) - _).natAbs < 0x18
    rw [hr]
    exact near_of_settled (gr (n + 1) (by omega))
  · rw [e3]
    change (asInt (r.st (n + 1)).gnAwbBGainIIR >>> (4 : Nat) - _).natAbs < 0x18
    rw [hb]
    exact near_of_settled (gb (n + 1) (by omega))

/-- The error falls below the threshold and stays there. -/
theorem err_settles (i : AwbInv sp u s) {m : Nat} (steady : r.Steady m) :
    ∃ a, ∀ n, a ≤ n → (r.st n).gnAwbErr < 0x18 := by
  obtain ⟨a, near⟩ := r.ends_near i steady
  have short_ : ∀ n, a ≤ n → (r.frame n).wdrLong = false → (r.st (n + 1)).gnAwbErr < 0x18 := by
    intro n hn short
    obtain ⟨o, ho, step⟩ := r.acts short
    exact (step.err_near (r.inv i n).toInside).2 (near n hn o ho)
  obtain ⟨n, hn, short⟩ := r.often a
  refine ⟨n + 1, fun k hk => ?_⟩
  induction hk with
  | refl => exact short_ n hn short
  | @step k hk ih =>
    have later : n + 1 ≤ k := hk
    by_cases s : (r.frame k).wdrLong = false
    · exact short_ k (by omega) s
    · rw [r.idle s]
      exact ih

/-- Until the key is set nothing is counted. -/
theorem before_key (zero : s.gnAwbPrstCnt = 0 ∧ s.gnAwbPrstDone = 0) {on : Nat}
    (key : ∀ n, (r.frame n).gbMpAwbPrst = true ↔ on ≤ n) {n : Nat} (le : n ≤ on) :
    (r.st n).gnAwbPrstCnt = 0 ∧ (r.st n).gnAwbPrstDone = 0 := by
  induction n with
  | zero =>
    rw [r.start]
    exact zero
  | succ n ih =>
    by_cases short : (r.frame n).wdrLong = false
    · obtain ⟨o, -, step⟩ := r.acts short
      exact step.loose fun c => absurd ((key n).1 c.2) (by omega)
    · rw [r.idle short]
      exact ih (by omega)

/-- From then on the preset is a latch. -/
theorem latch (i : AwbInv sp u s) (zero : s.gnAwbPrstCnt = 0 ∧ s.gnAwbPrstDone = 0) (mode : u.awb = upAwbPreset)
    {on : Nat} (key : ∀ n, (r.frame n).gbMpAwbPrst = true ↔ on ≤ n) :
    Latch (fun n => (r.frame n).wdrLong = false) r.SavesAt (fun n => (r.st n).gnAwbPrstCnt)
      (fun n => (r.st n).gnAwbPrstDone) 0x40 0x100 on := by
  constructor
  · decide
  · exact (r.before_key zero key (Nat.le_refl on)).2
  · exact fun n saves => saves.1
  · intro n hn saves
    obtain ⟨o, -, step⟩ := r.acts saves.1
    have done : (r.st (n + 1)).gnAwbPrstDone = 1 := (step.saved saves.2).2.2.1
    exact ⟨saves.2.2.2.2.2, by omega⟩
  · intro n hn rest
    by_cases short : (r.frame n).wdrLong = false
    · obtain ⟨o, -, step⟩ := r.acts short
      exact (step.pushed mode ((key n).2 hn) fun saves => rest ⟨short, saves⟩).2
    · exact congrArg AwbState.gnAwbPrstDone (r.idle short)
  · intro n hn short rest
    obtain ⟨o, -, step⟩ := r.acts short
    have count := (r.inv i n).count
    have pushed := (step.pushed mode ((key n).2 hn) fun saves => rest ⟨short, saves⟩).1
    rw [uadd_of_lt (by omega)] at pushed
    exact pushed
  · exact fun n _ long => congrArg AwbState.gnAwbPrstCnt (r.idle long)

theorem saves_once (i : AwbInv sp u s) (zero : s.gnAwbPrstCnt = 0 ∧ s.gnAwbPrstDone = 0) (mode : u.awb = upAwbPreset)
    {m on : Nat} (steady : r.Steady m) (key : ∀ n, (r.frame n).gbMpAwbPrst = true ↔ on ≤ n) :
    ∃! n, r.SavesAt n := by
  obtain ⟨a, err⟩ := r.err_settles i steady
  obtain ⟨n, ⟨-, fired⟩, unique⟩ := (r.latch i zero mode key).fires_once r.often ⟨max a on, fun n hn short count done =>
    ⟨short, mode, (key n).2 (by omega), count, err (n + 1) (by omega), done⟩⟩
  exact ⟨n, fired, fun k hk => unique k ⟨(key k).1 hk.2.2.1, hk⟩⟩

theorem saves_near (i : AwbInv sp u s) {n : Nat} (saves : r.SavesAt n) :
    (r.st (n + 1)).giAwbPrstTbl = (r.st (n + 1)).prst ∧ (∃ o, r.out n = some o ∧ (r.st (n + 1)).prst.Near o) ∧
      (r.st (n + 1)).prst.Restored sp u (r.st (n + 1)).ud := by
  obtain ⟨o, ho, step⟩ := r.acts saves.1
  obtain ⟨table, ud, -, -⟩ := step.saved saves.2
  refine ⟨table, ⟨o, ho, (step.err_near (r.inv i n).toInside).1 saves.2.2.2.2.1⟩, ?_⟩
  rw [ud]
  exact prst_restored (r.inv i (n + 1)).toInside _

end AwbRun

theorem initAwb_inv {sp : AwbSens} {u : AwbPar} {ud : Nat → UInt8} {s : AwbState} (h : initAwb sp u ud = some s)
    (i : Inside sp u s) : AwbInv sp u s ∧ s.gnAwbPrstCnt = 0 ∧ s.gnAwbPrstDone = 0 := by
  suffices fresh : s.bInitAwb = 1 ∧ s.giAwbPrstTbl = s.prst ∧ s.gnAwbPrstCnt = 0 ∧ s.gnAwbPrstDone = 0 from
    ⟨⟨i, Or.inr ⟨fresh.1, fresh.2.1⟩, fresh.2.2.1 ▸ Nat.zero_le _⟩, fresh.2.2⟩
  have word : ∀ n, asInt (uint32 (AwbPrst.word ud n)) = AwbPrst.word ud n := fun n => asInt_uint32 (asInt_fits _)
  unfold initAwb at h
  dsimp only at h
  split at h
  · obtain ⟨low, -, h⟩ := Option.bind_eq_some_iff.1 h
    split at h
    · obtain rfl := Option.some.inj h
      refine ⟨rfl, ?_, rfl, rfl⟩
      change AwbPrst.load ud = ⟨_, _, asInt (uint32 (AwbPrst.word ud 2)), asInt (uint32 (AwbPrst.word ud 3))⟩
      rw [word, word]
      rfl
    · obtain rfl := Option.some.inj h
      exact ⟨rfl, rfl, rfl, rfl⟩
  · obtain rfl := Option.some.inj h
    exact ⟨rfl, rfl, rfl, rfl⟩

/-- From a start within the limits the white balance holds still, settles, and saves its preset once. -/
theorem awb_keeps {sp : AwbSens} {u : AwbPar} {ud : Nat → UInt8} {s : AwbState} (start : initAwb sp u ud = some s)
    (inside : Inside sp u s) : Keeps sp u s := by
  obtain ⟨i, zero⟩ := initAwb_inv start inside
  constructor
  · exact fun mode fs t run hs hold => awb_holds (awbNext_foldlM i run) mode hold
  · exact fun r m steady => r.err_settles i steady
  · exact fun mode r m on steady key => r.saves_once i zero mode steady key
  · exact fun r n saves => r.saves_near i saves

section frames

variable {sp : AwbSens} {u : AwbPar} {f : AwbFrame} {s s' t t' : AwbState} {o o' : AwbOut}

/-- Where nothing is held the statistics are those of the frame. -/
theorem AwbStep.stat_eq (h : AwbStep sp u f s t o) (h' : AwbStep sp u f s' t' o') (free : ¬Held u f s)
    (free' : ¬Held u f s') : o.stat = o'.stat := by
  have sums : awbSums sp u f s = awbSums sp u f s' := by
    unfold awbSums
    rw [if_neg free, if_neg free']
  have gains : ∀ low, awbGains u f s low = awbGains u f s' low := by
    intro low
    unfold awbGains
    rw [if_neg free, if_neg free']
  obtain ⟨v, hv, db, dr⟩ := h.sums
  obtain ⟨v', hv', db', dr'⟩ := h'.sums
  obtain rfl := Option.some.inj (hv.symm.trans (sums.trans hv'))
  obtain ⟨low, g, hlow, hg, r, b⟩ := h.gains
  obtain ⟨low', g', hlow', hg', r', b'⟩ := h'.gains
  obtain rfl := Option.some.inj (hlow.symm.trans hlow')
  obtain rfl := Option.some.inj (hg.symm.trans ((gains low).trans hg'))
  unfold AwbOut.stat
  rw [db, dr, r, b, db', dr', r', b']

namespace AwbRun

/-- Calls on frames that count something go on without end. -/
theorem exists_run (i : AwbInv sp u s) (frame : Nat → AwbFrame) (count : ∀ n, (frame n).cct ≠ 0)
    (often : ∀ n, ∃ m, n ≤ m ∧ (frame m).wdrLong = false) : ∃ r : AwbRun sp u s, r.frame = frame := by
  have next : ∀ n (x : {s // AwbInv sp u s}), ∃ y : {s // AwbInv sp u s}, ∃ o, awb sp u (frame n) x.1 = some (y.1, o) := by
    intro n x
    obtain ⟨low, hlow, -⟩ := x.2.gains
    obtain ⟨t, o, eq⟩ := awb_ends sp x.2.bounded (AwbPar.awbGainTimes_ne hlow) fun _ => count n
    exact ⟨⟨t, awb_inv x.2 eq⟩, o, eq⟩
  let st : Nat → {s // AwbInv sp u s} := fun n => Nat.rec ⟨s, i⟩ (fun n x => Classical.choose (next n x)) n
  have spec := fun n => Classical.choose_spec (next n (st n))
  exact ⟨⟨frame, fun n => (st n).1, fun n => Classical.choose (spec n), rfl, fun n => Classical.choose_spec (spec n),
    often⟩, rfl⟩

theorem steady_of_const (r : AwbRun sp u s) (i : AwbInv sp u s) (same : ∀ n, r.frame n = f)
    (short : f.wdrLong = false) (free : ¬((u.awb = upAwbPreset ∧ f.gbMpAwbPrst = false) ∨ f.cct < u.awbTcntLmt.toNat)) :
    r.Steady 1 := by
  have loaded : ∀ n, 1 ≤ n → (r.st n).bInitAwb = 0 := by
    intro n hn
    obtain ⟨k, rfl⟩ := Nat.exists_eq_add_of_le' hn
    obtain ⟨o, -, step⟩ := r.acts (n := k) (same k ▸ short)
    rcases (r.inv i k).loaded with zero | ⟨one, -⟩
    · rw [step.init, zero]
    · rw [step.init, one]
  have held : ∀ n, 1 ≤ n → ¬Held u f (r.st n) := fun n hn c => c.elim (fun ne => ne (loaded n hn)) free
  have step : ∀ n, ∃ o, r.out n = some o ∧ AwbStep sp u f (r.st n) (r.st (n + 1)) o := fun n =>
    same n ▸ r.acts (n := n) (same n ▸ short)
  obtain ⟨o, -, first⟩ := step 1
  refine ⟨o.stat, fun n hn o' ho' => ?_⟩
  obtain ⟨o'', ho'', later⟩ := step n
  obtain rfl := Option.some.inj (ho''.symm.trans ho')
  exact later.stat_eq first (held n hn) (held 1 (Nat.le_refl 1))

end AwbRun

end frames

/-- The sixteen bytes of a preset between the limits. -/
def savedUd : Nat → UInt8 := AwbPrst.store ⟨-6016, 0, 0x1000, 0x1000⟩ fun _ => 0

def presetPar : AwbPar := ⟨upAwbPreset, 0, 10, 10, 22, 22, 22, 0x80, 0xf0, 0x100, 0x80, 3⟩

/-- A frame of the key, with statistics of its own. -/
theorem keyFrame_cct : 0x400 < 2 ^ 24 := by decide

def keyFrame : AwbFrame :=
  ⟨false, false, true, 0x400, keyFrame_cct, 0xfff80000, 0x10000, 0x30000, 0x40000, 0x28000, fun _ _ _ _ => 0x100, 0, false⟩

/-- There is a run with the key from the first call on, and it saves once. -/
theorem awb_keeps_slow : ∃ s, initAwb sensImx415 presetPar savedUd = some s ∧ Keeps sensImx415 presetPar s ∧
    ∃ r : AwbRun sensImx415 presetPar s, r.Steady 1 ∧ ∃! n, r.SavesAt n := by
  obtain ⟨s, start, fit⟩ : ∃ s, initAwb sensImx415 presetPar savedUd = some s ∧
      (s.giAwbDbIIR, s.giAwbDrIIR, s.gnAwbRGainIIR, s.gnAwbBGainIIR) = (-6016, 0, 0x1000, 0x1000) :=
    ⟨_, rfl, by decide +kernel⟩
  simp only [Prod.mk.injEq] at fit
  obtain ⟨db, dr, gr, gb⟩ := fit
  have inside : Inside sensImx415 presetPar s :=
    ⟨by rw [db]; decide, by rw [dr]; decide, 0x55, by decide, by rw [gr]; decide, by rw [gb]; decide⟩
  have keeps := awb_keeps start inside
  have i := (initAwb_inv start inside).1
  obtain ⟨r, frame⟩ := AwbRun.exists_run i (fun _ => keyFrame) (fun _ => by decide) fun n => ⟨n, Nat.le_refl n, rfl⟩
  have steady := r.steady_of_const i (fun n => congrFun frame n) rfl (by decide)
  exact ⟨s, start, keeps, r, steady, keeps.once rfl r 1 0 steady fun n => by rw [frame]; simp [keyFrame]⟩

end En675.Isp
