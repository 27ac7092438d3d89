import En675.Videnc.Codec

/-! Where the profile octets of `hvcC` come from.  `helper_3byte_zero_nalunit` steps over an octet
after every second zero; the standard takes out the 3 of every 0 0 3. -/

namespace En675.Videnc

open Lib

/-- The octets of a VPS less its emulation prevention, each with its place in the VPS. -/
def unescapeAt : Nat → List UInt8 → List (Nat × UInt8)
  | i, 0 :: 0 :: 3 :: rest => (i, 0) :: (i + 1, 0) :: unescapeAt (i + 3) rest
  | i, b :: rest => (i, b) :: unescapeAt (i + 1) rest
  | _, [] => []

/-- The octets that `helperOctets` reads, each with its place. -/
def helperPlaces (vpsData : List UInt8) : Nat → Nat → Nat → List (Nat × UInt8)
  | 0, _, _ => []
  | n + 1, i, zerocount =>
    let next := helper3byteZeroNalunit vpsData i zerocount
    (i, vpsData.getD i 0) :: helperPlaces vpsData n next.1 next.2

theorem map_unescapeAt (i : Nat) (xs : List UInt8) : (unescapeAt i xs).map Prod.snd = unescape xs := by
  induction i, xs using unescapeAt.induct with
  | case1 i rest ih => simp [unescapeAt, unescape, ih]
  | case2 i b rest other ih =>
    rw [unescapeAt, unescape, List.map_cons, ih]
    · exact other
    · exact other
  | case3 => rfl

theorem map_helperPlaces (vpsData : List UInt8) (n i zerocount : Nat) :
    (helperPlaces vpsData n i zerocount).map Prod.snd = helperOctets vpsData n i zerocount := by
  induction n generalizing i zerocount with
  | zero => rfl
  | succ n ih => simp only [helperPlaces, helperOctets, List.map_cons, ih]

/-- An emulation prevention begins with these octets. -/
def Escape (xs : List UInt8) : Prop := [0, 0, 3] <+: xs

/-- The next `n` octets are there, and their zeros come as 0 0 3; a zero that does not is the last
one before the last octet. -/
def Paired : Nat → List UInt8 → Prop
  | 0, _ => True
  | 1, 0 :: 0 :: 3 :: _ => True
  | n + 2, 0 :: 0 :: 3 :: rest => Paired n rest
  | n + 1, 0 :: rest => n ≤ rest.length ∧ 0 ∉ rest.take (n - 1)
  | n + 1, _ :: rest => Paired n rest
  | _ + 1, [] => False

theorem unescapeAt_other (i : Nat) (h : ¬ Escape (b :: rest)) :
    unescapeAt i (b :: rest) = (i, b) :: unescapeAt (i + 1) rest := by
  rw [unescapeAt]
  rintro rest' rfl rfl
  exact h ⟨rest', rfl⟩

/-- The octet with index `k` stands at `k` or further on. -/
theorem place_le (h : (unescapeAt i xs)[k]? = some e) : i + k ≤ e.1 := by
  induction i, xs using unescapeAt.induct generalizing k with
  | case1 i rest ih =>
    rw [unescapeAt] at h
    match k with
    | 0 => exact Option.some.inj h ▸ le_refl _
    | 1 => exact Option.some.inj h ▸ le_refl _
    | k + 2 =>
      have le := ih h
      omega
  | case2 i b rest other ih =>
    rw [unescapeAt] at h
    · match k with
      | 0 => exact Option.some.inj h ▸ le_refl _
      | k + 1 =>
        have le := ih h
        omega
    · exact other
  | case3 => exact nomatch h

theorem unescapeAt_drop (i : Nat) (h : ∀ j < m, ¬ Escape (xs.drop j)) :
    (unescapeAt i xs).drop m = unescapeAt (i + m) (xs.drop m) := by
  induction m generalizing i xs with
  | zero => rfl
  | succ m ih =>
    cases xs with
    | nil => rfl
    | cons b rest =>
      rw [unescapeAt_other i (h 0 (Nat.succ_pos m)), List.drop_succ_cons, List.drop_succ_cons,
        ih _ (fun j hj => h (j + 1) (Nat.succ_lt_succ hj)), Nat.add_right_comm, Nat.add_assoc]

/-- Behind an emulation prevention all octets stand further on. -/
theorem place_lt (h : Escape (xs.drop j)) (hj : j ≤ k) (hk : (unescapeAt i xs)[k + 2]? = some e) :
    i + (k + 2) < e.1 := by
  induction j generalizing i k xs with
  | zero =>
    obtain ⟨rest, rfl⟩ := h
    have le := place_le (show (unescapeAt (i + 3) rest)[k]? = some e from hk)
    omega
  | succ j ih =>
    cases xs with
    | nil => exact nomatch hk
    | cons b rest =>
      by_cases he : Escape (b :: rest)
      · obtain ⟨tail, he⟩ := he
        rw [← he] at hk
        have le := place_le (show (unescapeAt (i + 3) tail)[k]? = some e from hk)
        omega
      · obtain ⟨k, rfl⟩ := Nat.exists_eq_succ_of_ne_zero (show k ≠ 0 by omega)
        rw [unescapeAt_other i he] at hk
        have lt := ih h (by omega) (show (unescapeAt (i + 1) rest)[k + 2]? = some e from hk)
        omega

theorem head_unescapeAt (i : Nat) (xs : List UInt8) :
    (unescapeAt i xs).head? = xs.head?.map (i, ·) := by
  induction i, xs using unescapeAt.induct with
  | case1 => rfl
  | case2 i b rest other =>
    rw [unescapeAt]
    · rfl
    · exact other
  | case3 => rfl

theorem second_place (h : (unescapeAt i xs)[1]? = some e) : e.1 = i + 1 := by
  cases xs with
  | nil => exact nomatch h
  | cons b rest =>
    by_cases he : Escape (b :: rest)
    · obtain ⟨tail, he⟩ := he
      rw [← he] at h
      exact Option.some.inj h ▸ rfl
    · rw [unescapeAt_other i he, List.getElem?_cons_succ, ← List.head?_eq_getElem?, head_unescapeAt] at h
      obtain ⟨c, -, rfl⟩ := Option.map_eq_some_iff.mp h
      rfl

section window

variable {v stale : List UInt8}

theorem getD_of_drop (h : v.drop i = b :: rest) : v.getD i 0 = b := by
  have e := congrArg List.head? h
  rw [List.head?_drop, List.head?_cons] at e
  rw [List.getD_eq_getElem?_getD, e]
  rfl

theorem drop_of_drop (h : v.drop i = b :: rest) : v.drop (i + 1) = rest := by
  rw [← List.drop_drop, h]
  rfl

theorem helper_zero (h : v.getD i 0 = 0) (n : Nat) :
    helperPlaces v (n + 1) i 0 = (i, 0) :: helperPlaces v n (i + 1) 1 := by
  simp only [helperPlaces, helper3byteZeroNalunit, h, if_true, Nat.reduceAdd, Nat.reduceEqDiff, if_false]

theorem helper_skip (h : v.getD i 0 = 0) (n : Nat) :
    helperPlaces v (n + 1) i 1 = (i, 0) :: helperPlaces v n (i + 2) 0 := by
  simp only [helperPlaces, helper3byteZeroNalunit, h, if_true, Nat.reduceAdd]

theorem helper_other (h : v.getD i 0 ≠ 0) (n zerocount : Nat) :
    helperPlaces v (n + 1) i zerocount = (i, v.getD i 0) :: helperPlaces v n (i + 1) zerocount := by
  simp only [helperPlaces, helper3byteZeroNalunit, if_neg h]

theorem not_escape (h : b ≠ 0) (rest : List UInt8) : ¬ Escape (b :: rest) := by
  rintro ⟨tail, e⟩
  exact h (List.cons.inj e).1.symm

/-- After a zero that stands alone the helper steps over an octet at the next zero. -/
theorem open_iff {l : List UInt8} (h : v.drop i = l ++ stale) (m : Nat) :
    helperPlaces v m i 1 = (unescapeAt i l).take m ↔ m ≤ l.length ∧ 0 ∉ l.take (m - 1) := by
  induction m generalizing i l with
  | zero => simp [helperPlaces]
  | succ m ih =>
    cases l with
    | nil => simp [helperPlaces, unescapeAt]
    | cons c rest =>
      have here : v.getD i 0 = c := getD_of_drop h
      by_cases hc : c = 0
      · rw [helper_skip (here.trans hc)]
        have head := head_unescapeAt i (c :: rest)
        cases m with
        | zero =>
          refine iff_of_true ?_ ⟨by simp, by simp⟩
          rw [List.take_one, head, hc]
          rfl
        | succ m =>
          refine iff_of_false (fun e => ?_) (fun h => h.2 (by simp [hc]))
          have second := congrArg (·[1]?) e
          rw [List.getElem?_take_of_lt (by omega)] at second
          exact absurd (second_place second.symm) (by simp)
      · rw [helper_other (here ▸ hc), here, unescapeAt_other i (not_escape hc rest), List.take_succ_cons,
          List.cons.injEq, ih (drop_of_drop h)]
        cases m with
        | zero => simp
        | succ m => simp [Ne.symm hc]

theorem paired_iff {l : List UInt8} (h : v.drop i = l ++ stale) (n : Nat) :
    helperPlaces v n i 0 = (unescapeAt i l).take n ↔ Paired n l := by
  induction n, l using Paired.induct generalizing i with
  | case1 l => simp [helperPlaces, Paired]
  | case2 rest =>
    refine iff_of_true ?_ (by simp [Paired])
    rw [helper_zero (getD_of_drop h)]
    rfl
  | case3 n rest ih =>
    have h₁ := drop_of_drop h
    have h₂ := drop_of_drop (drop_of_drop h₁)
    rw [helper_zero (getD_of_drop h), helper_skip (getD_of_drop h₁), unescapeAt, Paired, ← ih h₂]
    simp [Nat.add_assoc]
  | case4 n rest one two =>
    have other : ¬ Escape (0 :: rest) := by
      rintro ⟨tail, e⟩
      have e : rest = 0 :: 3 :: tail := (List.cons.inj e).2.symm
      cases n with
      | zero => exact one tail rfl e
      | succ n => exact two n tail rfl e
    rw [helper_zero (getD_of_drop h), unescapeAt_other i other, List.take_succ_cons, List.cons.injEq,
      open_iff (drop_of_drop h), Paired]
    · simp
    · exact one
    · exact two
  | case5 n b rest one two hb ih =>
    have here : v.getD i 0 = b := getD_of_drop h
    rw [helper_other (here ▸ hb), here, unescapeAt_other i (not_escape hb rest), List.take_succ_cons,
      List.cons.injEq, ih (drop_of_drop h), Paired]
    · simp
    · exact one
    · exact two
    · exact hb
  | case6 n => simp [helperPlaces, unescapeAt, Paired]

end window

/-- The helper and the standard keep in step: no emulation prevention begins before the octets
read, and among them the zeros come as it expects. -/
structure InStep (vps : List UInt8) : Prop where
  before : ∀ i < 6, ¬ Escape (vps.drop i)
  paired : Paired 11 (vps.drop 6)

theorem places_iff (vps stale : List UInt8) :
    helperPlaces (vps ++ stale) 11 6 0 = ((unescapeAt 0 vps).drop 6).take 11 ↔ InStep vps := by
  have window : (vps ++ stale).drop 6 = vps.drop 6 ++ stale.drop (6 - vps.length) := List.drop_append
  have same (before : ∀ i < 6, ¬ Escape (vps.drop i)) :
      (unescapeAt 0 vps).drop 6 = unescapeAt 6 (vps.drop 6) := by
    rw [unescapeAt_drop 0 before]
  constructor
  · intro e
    have before : ∀ i < 6, ¬ Escape (vps.drop i) := by
      intro i hi he
      have second := congrArg (·[1]?) e
      rw [List.getElem?_take_of_lt (by decide), List.getElem?_drop] at second
      have lt : 0 + (5 + 2) < (helper3byteZeroNalunit (vps ++ stale) 6 0).1 :=
        place_lt he (show i ≤ 5 by omega) second.symm
      have seventh : (helper3byteZeroNalunit (vps ++ stale) 6 0).1 = 7 := by
        rw [helper3byteZeroNalunit]
        split <;> rfl
      omega
    rw [same before, paired_iff window] at e
    exact ⟨before, e⟩
  · rintro ⟨before, paired⟩
    rwa [same before, paired_iff window]

/-- The eleven octets. -/
def HvcC.profile (h : HvcC) : List UInt8 :=
  h.bGeneralProfile :: h.bGeneralProfileCompatibilityFlags ++ h.bGeneralConstraintIndicatorFlags

theorem profile_eq (mp4a : TMp4Data) :
    (enxMp4HeaderHvcc mp4a).profile = helperOctets mp4a.vpsData 11 6 0 := by
  obtain ⟨x, xs, e⟩ : ∃ x xs, helperOctets mp4a.vpsData 11 6 0 = x :: xs := ⟨_, _, rfl⟩
  rw [HvcC.profile, enxMp4HeaderHvcc]
  dsimp only
  rw [e]
  exact congrArg (x :: ·) (List.take_append_drop 4 xs)

/-- The octets of `hvcC` are read at the places of the standard's exactly if the two keep in
step; then they are those octets. -/
theorem hvcc_profile (mp4a : TMp4Data) :
    (helperPlaces mp4a.vpsData 11 6 0 =
        ((unescapeAt 0 (mp4a.vpsData.take mp4a.vpsSize)).drop 6).take 11 ↔
      InStep (mp4a.vpsData.take mp4a.vpsSize)) ∧
    (InStep (mp4a.vpsData.take mp4a.vpsSize) → (enxMp4HeaderHvcc mp4a).profile =
      ((unescape (mp4a.vpsData.take mp4a.vpsSize)).drop 6).take 11) := by
  have iff := places_iff (mp4a.vpsData.take mp4a.vpsSize) (mp4a.vpsData.drop mp4a.vpsSize)
  rw [List.take_append_drop] at iff
  refine ⟨iff, fun step => ?_⟩
  rw [profile_eq, ← map_helperPlaces, iff.mpr step, List.map_take, List.map_drop, map_unescapeAt]

/-- No start code, nor what would need another octet before it. -/
def Prevented (nal : List UInt8) : Prop := ∀ b ∈ [0, 1, 2], ¬ [0, 0, b] <:+: nal

instance (nal : List UInt8) : Decidable (Prevented nal) :=
  inferInstanceAs (Decidable (∀ b ∈ [0, 1, 2], _))

/-- An emulation prevention before the octets read. -/
def earlyVps : List UInt8 :=
  [0x40, 0x01, 0x0c, 0x00, 0x00, 0x03, 0x01, 0x01, 0x60, 0x40, 0x20, 0x10, 0x90, 0x80, 0x70, 0x60, 0x50, 0x5d,
    0x09]

/-- Two zeros that need no emulation prevention. -/
def plainVps : List UInt8 :=
  [0x40, 0x01, 0x0c, 0x01, 0xff, 0xff, 0x01, 0x60, 0x00, 0x00, 0x80, 0x40, 0x90, 0x80, 0x70, 0x60, 0x50, 0x5d,
    0x09]

/-- The `t_mp4_t` that keeps a VPS. -/
def keptVps (vps : List UInt8) : TMp4Data :=
  { mp4infoInit with vpsSize := vps.length, vpsData := vps ++ List.replicate (32 - vps.length) 0 }

/-- The VPS is one the encoder may give, and `hvcC` does not get its octets. -/
def Misread (vps : List UInt8) : Prop :=
  17 ≤ vps.length ∧ Prevented vps ∧
    (enxMp4HeaderHvcc (keptVps vps)).profile ≠ ((unescape vps).drop 6).take 11

instance (vps : List UInt8) : Decidable (Misread vps) := inferInstanceAs (Decidable (_ ∧ _ ∧ _))

theorem hvcc_profile_unlike : Misread hevcVps ∧ Misread earlyVps ∧ Misread plainVps := by
  decide +kernel

end En675.Videnc
