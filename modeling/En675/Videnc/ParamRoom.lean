import En675.Videnc.Mp4

/-! The parameter sets of the first I frame are copied into arrays smaller than the windows
they are searched in.  Which frames have room in them. -/

namespace En675.Videnc

open Lib Lib.AnnexB

/-- `q` stands behind the first start code of the `w` octets from `p` on. -/
structure FirstCode (m : Mem) (p w q : Nat) : Prop where
  behind : p + 3 ≤ q
  within : q ≤ p + w
  code : m.read (q - 3) 3 = nalStart
  first : ∀ r, p + 3 ≤ r → r < q → m.read (r - 3) 3 ≠ nalStart

/-- The octets from `a` to the start code before `b` are not all zero, and from the `n`th on
they are. -/
structure Room (m : Mem) (a b n : Nat) : Prop where
  unit : ∃ i, a + i + 3 < b ∧ m (a + i) ≠ 0
  room : ∀ i, n ≤ i → a + i + 3 < b → m (a + i) = 0

/-- The units from `p` on, each as far as the next start code of its window, have room in
arrays of these sizes. -/
def Roomy (m : Mem) : Nat → List Nat → List Nat → Prop
  | p, w :: windows, n :: arrays => ∀ q, FirstCode m p w q → Room m p q n ∧ Roomy m q windows arrays
  | _, _, _ => True

/-- `sps_data` and `pps_data`; `vps_data` before them. -/
def h264Arrays : List Nat := [64, 8]

def h265Arrays : List Nat := [32, 64, 8]

/-- The trimming loops end inside the parameter sets, and the sizes they leave are those of
the arrays at most. -/
def ParamsStay (m : Mem) (addr : Nat) (windows arrays : List Nat) : Prop :=
  ∃ sizes, paramSizes m (nalStarts m (some addr) windows) = some sizes ∧
    List.Forall₂ (· ≤ ·) sizes arrays

variable {m : Mem}

theorem memstrFrom_iff : memstrFrom m nalStart n p = some q ↔ FirstCode m p (n + 2) q := by
  induction n generalizing p with
  | zero => exact iff_of_false nofun (fun h => by have := h.behind; have := h.within; omega)
  | succ n ih =>
    rw [memstrFrom]
    split
    next here =>
      have here : m.read p 3 = nalStart := here
      constructor
      · intro h
        obtain rfl : p + 3 = q := Option.some.inj h
        exact ⟨le_refl _, by omega, here, fun r h₁ h₂ => absurd h₁ (by omega)⟩
      · intro h
        have behind := h.behind
        rcases Nat.eq_or_lt_of_le behind with e | lt
        · exact congrArg some e
        · exact absurd here (h.first (p + 3) (le_refl _) lt)
    next other =>
      have other : m.read p 3 ≠ nalStart := other
      rw [ih]
      constructor
      · intro h
        refine ⟨by have := h.behind; omega, by have := h.within; omega, h.code, fun r h₁ h₂ => ?_⟩
        rcases Nat.eq_or_lt_of_le h₁ with rfl | lt
        · exact other
        · exact h.first r (by omega) h₂
      · intro h
        have behind : p + 3 ≠ q := by
          rintro rfl
          exact other h.code
        exact ⟨by have := h.behind; omega, by have := h.within; omega, h.code,
          fun r h₁ h₂ => h.first r (by omega) h₂⟩

theorem enxMemstr_iff (hw : 2 ≤ w) : enxMemstr m (some p) w nalStart = some q ↔ FirstCode m p w q := by
  rw [enxMemstr, memstrFrom_iff, show w + 1 - nalStart.length + 2 = w by simp [nalStart]; omega]

theorem trimZeros_iff (m : Mem) (a n cap : Nat) : (∃ k, trimZeros m a n = some k ∧ k ≤ cap) ↔
    (∃ i, i < n ∧ m (a + i) ≠ 0) ∧ ∀ i, cap ≤ i → i < n → m (a + i) = 0 := by
  induction n with
  | zero => exact iff_of_false (fun ⟨k, h, _⟩ => nomatch h) (fun ⟨⟨i, h, _⟩, _⟩ => absurd h (by omega))
  | succ n ih =>
    rw [trimZeros]
    split
    next zero =>
      rw [ih]
      constructor
      · rintro ⟨⟨i, hi, ne⟩, rest⟩
        refine ⟨⟨i, by omega, ne⟩, fun j h₁ h₂ => ?_⟩
        rcases Nat.eq_or_lt_of_le (Nat.lt_succ_iff.mp h₂) with rfl | lt
        · exact zero
        · exact rest j h₁ lt
      · rintro ⟨⟨i, hi, ne⟩, rest⟩
        have ni : i ≠ n := by
          rintro rfl
          exact ne zero
        exact ⟨⟨i, by omega, ne⟩, fun j h₁ h₂ => rest j h₁ (by omega)⟩
    next ne =>
      constructor
      · rintro ⟨k, h, le⟩
        obtain rfl := Option.some.inj h
        exact ⟨⟨n, by omega, ne⟩, fun i h₁ h₂ => absurd h₁ (by omega)⟩
      · rintro ⟨-, rest⟩
        refine ⟨n + 1, rfl, ?_⟩
        by_contra small
        exact ne (rest n (by omega) (by omega))

/-- The trimming of the unit between two start codes. -/
theorem room_iff (h : FirstCode m a w b) (cap : Nat) :
    (∃ k, trimZeros m a (b - a - 3) = some k ∧ k ≤ cap) ↔ Room m a b cap := by
  have behind := h.behind
  rw [trimZeros_iff]
  constructor
  · rintro ⟨⟨i, hi, ne⟩, rest⟩
    exact ⟨⟨i, by omega, ne⟩, fun j h₁ h₂ => rest j h₁ (by omega)⟩
  · rintro ⟨⟨i, hi, ne⟩, rest⟩
    exact ⟨⟨i, by omega, ne⟩, fun j h₁ h₂ => rest j h₁ (by omega)⟩

/-- No start code, no size. -/
theorem paramSizes_missing (m : Mem) (start : Option Nat) (w : Nat) (windows : List Nat) :
    paramSizes m (start :: nalStarts m none (w :: windows)) =
      some (List.replicate (windows.length + 1) 0) := by
  induction windows generalizing start w with
  | nil => cases start <;> rfl
  | cons v windows ih =>
    rw [nalStarts]
    cases start <;> simp only [paramSizes, enxMemstr, ih] <;> rfl

theorem zeros_le (arrays : List Nat) :
    List.Forall₂ (· ≤ ·) (List.replicate arrays.length 0) arrays := by
  induction arrays with
  | nil => exact .nil
  | cons n arrays ih => exact .cons (Nat.zero_le n) ih

/-- The first unit, and those behind it. -/
theorem paramSizes_cons (m : Mem) (p q : Nat) (starts : List (Option Nat)) (n : Nat) (arrays : List Nat) :
    (∃ sizes, paramSizes m (some p :: some q :: starts) = some sizes ∧
      List.Forall₂ (· ≤ ·) sizes (n :: arrays)) ↔
    (∃ k, trimZeros m p (q - p - 3) = some k ∧ k ≤ n) ∧
      ∃ sizes, paramSizes m (some q :: starts) = some sizes ∧ List.Forall₂ (· ≤ ·) sizes arrays := by
  rw [paramSizes]
  simp only [Option.bind_eq_bind, Option.bind_eq_some_iff, Option.some.injEq, Option.pure_def]
  constructor
  · rintro ⟨_, ⟨k, hk, sizes, hs, rfl⟩, h⟩
    obtain ⟨le, rest⟩ := List.forall₂_cons.mp h
    exact ⟨⟨k, hk, le⟩, sizes, hs, rest⟩
  · rintro ⟨⟨k, hk, le⟩, sizes, hs, rest⟩
    exact ⟨k :: sizes, ⟨k, hk, sizes, hs, rfl⟩, .cons le rest⟩

theorem roomy_iff {windows arrays : List Nat} (len : windows.length = arrays.length)
    (wide : ∀ w ∈ windows, 2 ≤ w) (p : Nat) :
    (∃ sizes, paramSizes m (some p :: nalStarts m (some p) windows) = some sizes ∧
      List.Forall₂ (· ≤ ·) sizes arrays) ↔ Roomy m p windows arrays := by
  induction windows generalizing arrays p with
  | nil =>
    obtain rfl := List.length_eq_zero_iff.mp len.symm
    exact iff_of_true ⟨[], rfl, .nil⟩ trivial
  | cons w windows ih =>
    obtain ⟨n, arrays, rfl⟩ := List.exists_cons_of_length_eq_add_one len.symm
    have search q := enxMemstr_iff (m := m) (p := p) (q := q) (wide w List.mem_cons_self)
    rw [nalStarts]
    cases hs : enxMemstr m (some p) w nalStart with
    | none =>
      rw [hs] at search
      refine iff_of_true ⟨_, paramSizes_missing m (some p) w windows, ?_⟩ fun q h => ?_
      · have zeros := zeros_le (n :: arrays)
        rwa [← len] at zeros
      · cases (search q).mpr h
    | some q =>
      have here := (search q).mp hs
      have only r (h : FirstCode m p w r) : q = r := Option.some.inj (hs.symm.trans ((search r).mpr h))
      rw [paramSizes_cons, room_iff here,
        ih (Nat.succ.inj len) (fun v hv => wide v (List.mem_cons_of_mem _ hv)) q]
      constructor
      · rintro both r hr
        obtain rfl := only r hr
        exact both
      · exact fun h => h q here

/-- The same from the start of the frame, with the search for the first unit. -/
theorem paramsStay_iff {windows arrays : List Nat} (len : windows.length = arrays.length)
    (wide : ∀ w ∈ windows, 2 ≤ w) (addr : Nat) : ParamsStay m addr (32 :: windows) arrays ↔
      ∀ p, FirstCode m addr 32 p → Roomy m p windows arrays := by
  have search p := enxMemstr_iff (m := m) (p := addr) (q := p) (show 2 ≤ 32 by decide)
  rw [ParamsStay, nalStarts]
  cases hs : enxMemstr m (some addr) 32 nalStart with
  | none =>
    rw [hs] at search
    refine iff_of_true ?_ fun p h => by cases (search p).mpr h
    cases windows with
    | nil =>
      obtain rfl := List.length_eq_zero_iff.mp len.symm
      exact ⟨[], rfl, .nil⟩
    | cons w windows =>
      refine ⟨_, paramSizes_missing m none w windows, ?_⟩
      have zeros := zeros_le arrays
      rwa [← len] at zeros
  | some p =>
    have here := (search p).mp hs
    have only r (h : FirstCode m addr 32 r) : p = r := Option.some.inj (hs.symm.trans ((search r).mpr h))
    rw [roomy_iff len wide]
    constructor
    · rintro roomy r hr
      obtain rfl := only r hr
      exact roomy
    · exact fun h => h p here

section copies

variable {array : List UInt8} {start : Option Nat} {size : Nat}

/-- A parameter set that was found and has room is copied. -/
theorem copyParam_room (m : Mem) (found : size ≠ 0 → start ≠ none) (room : size ≤ array.length)
    (small : array.length < 2 ^ 16) :
    ∃ array', copyParam m array start size = some (size, array') ∧ array'.length = array.length := by
  simp only [copyParam, Nat.mod_eq_of_lt (show size < 2 ^ 16 by omega)]
  by_cases h0 : size = 0
  · exact ⟨array, by rw [if_pos h0, h0], rfl⟩
  · obtain ⟨a, rfl⟩ := Option.ne_none_iff_exists'.mp (found h0)
    refine ⟨m.read a size ++ array.drop size, by simp only [if_neg h0, if_pos room], ?_⟩
    rw [List.length_append, Mem.length_read, List.length_drop]
    omega

theorem paramSizes_found {starts : List (Option Nat)} {sizes : List Nat}
    (h : paramSizes m starts = some sizes) :
    List.Forall₂ (fun size start => size ≠ 0 → start ≠ none) sizes starts.dropLast := by
  induction starts using paramSizes.induct generalizing sizes with
  | case1 a b rest ih =>
    rw [paramSizes] at h
    simp only [Option.bind_eq_bind, Option.bind_eq_some_iff, Option.some.injEq, Option.pure_def] at h
    obtain ⟨n, -, ns, hns, rfl⟩ := h
    exact .cons (by rintro _ ⟨⟩) (ih hns)
  | case2 a b rest other ih =>
    rw [paramSizes] at h
    · simp only [Option.bind_eq_bind, Option.bind_eq_some_iff, Option.some.injEq, Option.pure_def] at h
      obtain ⟨ns, hns, rfl⟩ := h
      exact .cons (fun h => absurd rfl h) (ih hns)
    · exact other
  | case3 starts _ two =>
    rcases starts with - | ⟨a, - | ⟨b, rest⟩⟩
    · exact Option.some.inj h ▸ .nil
    · have h : some [] = some sizes := by
        rw [← h]
        cases a <;> rfl
      exact Option.some.inj h ▸ .nil
    · exact absurd rfl (two a b rest)

variable {info : TMp4Data}

theorem keepH264_room (m : Mem) {sps pps : Option Nat} {n k : Nat} (arrays : Arrays info)
    (fn : n ≠ 0 → sps ≠ none) (fk : k ≠ 0 → pps ≠ none) (hn : n ≤ 64) (hk : k ≤ 8)
    (starts : List (Option Nat)) (sizes : List Nat) :
    ∃ info', keepH264 m info (sps :: pps :: starts) (n :: k :: sizes) = some info' ∧ Arrays info' := by
  obtain ⟨spsData, es, ls⟩ := copyParam_room m fn (arrays.sps ▸ hn) (by rw [arrays.sps]; decide)
  obtain ⟨ppsData, ep, lp⟩ := copyParam_room m fk (arrays.pps ▸ hk) (by rw [arrays.pps]; decide)
  refine ⟨{ info with spsSize := n, spsData := spsData, ppsSize := k, ppsData := ppsData }, ?_,
    ⟨arrays.vps, ls.trans arrays.sps, lp.trans arrays.pps⟩⟩
  simp only [keepH264, es, ep, Option.bind_eq_bind, Option.bind_some]
  rfl

/-- With room for them all, the copies are made and the arrays keep their sizes. -/
theorem ParamsStay.h264 (h : ParamsStay m addr h264Windows h264Arrays) (arrays : Arrays info)
    (last : Nat) : ∃ sizes info', paramSizes m (nalStarts m (some addr) h264Windows) = some sizes ∧
      keepH264 m info (nalStarts m (some addr) h264Windows) (sizes ++ [last]) = some info' ∧
      Arrays info' := by
  obtain ⟨sizes, hs, le⟩ := h
  have found := paramSizes_found hs
  obtain ⟨sps, pps, ifr, e⟩ : ∃ sps pps ifr, nalStarts m (some addr) h264Windows = [sps, pps, ifr] :=
    ⟨_, _, _, rfl⟩
  rw [e] at found hs ⊢
  obtain _ | ⟨hn, _ | ⟨hk, _ | _⟩⟩ := le
  obtain _ | ⟨fn, _ | ⟨fk, _⟩⟩ := found
  obtain ⟨info', kept, arrays'⟩ := keepH264_room m arrays fn fk hn hk [ifr] [last]
  exact ⟨_, info', hs, kept, arrays'⟩

theorem ParamsStay.h265 (h : ParamsStay m addr h265Windows h265Arrays) (arrays : Arrays info)
    (last : Nat) : ∃ sizes info', paramSizes m (nalStarts m (some addr) h265Windows) = some sizes ∧
      keepH265 m info (nalStarts m (some addr) h265Windows) (sizes ++ [last]) = some info' ∧
      Arrays info' := by
  obtain ⟨sizes, hs, le⟩ := h
  have found := paramSizes_found hs
  obtain ⟨vps, sps, pps, ifr, e⟩ : ∃ vps sps pps ifr,
      nalStarts m (some addr) h265Windows = [vps, sps, pps, ifr] := ⟨_, _, _, _, rfl⟩
  rw [e] at found hs ⊢
  obtain _ | ⟨hv, _ | ⟨hn, _ | ⟨hk, _ | _⟩⟩⟩ := le
  obtain _ | ⟨fv, _ | ⟨fn, _ | ⟨fk, _⟩⟩⟩ := found
  obtain ⟨vpsData, ev, lv⟩ := copyParam_room m fv (arrays.vps ▸ hv) (by rw [arrays.vps]; decide)
  have filled v : Arrays { info with vpsSize := v, vpsData := vpsData } :=
    ⟨lv.trans arrays.vps, arrays.sps, arrays.pps⟩
  obtain ⟨info', kept, arrays'⟩ := keepH264_room m (filled _) fn fk hn hk [ifr] [last]
  refine ⟨_, info', hs, ?_, arrays'⟩
  simp only [List.cons_append, List.nil_append, keepH265, ev, Option.bind_eq_bind, Option.bind_some]
  exact kept

end copies

/-- The parameter sets of an I frame stay in their arrays exactly if every one that ends in a
start code found has an octet other than zero, and none beyond its array. -/
theorem params_stay_iff (m : Mem) (addr : Nat) :
    (ParamsStay m addr h264Windows h264Arrays ↔
      ∀ p, FirstCode m addr 32 p → Roomy m p [16, 16] h264Arrays) ∧
    (ParamsStay m addr h265Windows h265Arrays ↔
      ∀ p, FirstCode m addr 32 p → Roomy m p [64, 128, 16] h265Arrays) :=
  ⟨paramsStay_iff (show [16, 16].length = h264Arrays.length from rfl) (by decide) addr,
    paramsStay_iff (show [64, 128, 16].length = h265Arrays.length from rfl) (by decide) addr⟩

/-- A PPS of nine octets. -/
def longPps : List UInt8 :=
  annexB [(1, [0x67, 0x4d, 0x20, 0x1f]), (1, [0x68, 0xee, 0x3c, 0x80, 0x11, 0x22, 0x33, 0x44, 0x55]),
    (1, [0x65, 0x88])]

/-- A PPS of no octets. -/
def emptyPps : List UInt8 := annexB [(1, [0x67, 0x4d, 0x20, 0x1f]), (0, []), (0, [0x65, 0x88])]

/-- A VPS of 33 octets. -/
def longVps : List UInt8 :=
  annexB [(1, 0x40 :: List.replicate 32 0x11), (1, [0x42, 0x01]), (1, [0x44, 0x01]), (1, [0x26, 0x01])]

theorem params_stray :
    ¬ ParamsStay (Mem.ofList longPps) 0 h264Windows h264Arrays ∧
    ¬ ParamsStay (Mem.ofList emptyPps) 0 h264Windows h264Arrays ∧
    ¬ ParamsStay (Mem.ofList longVps) 0 h265Windows h265Arrays := by
  have long : paramSizes (Mem.ofList longPps) (nalStarts (Mem.ofList longPps) (some 0) h264Windows) =
      some [4, 9] := by decide
  have empty : paramSizes (Mem.ofList emptyPps) (nalStarts (Mem.ofList emptyPps) (some 0) h264Windows) =
      none := by decide
  have vps : paramSizes (Mem.ofList longVps) (nalStarts (Mem.ofList longVps) (some 0) h265Windows) =
      some [33, 2, 2] := by decide
  refine ⟨?_, ?_, ?_⟩
  · rintro ⟨sizes, hs, le⟩
    obtain rfl := Option.some.inj (long.symm.trans hs)
    exact absurd le (by decide)
  · rintro ⟨sizes, hs, -⟩
    exact nomatch empty.symm.trans hs
  · rintro ⟨sizes, hs, le⟩
    obtain rfl := Option.some.inj (vps.symm.trans hs)
    exact absurd le (by decide)

end En675.Videnc
