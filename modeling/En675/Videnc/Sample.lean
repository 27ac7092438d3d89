import En675.Videnc.Write

/-! A frame whose start codes all lie in their search windows is added to the file as
its NAL units, each behind its length. -/

namespace En675.Videnc

open Lib Lib.AnnexB

/-- An MP4 sample: the NAL units, each behind a four-octet length. -/
def sampleOf (nals : List (List UInt8)) : List UInt8 := nals.flatMap (fun n => be 4 n.length ++ n)

/-- Each start code ends inside the window that opens behind the previous one; `n` octets of
unit come first. -/
def Fits : List Nat → Nat → List (Nat × List UInt8) → Prop
  | [], _, [] => True
  | w :: ws, n, (z, nal) :: l => n + z + 3 ≤ w ∧ Fits ws nal.length l
  | _, _, _ => False

/-- Where the units of `annexB l` start when it lies at `p`. -/
def unitStarts : Nat → List (Nat × List UInt8) → List (Option Nat)
  | _, [] => []
  | p, (z, nal) :: l => some (p + z + 3) :: unitStarts (p + z + 3 + nal.length) l

theorem read_code {m : Mem} (h : m.Holds p (xs ++ ([0, 0, 1] ++ ys))) (hn : NoCode xs ([0, 0, 1] ++ ys)) :
    memstrFrom m nalStart (xs.length + n + 1) p = some (p + xs.length + 3) := by
  induction xs generalizing p with
  | nil =>
    have code : m.read p 3 = [0, 0, 1] := by
      rw [h.read_take (by simp)]
      rfl
    rw [memstrFrom, if_pos (by simpa [nalStart] using code)]
    rfl
  | cons x xs ih =>
    have other : ¬ m.read p nalStart.length = nalStart := by
      intro e
      rw [h.read_take (by simp [nalStart]; omega)] at e
      exact hn 0 (by simp) (List.prefix_iff_eq_take.mpr e.symm)
    rw [List.length_cons, show xs.length + 1 + n + 1 = (xs.length + n + 1) + 1 by omega, memstrFrom,
      if_neg other, ih h.tail hn.tail]
    congr 1
    omega

theorem nalStarts_eq {m : Mem} (h : m.Holds p (nal ++ annexB l)) (hn : Plain nal)
    (hl : ∀ u ∈ l, Plain u.2) (hf : Fits ws nal.length l) :
    nalStarts m (some p) ws = unitStarts (p + nal.length) l := by
  induction ws generalizing p nal l with
  | nil =>
    cases l with
    | nil => rfl
    | cons u l => exact hf.elim
  | cons w ws ih =>
    cases l with
    | nil => exact hf.elim
    | cons u l =>
      obtain ⟨z, nal'⟩ := u
      obtain ⟨hw, hf⟩ := hf
      have lead : nal ++ annexB ((z, nal') :: l) =
          (nal ++ List.replicate z 0) ++ ([0, 0, 1] ++ (nal' ++ annexB l)) := by
        simp [annexB]
      rw [lead] at h
      have found := read_code (n := w - (nal.length + z + 3)) h
        ((hn.noCode _).append (noCode_zeros z _))
      rw [List.length_append, List.length_replicate] at found
      have tail := (Mem.Holds.append.mp (Mem.Holds.append.mp h).2).2
      have e : enxMemstr m (some p) w nalStart = some (p + nal.length + z + 3) := by
        rw [← Nat.add_assoc p, show nal.length + z + (w - (nal.length + z + 3)) + 1 =
          w + 1 - nalStart.length by simp [nalStart]; omega] at found
        exact found
      rw [nalStarts, e, unitStarts]
      congr 1
      rw [← ih _ (hl _ List.mem_cons_self) (fun v hv => hl v (List.mem_cons_of_mem _ hv)) hf]
      rw [List.length_append, List.length_replicate] at tail
      rw [show p + nal.length + z + 3 = p + (nal.length + z) + [0, 0, 1].length by simp; omega]
      exact tail

theorem trimZeros_eq {m : Mem} {nal : List UInt8} (h : m.Holds a (nal ++ List.replicate z 0))
    (hne : nal ≠ []) (hl : nal.getLast? ≠ some 0) :
    trimZeros m a (nal.length + z) = some nal.length := by
  induction z with
  | zero =>
    obtain ⟨n, hn⟩ : ∃ n, nal.length = n + 1 :=
      Nat.exists_eq_succ_of_ne_zero (List.length_pos_iff.mpr hne).ne'
    rw [Nat.add_zero, hn, trimZeros, if_neg]
    intro h0
    rw [h.get (by simp [hn]), List.getElem_append_left (by omega)] at h0
    apply hl
    rw [List.getLast?_eq_getElem?, hn, Nat.add_sub_cancel, List.getElem?_eq_getElem (by omega), h0]
  | succ z ih =>
    have last : m (a + (nal.length + z)) = 0 := by
      rw [h.get (by simp), List.getElem_append_right (by omega)]
      simp
    rw [List.replicate_succ', ← List.append_assoc] at h
    rw [← Nat.add_assoc, trimZeros, if_pos last]
    exact ih (Mem.Holds.append.mp h).1

theorem paramSizes_eq {m : Mem} (h : m.Holds p (annexB l)) (hl : ∀ u ∈ l, Plain u.2 ∧ u.2 ≠ []) :
    paramSizes m (unitStarts p l) = some (l.map (fun u => u.2.length)).dropLast := by
  induction l generalizing p with
  | nil => rfl
  | cons u l ih =>
    obtain ⟨z, nal⟩ := u
    cases l with
    | nil => rfl
    | cons v l =>
      obtain ⟨z', nal'⟩ := v
      obtain ⟨hu, hne⟩ := hl _ List.mem_cons_self
      have unit := (Mem.Holds.append.mp (Mem.Holds.append.mp h).2).2
      rw [List.length_replicate, List.length_cons, List.length_cons, List.length_cons,
        List.length_nil] at unit
      have rest := (Mem.Holds.append.mp unit).2
      have zeros : m.Holds (p + z + 3) (nal ++ List.replicate z' 0) := by
        rw [annexB, ← List.append_assoc] at unit
        exact (Mem.Holds.append.mp unit).1
      have tail := ih rest (fun w hw => hl w (List.mem_cons_of_mem _ hw))
      simp only [unitStarts] at tail ⊢
      rw [paramSizes, show p + z + 3 + nal.length + z' + 3 - (p + z + 3) - 3 = nal.length + z' by omega,
        trimZeros_eq zeros hne hu.last]
      simp only [Option.bind_eq_bind, Option.bind_some, tail]
      rfl

theorem length_annexB_cons (z : Nat) (nal : List UInt8) (l : List (Nat × List UInt8)) :
    (annexB ((z, nal) :: l)).length = z + 3 + nal.length + (annexB l).length := by
  simp [annexB]
  omega

/-- The last unit runs to the end of the frame. -/
theorem frameSize_eq (hl : l ≠ []) (hk : k ≤ p) (hs : p + (annexB l).length - k < 2 ^ 32) :
    frameSize k (p + (annexB l).length - k) (unitStarts p l).getLast?.join =
      (l.getLast hl).2.length := by
  induction l generalizing p with
  | nil => exact absurd rfl hl
  | cons u l ih =>
    obtain ⟨z, nal⟩ := u
    rw [length_annexB_cons] at hs ⊢
    cases l with
    | nil =>
      change usub _ (p + z + 3 - k) = nal.length
      rw [usub_of_le _ hs]
      · simp only [annexB, List.length_nil]
        omega
      · omega
    | cons v l =>
      rw [List.getLast_cons (by simp), ← ih (by simp) (p := p + z + 3 + nal.length) (by omega) (by omega),
        show p + (z + 3 + nal.length + (annexB (v :: l)).length) - k =
          p + z + 3 + nal.length + (annexB (v :: l)).length - k by omega]
      rfl

theorem vidswapSB32_octets (n : Nat) :
    vidswapSB32 n % 256 = n / 2 ^ 24 % 256 ∧ vidswapSB32 n / 2 ^ 8 % 256 = n / 2 ^ 16 % 256 ∧
      vidswapSB32 n / 2 ^ 16 % 256 = n / 2 ^ 8 % 256 ∧ vidswapSB32 n / 2 ^ 24 % 256 = n % 256 := by
  unfold vidswapSB32
  have h₀ : n % 256 < 256 := Nat.mod_lt _ (by decide)
  have h₁ : n / 2 ^ 8 % 256 < 256 := Nat.mod_lt _ (by decide)
  have h₂ : n / 2 ^ 16 % 256 < 256 := Nat.mod_lt _ (by decide)
  have h₃ : n / 2 ^ 24 % 256 < 256 := Nat.mod_lt _ (by decide)
  generalize n % 256 = a at *
  generalize n / 2 ^ 8 % 256 = b at *
  generalize n / 2 ^ 16 % 256 = c at *
  generalize n / 2 ^ 24 % 256 = d at *
  omega

/-- A swapped word lies in memory in network order. -/
@[simp] theorem read_wordPtr (n : Nat) : (wordPtr (vidswapSB32 n)).read 4 = be 4 n := by
  have octet (a b : Nat) (h : a % 256 = b % 256) : UInt8.ofNat a = UInt8.ofNat b := by
    rw [← UInt8.toNat_inj]
    simpa using h
  obtain ⟨h₀, h₁, h₂, h₃⟩ := vidswapSB32_octets n
  simp only [Ptr.read, Mem.read, wordPtr, be, List.nil_append, List.cons_append, Nat.reduceAdd,
    Nat.reducePow, Nat.div_one, Nat.div_div_eq_div_mul, Nat.reduceMul] at h₀ h₁ h₂ h₃ ⊢
  rw [octet _ _ h₀, octet _ _ h₁, octet _ _ h₂, octet _ _ h₃]

theorem vidswapSB32_vidswapSB32 (h : n < 2 ^ 32) : vidswapSB32 (vidswapSB32 n) = n := by
  obtain ⟨h₀, h₁, h₂, h₃⟩ := vidswapSB32_octets n
  rw [vidswapSB32, h₀, h₁, h₂, h₃]
  omega

theorem memPtr_read (m : Mem) (a n : Nat) : (memPtr m a).read n = m.read a n := by
  apply List.ext_getElem (by simp)
  intro i _ _
  simp [Ptr.read, Mem.getElem_read, memPtr]

theorem int32_eq (h : n < 2 ^ 31) : int32 n = n := by
  unfold int32 asInt
  have e : n % 2 ^ 32 = n := Nat.mod_eq_of_lt (by omega)
  rw [e, if_pos h]
  omega

/-- One NAL unit is added behind its length. -/
theorem addNal_added {m : Mem} {k : Sink} (h : k.Appends) (hs : k.filesize < 2 ^ 32)
    (held : m.Holds a nal) (hn : nal.length < 2 ^ 31) :
    ∃ k', addNal m k (some a) nal.length = some k' ∧ Sink.Added k (be 4 nal.length ++ nal) k' := by
  obtain ⟨k₁, e₁, added₁⟩ := Sink.bufferadd_added h hs (wordPtr (vidswapSB32 nal.length)) 4
  obtain ⟨k₂, e₂, added₂⟩ := Sink.bufferadd_added added₁.appends added₁.lt (memPtr m a) nal.length
  rw [read_wordPtr] at added₁
  rw [memPtr_read, held] at added₂
  refine ⟨k₂, ?_, added₁.trans added₂⟩
  rw [addNal, int32_eq hn]
  change (k.muxerVidencBufferadd _ ((4 : Nat) : Int)).bind _ = _
  rw [e₁]
  exact e₂

/-- Where the start code was not found, the source flushes and only the length is added. -/
theorem addNal_missing {m : Mem} {k : Sink} (h : k.Appends) (hs : k.filesize < 2 ^ 32) (n : Nat) :
    ∃ k', addNal m k none n = some k' ∧ Sink.Added k (be 4 n) k' := by
  obtain ⟨k₁, e₁, added⟩ := Sink.bufferadd_added h hs (wordPtr (vidswapSB32 n)) 4
  rw [read_wordPtr] at added
  have flush := Sink.flush_appends added.appends.atEnd
  refine ⟨k₁.muxerVidencBufferflush, ?_, ⟨?_, ?_⟩, flush.1.trans added.written, added.filesize, added.total⟩
  · change (k.muxerVidencBufferadd _ ((4 : Nat) : Int)).bind _ = _
    rw [e₁]
    rfl
  · rw [flush.2.2, flush.2.1]
  · exact Nat.zero_lt_of_lt added.appends.room

theorem addNals_added {m : Mem} {k : Sink} (h : k.Appends) (hs : k.filesize < 2 ^ 32)
    (held : m.Holds p (annexB l)) (hn : (annexB l).length < 2 ^ 31) :
    ∃ k', addNals m k (unitStarts p l) (l.map (fun u => u.2.length)) = some k' ∧
      Sink.Added k (sampleOf (l.map Prod.snd)) k' := by
  induction l generalizing k p with
  | nil => exact ⟨k, rfl, h, by simp [sampleOf], by simpa [sampleOf] using (Nat.mod_eq_of_lt hs).symm, rfl⟩
  | cons u l ih =>
    obtain ⟨z, nal⟩ := u
    rw [length_annexB_cons] at hn
    have unit := (Mem.Holds.append.mp (Mem.Holds.append.mp held).2).2
    rw [List.length_replicate, List.length_cons, List.length_cons, List.length_cons,
      List.length_nil] at unit
    obtain ⟨here, rest⟩ := Mem.Holds.append.mp unit
    obtain ⟨k₁, e₁, added₁⟩ := addNal_added h hs here (by omega)
    obtain ⟨k₂, e₂, added₂⟩ := ih added₁.appends added₁.lt rest (by omega)
    refine ⟨k₂, ?_, added₁.trans added₂⟩
    simp only [unitStarts, List.map_cons, addNals]
    rw [show p + z + 3 = p + z + (0 + 1 + 1 + 1) from rfl, e₁]
    exact e₂

/-- A frame of memory and what its start codes must satisfy for the searches to find them. -/
structure Laid (m : Mem) (addr size : Nat) (windows : List Nat) (l : List (Nat × List UInt8)) :
    Prop where
  octets : m.read addr size = annexB l
  plain : ∀ u ∈ l, Plain u.2 ∧ u.2 ≠ []
  fits : Fits windows 0 l
  some_unit : l ≠ []
  size_lt : size < 2 ^ 31

section laid

variable (h : Laid m addr size windows l)
include h

theorem Laid.length : (annexB l).length = size := by rw [← h.octets, Mem.length_read]

theorem Laid.held : m.Holds addr (annexB l) := by rw [Mem.Holds, h.length, h.octets]

theorem Laid.starts : nalStarts m (some addr) windows = unitStarts addr l := by
  have held : m.Holds addr ([] ++ annexB l) := h.held
  exact nalStarts_eq held (show Plain [] from ⟨by simp, by simp⟩) (fun u hu => (h.plain u hu).1) h.fits

/-- The sizes computed are those of the units. -/
theorem Laid.sizes : ∃ params, paramSizes m (unitStarts addr l) = some params ∧
    params ++ [frameSize addr size (unitStarts addr l).getLast?.join] = l.map (fun u => u.2.length) := by
  have length := h.length
  have lt := h.size_lt
  have last := frameSize_eq h.some_unit (k := addr) (p := addr) le_rfl (by omega)
  rw [Nat.add_sub_cancel_left, length] at last
  refine ⟨_, paramSizes_eq h.held h.plain, ?_⟩
  rw [last, ← List.map_dropLast, ← List.map_singleton (f := fun u : Nat × List UInt8 => u.2.length),
    ← List.map_append, List.dropLast_append_getLast]

end laid

theorem addFrame_added {s : Muxing} (h : Laid m s.datablock.addr s.datablock.size windows l)
    (ha : s.sink.Appends) (hs : s.sink.filesize < 2 ^ 32) :
    ∃ k, addFrame m windows s =
        some (unitStarts s.datablock.addr l, l.map (fun u => u.2.length), k) ∧
      Sink.Added s.sink (sampleOf (l.map Prod.snd)) k := by
  have lt := h.size_lt
  have length := h.length
  obtain ⟨params, ep, sizes⟩ := h.sizes
  obtain ⟨k, ek, added⟩ := addNals_added ha hs h.held (by omega)
  refine ⟨k, ?_, added⟩
  simp only [addFrame, h.starts, ep, Option.bind_eq_bind, Option.bind_some, sizes, ek]
  rfl

theorem length_sampleOf (nals : List (List UInt8)) :
    (sampleOf nals).length = (nals.map List.length).sum + 4 * nals.length := by
  induction nals with
  | nil => rfl
  | cons nal nals ih =>
    simp only [sampleOf, List.flatMap_cons, List.length_append, length_be, List.map_cons, List.sum_cons,
      List.length_cons] at ih ⊢
    omega

theorem sampleSize_eq {nals : List (List UInt8)} (hs : (sampleOf nals).length < 2 ^ 32) :
    sampleSize (nals.map List.length) = (sampleOf nals).length := by
  rw [sampleSize, List.length_map, ← length_sampleOf, Nat.mod_eq_of_lt hs]

end En675.Videnc
