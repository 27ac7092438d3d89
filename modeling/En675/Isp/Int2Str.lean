import En675.Isp.AutoGamma
import En675.Lib.Bytes

/-! The numbers of the screen (`int2str`), written from the right into a field of `anLen` characters. -/

namespace En675.Isp

open Lib

/-- What `int2str` has written, what is left of the value, and how many characters stand. -/
structure Int2Str where
  apbStr : Mem
  aiVal : Int
  i : Nat

/-- `'0' + n`, as it is stored in a character. -/
def digitChar (n : Int) : UInt8 := UInt8.ofNat (uint32 (48 + n))

/-- The character that a field is filled with. -/
def fillChar (abFill : UInt8) : UInt8 := if abFill ≠ 0 then 48 else 32

namespace Int2Str

variable (anLen : Nat) (s : Int2Str)

def put (c : UInt8) : Int2Str :=
  { s with apbStr := Function.update s.apbStr (usub (usub anLen s.i) 1) c, i := s.i + 1 }

/-- The loop over the digits, which is left before the last of them. -/
def rounds : Nat → Int2Str → Int2Str
  | 0, s => s
  | n + 1, s =>
    if 10 ≤ s.aiVal then
      let nMod := s.aiVal.tdiv 10
      rounds n { s.put anLen (digitChar (s.aiVal - nMod * 10)) with aiVal := nMod }
    else s

/-- What is left of the value is one character, whatever it is. -/
def top : Int2Str := if s.i < anLen ∧ 0 ≤ s.aiVal then s.put anLen (digitChar s.aiVal) else s

def sign (neg : Bool) : Int2Str := if s.i < anLen ∧ neg then s.put anLen 45 else s

def fill (c : UInt8) : Nat → Int2Str → Int2Str
  | 0, s => s
  | n + 1, s => fill c n (s.put anLen c)

end Int2Str

/-- `int2str`, where the value has a magnitude. -/
def int2str (apbStr : Mem) (aiVal : Int) (anLen : Nat) (abFill : UInt8) : Option Mem :=
  let neg : Bool := aiVal < 0
  (if neg then int32 (-aiVal) else some aiVal).map fun abs =>
    let s := Int2Str.rounds anLen (usub anLen (if neg then 1 else 0)) ⟨Function.update apbStr anLen 0, abs, 0⟩
    let s := (s.top anLen).sign anLen neg
    (Int2Str.fill anLen (fillChar abFill) (anLen - s.i) s).apbStr

/-- The `k` digits of `n` of the lowest order. -/
def decimals (n : Nat) : Nat → List UInt8
  | 0 => []
  | k + 1 => UInt8.ofNat (48 + n / 10 ^ k % 10) :: decimals n k

def readNat (cs : List UInt8) : Option Nat :=
  cs.foldlM (fun n c => if 48 ≤ c ∧ c ≤ 57 then some (n * 10 + (c.toNat - 48)) else none) 0

def readInt : List UInt8 → Option Int
  | 45 :: cs => (readNat cs).map fun n => -(n : Int)
  | cs => (readNat cs).map fun n => (n : Int)

/-- A field is read without what it is filled with in front. -/
def readBack (c : UInt8) (cs : List UInt8) : Option Int := readInt (cs.dropWhile (· = c))

/-- What a field of `anLen` characters shows of `aiVal`. -/
structure Reads (aiVal : Int) (anLen : Nat) (c : UInt8) (cs : List UInt8) : Prop where
  chars : ∀ b ∈ cs, (48 ≤ b ∧ b ≤ 57) ∨ b = 45 ∨ b = c
  fits : (toString aiVal).length ≤ anLen → readBack c cs = some aiVal
  long : anLen < (toString aiVal).length → cs = decimals aiVal.natAbs anLen

/-- The field and its NUL are written, and nothing behind it. -/
structure Shows (aiVal : Int) (anLen : Nat) (abFill : UInt8) (apbStr m : Mem) : Prop where
  field : Reads aiVal anLen (fillChar abFill) (m.read 0 anLen)
  nul : m anLen = 0
  rest : ∀ a, anLen < a → m a = apbStr a

section text

variable {n k : Nat} {v : Int}

theorem length_decimals (n k : Nat) : (decimals n k).length = k := by
  induction k with
  | zero => rfl
  | succ k ih => rw [decimals, List.length_cons, ih]

theorem toNat_digit {d : Nat} (h : d < 10) : (UInt8.ofNat (48 + d)).toNat = 48 + d := by
  rw [UInt8.toNat_ofNat']
  omega

theorem digit_range {d : Nat} (h : d < 10) : 48 ≤ UInt8.ofNat (48 + d) ∧ UInt8.ofNat (48 + d) ≤ 57 := by
  rw [UInt8.le_iff_toNat_le, UInt8.le_iff_toNat_le, toNat_digit h]
  exact ⟨Nat.le_add_right 48 d, Nat.add_le_add_left (Nat.le_of_lt_succ h) 48⟩

theorem decimals_digits (n k : Nat) : ∀ b ∈ decimals n k, 48 ≤ b ∧ b ≤ 57 := by
  induction k with
  | zero => exact fun b hb => nomatch hb
  | succ k ih =>
    intro b hb
    rcases List.mem_cons.1 hb with rfl | hb
    · exact digit_range (Nat.mod_lt _ (by decide))
    · exact ih b hb

theorem readNat_decimals (n k : Nat) : readNat (decimals n k) = some (n % 10 ^ k) := by
  have from_ : ∀ k a, (decimals n k).foldlM (fun n c => if 48 ≤ c ∧ c ≤ 57 then some (n * 10 + (c.toNat - 48)) else none)
      a = some (a * 10 ^ k + n % 10 ^ k) := by
    intro k
    induction k with
    | zero =>
      intro a
      rw [Nat.pow_zero, Nat.mul_one, Nat.mod_one]
      rfl
    | succ k ih =>
      intro a
      have small : n / 10 ^ k % 10 < 10 := Nat.mod_lt _ (by decide)
      rw [decimals, List.foldlM_cons, if_pos (digit_range small), toNat_digit small, Nat.add_sub_cancel_left]
      change (decimals n k).foldlM _ _ = _
      rw [ih, Nat.mod_pow_succ, Nat.pow_succ, Nat.add_mul, Nat.mul_comm (10 ^ k) (n / 10 ^ k % 10), Nat.mul_comm (10 ^ k) 10,
        Nat.mul_assoc]
      congr 1
      omega
  unfold readNat
  rw [from_, Nat.zero_mul, Nat.zero_add]

/-- The text of a value fits, by its magnitude. -/
theorem length_nonneg (hv : 0 ≤ v) (hk : 0 < k) : (toString v).length ≤ k ↔ v.natAbs < 10 ^ k := by
  have same : v.toNat = v.natAbs := by omega
  rw [Int.toString_eq_repr, Int.repr_eq_if, if_pos hv, Nat.length_repr_le_iff hk, same]

theorem length_neg (hv : v < 0) (hk : 0 < k) : (toString v).length ≤ k + 1 ↔ v.natAbs < 10 ^ k := by
  have same : (-v).toNat = v.natAbs := by omega
  rw [Int.toString_eq_repr, Int.repr_eq_if, if_neg (by omega), String.length_append, same]
  have one : "-".length = 1 := rfl
  rw [one, Nat.add_comm, Nat.add_le_add_iff_right, Nat.length_repr_le_iff hk]

theorem two_le_length (hv : v < 0) : 2 ≤ (toString v).length := by
  rw [Int.toString_eq_repr, Int.repr_eq_if, if_neg (by omega), String.length_append]
  exact Nat.add_le_add_left Nat.length_repr_pos 1

end text

namespace Int2Str

/-- A text that stands at the right end of the field, with its NUL. -/
def standing (buf : Mem) (anLen : Nat) (cs : List UInt8) (a : Int) : Int2Str :=
  ⟨buf.write (anLen - cs.length) (cs ++ [0]), a, cs.length⟩

variable {buf : Mem} {anLen n k f : Nat} {cs : List UInt8} {a : Int}

theorem put_standing (hl : anLen < 2 ^ 32) (h : cs.length < anLen) (c : UInt8) :
    (standing buf anLen cs a).put anLen c = standing buf anLen (c :: cs) a := by
  have at_ : usub (usub anLen cs.length) 1 = anLen - cs.length - 1 := by
    rw [usub_of_le (Nat.le_of_lt h) hl, usub_of_le (by omega) (by omega)]
  have next : anLen - cs.length - 1 + 1 = anLen - cs.length := by omega
  unfold put standing
  dsimp only
  rw [at_, Mem.write_update buf (cs ++ [0]) c (by omega : anLen - cs.length - 1 < anLen - cs.length)]
  rw [List.length_cons, List.cons_append, Mem.write, Nat.sub_add_eq, next]

theorem fill_standing (hl : anLen < 2 ^ 32) (c : UInt8) (h : cs.length + n ≤ anLen) :
    fill anLen c n (standing buf anLen cs a) = standing buf anLen (List.replicate n c ++ cs) a := by
  induction n generalizing cs with
  | zero => rfl
  | succ n ih =>
    rw [fill, put_standing hl (by omega), ih (by rw [List.length_cons]; omega), List.replicate_succ',
      List.append_assoc, List.singleton_append]

/-- The rounds set the lowest digits, as long as more than one is left. -/
theorem rounds_standing (hl : anLen < 2 ^ 32) (h : k + f ≤ anLen) : ∃ j, j ≤ k + f ∧ (j = k + f ∨ n / 10 ^ j < 10) ∧
    (k < j → 10 ≤ n / 10 ^ (j - 1)) ∧ rounds anLen f (standing buf anLen (decimals n k) (n / 10 ^ k : Nat)) =
      standing buf anLen (decimals n j) (n / 10 ^ j : Nat) := by
  induction f generalizing k with
  | zero => exact ⟨k, Nat.le_refl k, Or.inl rfl, fun lt => absurd lt (Nat.lt_irrefl k), rfl⟩
  | succ f ih =>
    by_cases more : 10 ≤ n / 10 ^ k
    · obtain ⟨j, le, ends, last, eq⟩ := ih (k := k + 1) (by omega)
      refine ⟨j, by omega, by omega, fun _ => ?_, ?_⟩
      · by_cases first : k + 1 < j
        · exact last first
        · by_cases same : j = k + 1
          · rw [same]
            exact more
          · rcases ends with all | small
            · omega
            · have mono : n / 10 ^ k ≤ n / 10 ^ j :=
                Nat.div_le_div_left (Nat.pow_le_pow_right (by decide) (by omega)) (Nat.pow_pos (by decide))
              omega
      · have quot : Int.tdiv (n / 10 ^ k : Nat) 10 = (n / 10 ^ (k + 1) : Nat) := by
          rw [Nat.pow_succ, ← Nat.div_div_eq_div_mul]
          rfl
        have char : digitChar ((n / 10 ^ k : Nat) - (n / 10 ^ (k + 1) : Nat) * 10) =
            UInt8.ofNat (48 + n / 10 ^ k % 10) := by
          have rest : ((n / 10 ^ k : Nat) : Int) - (n / 10 ^ (k + 1) : Nat) * 10 = (n / 10 ^ k % 10 : Nat) := by
            rw [Nat.pow_succ, ← Nat.div_div_eq_div_mul]
            omega
          unfold digitChar uint32
          rw [rest]
          congr 1
          omega
        have puts := @put_standing buf anLen (decimals n k) (n / 10 ^ k : Nat) hl (by rw [length_decimals]; omega)
          (UInt8.ofNat (48 + n / 10 ^ k % 10))
        rw [rounds, if_pos (by unfold standing; dsimp only; omega)]
        dsimp only
        change rounds anLen f { (standing buf anLen (decimals n k) (n / 10 ^ k : Nat)).put anLen
          (digitChar ((n / 10 ^ k : Nat) - Int.tdiv (n / 10 ^ k : Nat) 10 * 10)) with
            aiVal := Int.tdiv (n / 10 ^ k : Nat) 10 } = _
        rw [quot, char, puts]
        exact eq
    · refine ⟨k, by omega, Or.inr (by omega), fun lt => absurd lt (Nat.lt_irrefl k), ?_⟩
      rw [rounds, if_neg (by unfold standing; dsimp only; omega)]

end Int2Str

section result

variable {buf : Mem} {v : Int} {len n j : Nat} {abFill : UInt8} {cs : List UInt8}

/-- What is written is a field with its NUL. -/
theorem shows_iff (h : cs.length = len) :
    Shows v len abFill buf (buf.write 0 (cs ++ [0])) ↔ Reads v len (fillChar abFill) cs := by
  have field : (buf.write 0 (cs ++ [0])).read 0 len = cs := by
    rw [Mem.read_write_take _ _ _ _ (by rw [List.length_append]; omega), ← h, List.take_left]
  have nul : buf.write 0 (cs ++ [0]) len = 0 := by
    have split := Mem.write_append buf 0 cs [0]
    rw [split, Nat.zero_add, h]
    exact Function.update_self ..
  constructor
  · intro shows
    exact field ▸ shows.field
  · intro reads
    refine ⟨field.symm ▸ reads, nul, fun a ha => Mem.write_of_ge _ _ _ _ ?_⟩
    rw [List.length_append, List.length_singleton]
    omega

theorem digitChar_eq {q : Nat} (small : q < 10) : digitChar q = UInt8.ofNat (48 + q % 10) := by
  unfold digitChar uint32
  congr 1
  omega

theorem top_digit (small : n / 10 ^ j < 10) : digitChar (n / 10 ^ j : Nat) :: decimals n j = decimals n (j + 1) := by
  rw [digitChar_eq small]
  rfl

/-- Where the loop starts. -/
theorem start_standing (buf : Mem) (len n : Nat) :
    (⟨Function.update buf len 0, n, 0⟩ : Int2Str) = Int2Str.standing buf len (decimals n 0) (n / 10 ^ 0 : Nat) := by
  unfold Int2Str.standing
  rw [Nat.pow_zero, Nat.div_one]
  rfl

/-- A filled field stands at the front. -/
theorem standing_full (h : cs.length ≤ len) (c : UInt8) (a : Int) (hl : len < 2 ^ 32) :
    (Int2Str.fill len c (len - (Int2Str.standing buf len cs a).i) (Int2Str.standing buf len cs a)).apbStr =
      buf.write 0 (List.replicate (len - cs.length) c ++ cs ++ [0]) := by
  change (Int2Str.fill len c (len - cs.length) _).apbStr = _
  rw [Int2Str.fill_standing hl c (by omega)]
  unfold Int2Str.standing
  have full : len - (List.replicate (len - cs.length) c ++ cs).length = 0 := by
    rw [List.length_append, List.length_replicate]
    omega
  rw [full]

/-- The text with the last character of the value. -/
def topped (len n j : Nat) : List UInt8 := if j < len then digitChar (n / 10 ^ j : Nat) :: decimals n j else decimals n j

def signed (len : Nat) (neg : Bool) (cs : List UInt8) : List UInt8 := if cs.length < len ∧ neg then 45 :: cs else cs

theorem top_standing (hl : len < 2 ^ 32) :
    (Int2Str.standing buf len (decimals n j) (n / 10 ^ j : Nat)).top len =
      Int2Str.standing buf len (topped len n j) (n / 10 ^ j : Nat) := by
  have count : (Int2Str.standing buf len (decimals n j) (n / 10 ^ j : Nat)).i = j := length_decimals n j
  unfold Int2Str.top topped
  rw [count]
  by_cases room : j < len
  · rw [if_pos ⟨room, Int.natCast_nonneg _⟩, if_pos room]
    exact Int2Str.put_standing hl (by rw [length_decimals]; exact room) _
  · rw [if_neg fun c => room c.1, if_neg room]

theorem sign_standing (hl : len < 2 ^ 32) (neg : Bool) (a : Int) :
    (Int2Str.standing buf len cs a).sign len neg = Int2Str.standing buf len (signed len neg cs) a := by
  unfold Int2Str.sign signed
  by_cases room : cs.length < len ∧ neg
  · rw [if_pos room]
    exact (if_pos room).trans (Int2Str.put_standing hl room.1 45)
  · rw [if_neg room]
    exact if_neg room

theorem length_topped (h : j ≤ len) : (topped len n j).length = min (j + 1) len := by
  unfold topped
  split
  · rw [List.length_cons, length_decimals]
    omega
  · rw [length_decimals]
    omega

theorem length_signed (neg : Bool) (h : cs.length ≤ len) : (signed len neg cs).length ≤ len := by
  unfold signed
  split
  · rw [List.length_cons]
    omega
  · exact h

/-- The text of a magnitude, and where the loop has left it. -/
theorem int2str_text {neg : Bool} (hneg : decide (v < 0) = neg)
    (mag : (if neg then int32 (-v) else some v) = some (n : Int)) (pos : 1 ≤ len) (hl : len < 2 ^ 32) :
    ∃ j cs, j ≤ len - neg.toNat ∧ (j = len - neg.toNat ∨ n / 10 ^ j < 10) ∧ (0 < j → 10 ≤ n / 10 ^ (j - 1)) ∧
      cs = signed len neg (topped len n j) ∧ cs.length ≤ len ∧
      int2str buf v len abFill =
        some (buf.write 0 (List.replicate (len - cs.length) (fillChar abFill) ++ cs ++ [0])) := by
  have bit : usub len (if neg then 1 else 0) = len - neg.toNat := by
    cases neg
    · exact usub_of_le (Nat.zero_le _) hl
    · exact usub_of_le pos hl
  obtain ⟨j, le, ends, last, eq⟩ :=
    @Int2Str.rounds_standing buf len n 0 (len - neg.toNat) hl (by omega)
  rw [Nat.zero_add] at le ends
  have fits := length_signed neg (by rw [length_topped (n := n) (by omega : j ≤ len)]; omega : (topped len n j).length ≤ len)
  refine ⟨j, signed len neg (topped len n j), le, ends, last, rfl, fits, ?_⟩
  unfold int2str
  dsimp only
  rw [hneg, mag, Option.map_some, bit, start_standing, eq, top_standing hl, sign_standing hl, standing_full fits _ _ hl]

end result

section read

variable {v : Int} {len n j k m : Nat} {abFill c : UInt8} {cs : List UInt8}

theorem fillChar_cases (abFill : UInt8) : fillChar abFill = 48 ∨ fillChar abFill = 32 := by
  unfold fillChar
  split
  · exact Or.inl rfl
  · exact Or.inr rfl

theorem readBack_replicate (c : UInt8) (m : Nat) (cs : List UInt8) :
    readBack c (List.replicate m c ++ cs) = readBack c cs := by
  unfold readBack
  rw [List.dropWhile_append_of_pos]
  intro b hb
  exact decide_eq_true (List.eq_of_mem_replicate hb)

theorem readBack_cons {b : UInt8} (h : b ≠ c) : readBack c (b :: cs) = readInt (b :: cs) := by
  unfold readBack
  rw [List.dropWhile_cons_of_neg (by simpa using h)]

theorem readInt_digit {b : UInt8} (h : 48 ≤ b) : readInt (b :: cs) = (readNat (b :: cs)).map fun n => (n : Int) := by
  unfold readInt
  split
  · rename_i eq
    cases eq
    exact absurd h (by decide)
  · rfl

theorem readInt_sign (cs : List UInt8) : readInt (45 :: cs) = (readNat cs).map fun n => -(n : Int) := by
  unfold readInt
  split
  · rename_i eq
    cases eq
    rfl
  · rename_i other
    exact absurd rfl (other cs)

/-- The digits of a number without a leading zero, behind what the field is filled with. -/
theorem readBack_decimals (lt : n < 10 ^ (j + 1)) (lead : 0 < j → 10 ^ j ≤ n) (hc : c = 48 ∨ c = 32) :
    readBack c (List.replicate m c ++ decimals n (j + 1)) = some (n : Int) := by
  have small : n / 10 ^ j < 10 := Nat.div_lt_of_lt_mul (by rw [← Nat.pow_succ]; exact lt)
  have whole : readNat (decimals n (j + 1)) = some n := by rw [readNat_decimals, Nat.mod_eq_of_lt lt]
  rw [readBack_replicate]
  by_cases first : UInt8.ofNat (48 + n / 10 ^ j % 10) = c
  · -- only a zero is taken for what the field is filled with
    have digit := toNat_digit (Nat.mod_lt (n / 10 ^ j) (by decide : 0 < 10))
    rw [first, Nat.mod_eq_of_lt small] at digit
    have zero : n / 10 ^ j = 0 := by
      rcases hc with rfl | rfl
      · exact Nat.add_left_cancel digit.symm
      · have le : 48 ≤ (32 : UInt8).toNat := digit ▸ Nat.le_add_right 48 _
        exact absurd le (by decide)
    have less : n < 10 ^ j := (Nat.div_eq_zero_iff_lt (Nat.pow_pos (by decide))).1 zero
    obtain rfl : j = 0 := Nat.eq_zero_of_not_pos fun pos => absurd (lead pos) (Nat.not_le_of_lt less)
    obtain rfl : n = 0 := Nat.lt_one_iff.1 less
    unfold readBack
    rw [decimals, first, List.dropWhile_cons, if_pos (by simp)]
    rfl
  · rw [decimals, readBack_cons first, readInt_digit (digit_range (Nat.mod_lt _ (by decide))).1]
    rw [decimals] at whole
    rw [whole]
    rfl

theorem readBack_neg (lt : n < 10 ^ k) (hc : c = 48 ∨ c = 32) :
    readBack c (List.replicate m c ++ 45 :: decimals n k) = some (-(n : Int)) := by
  have sign : (45 : UInt8) ≠ c := by
    rcases hc with rfl | rfl <;> decide
  rw [readBack_replicate, readBack_cons sign]
  rw [readInt_sign, readNat_decimals, Nat.mod_eq_of_lt lt]
  rfl

/-- Filled digits, with or without a sign, are characters of a field. -/
theorem chars_filled (m n k : Nat) (sign : List UInt8) (hs : sign = [] ∨ sign = [45]) :
    ∀ b ∈ List.replicate m c ++ (sign ++ decimals n k), (48 ≤ b ∧ b ≤ 57) ∨ b = 45 ∨ b = c := by
  intro b hb
  rcases List.mem_append.1 hb with fill | hb
  · exact Or.inr (Or.inr (List.eq_of_mem_replicate fill))
  · rcases List.mem_append.1 hb with mark | digit
    · rcases hs with rfl | rfl
      · cases mark
      · exact Or.inr (Or.inl (List.mem_singleton.1 mark))
    · exact Or.inl (decimals_digits n k b digit)

/-- Digits alone, as many as the field has. -/
theorem reads_full (hn : v.natAbs = n) (long : len < (toString v).length) : Reads v len c (decimals n len) := by
  refine ⟨fun b hb => Or.inl (decimals_digits n len b hb), fun fits => absurd fits (Nat.not_le_of_lt long), fun _ => ?_⟩
  rw [hn]

theorem reads_nonneg (hv : v = n) (lt : n < 10 ^ (j + 1)) (lead : 0 < j → 10 ^ j ≤ n) (room : j < len)
    (hc : c = 48 ∨ c = 32) : Reads v len c (List.replicate (len - (j + 1)) c ++ decimals n (j + 1)) := by
  refine ⟨chars_filled (len - (j + 1)) n (j + 1) [] (Or.inl rfl), fun _ => ?_, fun long => ?_⟩
  · rw [hv]
    exact readBack_decimals lt lead hc
  · have wide : v.natAbs < 10 ^ len := by
      rw [hv, Int.natAbs_natCast]
      exact Nat.lt_of_lt_of_le lt (Nat.pow_le_pow_right (by decide) room)
    exact absurd ((length_nonneg (by omega) (by omega)).2 wide) (Nat.not_le_of_lt long)

theorem reads_neg (hv : v = -(n : Int)) (neg : v < 0) (lt : n < 10 ^ k) (pos : 0 < k) (room : k < len)
    (hc : c = 48 ∨ c = 32) : Reads v len c (List.replicate (len - (k + 1)) c ++ 45 :: decimals n k) := by
  refine ⟨chars_filled _ n k [45] (Or.inr rfl), fun _ => ?_, fun long => ?_⟩
  · rw [hv]
    exact readBack_neg lt hc
  · have short : (toString v).length ≤ k + 1 := (length_neg neg pos).2 (by omega)
    omega

end read

section exact

variable {buf : Mem} {v : Int} {len n j : Nat} {abFill c : UInt8}

/-- The last character is the digit only by chance where more than a digit is left. -/
theorem digitChar_iff {q : Nat} (h : q < 2 ^ 32 - 48) : digitChar q = UInt8.ofNat (48 + q % 10) ↔ q % 256 = q % 10 := by
  unfold digitChar uint32
  rw [← UInt8.toNat_inj, UInt8.toNat_ofNat', UInt8.toNat_ofNat']
  omega

theorem topped_small (h : j < len) (small : n / 10 ^ j < 10) : topped len n j = decimals n (j + 1) := by
  unfold topped
  rw [if_pos h, top_digit small]

theorem pow_le_of_last (pos : 0 < j) (last : 10 ≤ n / 10 ^ (j - 1)) : 10 ^ j ≤ n := by
  obtain ⟨k, rfl⟩ := Nat.exists_eq_add_of_le' pos
  rw [Nat.add_sub_cancel] at last
  have le := (Nat.le_div_iff_mul_le (Nat.pow_pos (by decide))).1 last
  rw [Nat.pow_succ, Nat.mul_comm]
  exact le

theorem lt_pow_of_small (small : n / 10 ^ j < 10) : n < 10 ^ (j + 1) := by
  rw [Nat.pow_succ, Nat.mul_comm]
  exact (Nat.div_lt_iff_lt_mul (Nat.pow_pos (by decide))).1 small

theorem int2str_reads_nonneg (hv : v = n) (pos : 1 ≤ len) (hl : len < 2 ^ 32) :
    ∃ m, int2str buf v len abFill = some m ∧ Shows v len abFill buf m := by
  have sign : decide (v < 0) = false := decide_eq_false (by omega)
  have mag : (if (false : Bool) = true then int32 (-v) else some v) = some (n : Int) := by
    rw [hv]
    rfl
  obtain ⟨j, cs, le, ends, last, text, room, eq⟩ := @int2str_text buf v len n abFill false sign mag pos hl
  have plain : cs = topped len n j := by
    rw [text]
    exact if_neg fun c => nomatch c.2
  refine ⟨_, eq, (shows_iff (by rw [List.length_append, List.length_replicate]; omega)).2 ?_⟩
  rcases Nat.lt_or_ge j len with lt | full
  · have small : n / 10 ^ j < 10 := ends.resolve_left (by rw [Bool.toNat_false]; omega)
    have fits := lt_pow_of_small small
    rw [plain, topped_small lt small, length_decimals]
    exact reads_nonneg hv fits (fun pos => pow_le_of_last pos (last pos)) lt (fillChar_cases abFill)
  · obtain rfl : j = len := Nat.le_antisymm (by rw [Bool.toNat_false] at le; omega) full
    have wide := pow_le_of_last pos (last pos)
    have none_ : topped j n j = decimals n j := if_neg (Nat.lt_irrefl j)
    have long : j < (toString v).length := Nat.lt_of_not_le fun fits => by
      have := (length_nonneg (by omega) pos).1 fits
      omega
    rw [plain, none_, length_decimals, Nat.sub_self]
    exact reads_full (by omega) long

/-- A negative value stands right but where more than a digit is left for the last character. -/
theorem int2str_reads_neg (hv : v = -(n : Int)) (neg : v < 0) (range : -2 ^ 31 < v) (pos : 1 ≤ len) (hl : len < 2 ^ 32) :
    ∃ m, int2str buf v len abFill = some m ∧
      (Shows v len abFill buf m ↔ n / 10 ^ (len - 1) % 256 = n / 10 ^ (len - 1) % 10) := by
  have mag : (if (true : Bool) = true then int32 (-v) else some v) = some (n : Int) := by
    rw [if_pos rfl, int32_fits (by omega) (by omega), hv, Int.neg_neg]
  have mag_n : v.natAbs = n := by omega
  obtain ⟨j, cs, le, ends, last, text, room, eq⟩ := @int2str_text buf v len n abFill true (decide_eq_true neg) mag pos hl
  rw [Bool.toNat_true] at le ends
  have lt : j < len := by omega
  refine ⟨_, eq, (shows_iff (by rw [List.length_append, List.length_replicate]; omega)).trans ?_⟩
  by_cases small : n / 10 ^ j < 10
  · have fits := lt_pow_of_small small
    have quot : n / 10 ^ (len - 1) < 10 := by
      have mono : n / 10 ^ (len - 1) ≤ n / 10 ^ j :=
        Nat.div_le_div_left (Nat.pow_le_pow_right (by decide) (by omega)) (Nat.pow_pos (by decide))
      omega
    refine iff_of_true ?_ (by rw [Nat.mod_eq_of_lt quot, Nat.mod_eq_of_lt (Nat.lt_trans quot (by decide))])
    rw [topped_small lt small] at text
    by_cases sign : j + 1 < len
    · have marked : cs = 45 :: decimals n (j + 1) := by
        rw [text]
        exact if_pos ⟨by rw [length_decimals]; exact sign, rfl⟩
      rw [marked, List.length_cons, length_decimals]
      exact reads_neg hv neg fits (Nat.succ_pos j) sign (fillChar_cases abFill)
    · have whole : j + 1 = len := by omega
      have bare : cs = decimals n len := by
        rw [text, whole]
        exact if_neg fun c => absurd c.1 (by rw [length_decimals]; omega)
      have long : len < (toString v).length := Nat.lt_of_not_le fun fits' => by
        have two := two_le_length neg
        obtain ⟨k, rfl⟩ := Nat.exists_eq_add_of_le' pos
        have less := (length_neg neg (by omega : 0 < k)).1 fits'
        have wide : 0 < j → 10 ^ j ≤ n := fun pos => pow_le_of_last pos (last pos)
        obtain rfl : j = k := by omega
        have := wide (by omega)
        omega
      rw [bare, length_decimals, Nat.sub_self]
      exact reads_full mag_n long
  · -- what is left goes into the last character
    obtain rfl : j = len - 1 := ends.resolve_right small
    have bare : cs = digitChar (n / 10 ^ (len - 1) : Nat) :: decimals n (len - 1) := by
      have top : topped len n (len - 1) = digitChar (n / 10 ^ (len - 1) : Nat) :: decimals n (len - 1) := if_pos lt
      rw [text, top]
      exact if_neg fun c => absurd c.1 (by rw [List.length_cons, length_decimals]; omega)
    have wide : 10 ^ len ≤ n := by
      have le := (Nat.le_div_iff_mul_le (Nat.pow_pos (by decide))).1 (Nat.le_of_not_lt small)
      rw [Nat.mul_comm, ← Nat.pow_succ] at le
      exact (congrArg (10 ^ ·) (by omega : len - 1 + 1 = len)) ▸ le
    have long : len < (toString v).length := Nat.lt_of_not_le fun fits => by
      have less := (length_neg neg pos).1 (Nat.le_succ_of_le fits)
      omega
    have digits : decimals n len = UInt8.ofNat (48 + n / 10 ^ (len - 1) % 10) :: decimals n (len - 1) := by
      obtain ⟨k, rfl⟩ := Nat.exists_eq_add_of_le' pos
      rfl
    have bound : n / 10 ^ (len - 1) ≤ n := Nat.div_le_self ..
    rw [← digitChar_iff (by omega)]
    have count : len - cs.length = 0 := by
      rw [bare, List.length_cons, length_decimals]
      omega
    rw [count, bare]
    constructor
    · intro reads
      have same := reads.long long
      rw [mag_n, digits] at same
      exact (List.cons.inj same).1
    · intro char
      rw [char, ← digits]
      exact reads_full mag_n long

end exact

/-- When a field shows its value. -/
theorem int2str_iff {buf : Mem} {v : Int} {len : Nat} {abFill : UInt8} (range : -2 ^ 31 ≤ v ∧ v < 2 ^ 31)
    (pos : 1 ≤ len) (le : len ≤ 11) : (∃ m, int2str buf v len abFill = some m ∧ Shows v len abFill buf m) ↔
      v ≠ -2 ^ 31 ∧ (v < 0 → v.natAbs / 10 ^ (len - 1) % 256 = v.natAbs / 10 ^ (len - 1) % 10) := by
  by_cases neg : v < 0
  · by_cases least : v = -2 ^ 31
    · refine iff_of_false ?_ fun c => c.1 least
      rintro ⟨m, eq, -⟩
      subst least
      cases eq
    · obtain ⟨m, eq, iff⟩ := @int2str_reads_neg buf v len v.natAbs abFill (by omega) neg (by omega) pos (by omega)
      constructor
      · rintro ⟨m', eq', shows⟩
        obtain rfl := Option.some.inj (eq.symm.trans eq')
        exact ⟨least, fun _ => iff.1 shows⟩
      · exact fun c => ⟨m, eq, iff.2 (c.2 neg)⟩
  · exact iff_of_true (int2str_reads_nonneg (by omega : v = v.natAbs) pos (by omega)) ⟨by omega, fun c => absurd c neg⟩

theorem int2str_iff_small : ∃ m, int2str (fun _ => 0xff) (-12) 6 1 = some m ∧ Shows (-12) 6 1 (fun _ => 0xff) m :=
  (int2str_iff (by decide) (by decide) (by decide)).2 (by decide)

/-- `-12` in one character is `'0' + 12`, which is none of its digits. -/
theorem int2str_unreduced : ¬∃ m, int2str (fun _ => 0xff) (-12) 1 0 = some m ∧ Shows (-12) 1 0 (fun _ => 0xff) m := by
  rintro ⟨m, eq, shows⟩
  have char : (int2str (fun _ => 0xff) (-12) 1 0).map (fun m => m.read 0 1) = some [60] := by decide
  rw [eq] at char
  have field : m.read 0 1 = [60] := Option.some.inj char
  have digits := shows.field.long (by decide)
  rw [field] at digits
  exact absurd digits (by decide)

end En675.Isp
