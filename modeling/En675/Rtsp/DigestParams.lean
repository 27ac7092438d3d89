import En675.Rtsp.DigestTotal
import Mathlib.Algebra.BigOperators.Group.Finset.Piecewise

/-! Digest authorization of a header that is made of parameters: when each field has the value of its own parameter. -/

namespace En675.Rtsp.Digest

open Lib AuthField

def blank (c : UInt8) : Bool := c == 32 || c == 9

/-- A field with its value; `lead`, `mid`, `gap` and `tail` are the blanks in front of it, on both sides of the `=` and
behind it. -/
structure Param where
  field : AuthField
  lead : List UInt8
  mid : List UInt8
  gap : List UInt8
  quoted : Bool
  value : List UInt8
  tail : List UInt8

namespace Param

def content (p : Param) : List UInt8 := if p.quoted then 34 :: (p.value ++ [34]) else p.value

/-- From the `=` on. -/
def rest (p : Param) : List UInt8 := p.gap ++ (p.content ++ p.tail)

/-- From the name on. -/
def text (p : Param) : List UInt8 := p.field.name ++ p.mid ++ 61 :: p.rest

structure Valid (p : Param) : Prop where
  lead : ∀ c ∈ p.lead, blank c = true
  mid : ∀ c ∈ p.mid, blank c = true
  gap : ∀ c ∈ p.gap, blank c = true
  tail : ∀ c ∈ p.tail, blank c = true
  line : ∀ c ∈ p.value, c ≠ 0 ∧ c ≠ 10 ∧ c ≠ 13 ∧ c ≠ 34
  token : p.quoted = false → ∀ c ∈ p.value, blank c = false ∧ c ≠ 44

instance {p : Param} : Decidable p.Valid :=
  decidable_of_iff ((p.lead ++ p.mid ++ p.gap ++ p.tail).all blank = true ∧
      (p.value.all fun c => c ≠ 0 ∧ c ≠ 10 ∧ c ≠ 13 ∧ c ≠ 34) = true ∧
      (p.quoted = false → (p.value.all fun c => blank c = false ∧ c ≠ 44) = true)) <| by
    simp only [List.all_eq_true, List.forall_mem_append, decide_eq_true_eq]
    exact ⟨fun ⟨⟨⟨⟨lead, mid⟩, gap⟩, tail⟩, line, token⟩ => ⟨lead, mid, gap, tail, line, token⟩,
      fun h => ⟨⟨⟨⟨h.lead, h.mid⟩, h.gap⟩, h.tail⟩, h.line, h.token⟩⟩

/-- An unquoted value has no blanks around it. -/
def Tight (p : Param) : Prop := p.quoted = false → p.gap = [] ∧ p.tail = []

instance {p : Param} : Decidable p.Tight := inferInstanceAs (Decidable (p.quoted = false → p.gap = [] ∧ p.tail = []))

end Param

/-- The header that has the parameters, in this order. -/
def render (params : List Param) : List UInt8 :=
  http11AutorizationText ++ [44].intercalate (params.map fun p => p.lead ++ p.text)

structure WellFormed (params : List Param) : Prop where
  ne_nil : params ≠ []
  valid : ∀ p ∈ params, p.Valid
  once : (params.map Param.field).Nodup

/-- The value of a field. -/
def valueOf (params : List Param) (f : AuthField) : Option (List UInt8) :=
  (params.find? fun p => p.field = f).map Param.value

/-- The octets of the copy behind a parameter, those of the parameters that follow it and the `NUL`. -/
def behind (params : List Param) : Nat := (params.map fun p => p.lead.length + p.text.length + 1).sum + 1

/-- What the list ought to be. -/
def entries : List Param → RahList
  | [] => fun _ => none
  | p :: ps =>
    Function.update (entries ps) p.field
      (some ⟨p.value, p.value.length + (if p.quoted then 1 + p.tail.length else 0) + behind ps⟩)

/-- Where the name of a field that the chain asks for earlier is somewhere in a parameter, that field's own parameter
has come before. -/
def Orderly (seen : List AuthField) : List Param → Prop
  | [] => True
  | p :: ps => (∀ g, g.num < p.field.num → g.name <:+: p.text → g ∈ seen) ∧ Orderly (p.field :: seen) ps

instance decidableOrderly : (seen : List AuthField) → (params : List Param) → Decidable (Orderly seen params)
  | _, [] => inferInstanceAs (Decidable True)
  | seen, p :: ps =>
    have := decidableOrderly (p.field :: seen) ps
    inferInstanceAs (Decidable ((∀ g, g.num < p.field.num → g.name <:+: p.text → g ∈ seen) ∧
      Orderly (p.field :: seen) ps))

/-- The headers that are understood. -/
structure InOrder (params : List Param) : Prop where
  needed : ∀ f : AuthField, f.Needed → f ∈ params.map Param.field
  plain : ∀ p ∈ params, 44 ∉ p.value
  tight : ∀ p ∈ params, p.Tight
  orderly : Orderly [] params
  wide : ∀ d, entries params response = some d → 33 ≤ d.room

/-- The response of the parameters is the one that is made from the others. -/
def Answers (md5 : List UInt8 → Fin 16 → UInt8) (hashUserPw method : List UInt8) (params : List Param) : Prop :=
  ∃ uri_ nonce_ nc_ cnonce_ qop_, valueOf params uri = some uri_ ∧ valueOf params nonce = some nonce_ ∧
    valueOf params nc = some nc_ ∧ valueOf params cnonce = some cnonce_ ∧ valueOf params qop = some qop_ ∧
    valueOf params response = some (hResOf md5 hashUserPw method uri_ nonce_ nc_ cnonce_ qop_)

/-- Each field has the value of its own parameter, and both copies accept the header if and only if it answers. -/
structure Exact (md5 : List UInt8 → Fin 16 → UInt8) (hashUserPw : List UInt8) (room : Nat → Bool)
    (params : List Param) : Prop where
  list : ∃ t, rahList (render params) = .ok t ∧ ∀ f, (t f).map Data.text = valueOf params f
  rtsp : ∀ method, ∃ b, rtspdClientRtspAuthorization md5 hashUserPw room (render params) method = .ok b ∧
    (b = true ↔ Answers md5 hashUserPw (ascii method.text) params)
  http : ∀ isPost data dataLen, httpHeader data dataLen = some (render params) →
    ∃ b, httpAuthProcess md5 hashUserPw room isPost data dataLen = .ok b ∧
      (b = true ↔ Answers md5 hashUserPw (if isPost = 1 then ascii "POST" else ascii "GET") params)

section names

variable {f g : AuthField} {a b : List UInt8}

theorem name_inj (h : f.name = g.name) : f = g := by
  revert f g
  decide +kernel

theorem two_le_name (f : AuthField) : 2 ≤ f.name.length := by
  cases f <;> decide +kernel

theorem blank_iff {c : UInt8} : blank c = true ↔ c = 32 ∨ c = 9 := by
  rw [blank, Bool.or_eq_true, beq_iff_eq, beq_iff_eq]

theorem name_no_blank (f : AuthField) {c : UInt8} (h : blank c = true) : c ∉ f.name := by
  obtain ⟨-, -, space, tab⟩ := not_mem_name f
  rcases blank_iff.1 h with rfl | rfl
  · exact space
  · exact tab

theorem blank_ne {c : UInt8} (h : blank c = true) : c ≠ 61 ∧ c ≠ 34 ∧ c ≠ 44 := by
  rcases blank_iff.1 h with rfl | rfl <;> decide

theorem infix_blanks (blanks : ∀ c ∈ a, blank c = true) : ¬f.name <:+: a := by
  intro h
  have len := two_le_name f
  cases name : f.name with
  | nil =>
    rw [name] at len
    exact absurd len (by decide)
  | cons c rest =>
    have mem : c ∈ f.name := name ▸ List.mem_cons_self
    exact name_no_blank f (blanks c (h.subset mem)) mem

theorem infix_append_blanks (blanks : ∀ c ∈ b, blank c = true) : f.name <:+: a ++ b ↔ f.name <:+: a := by
  constructor
  · intro h
    cases b with
    | nil => rwa [List.append_nil] at h
    | cons c b =>
      rcases infix_append_cons (name_no_blank f (blanks c List.mem_cons_self)) h with front | behind
      · exact front
      · exact absurd behind (infix_blanks fun c mem => blanks c (List.mem_cons_of_mem _ mem))
  · exact fun h => h.trans (List.prefix_append a b).isInfix

/-- Nothing is found in a text that ends with a blank, or is empty, and has no name in it. -/
def Quiet (pre : List UInt8) : Prop :=
  ∀ (f : AuthField) (b : List UInt8), cut f.name (pre ++ b) = (cut f.name b).map fun r => (pre ++ r.1, r.2)

theorem Quiet.append (ha : Quiet a) (hb : Quiet b) : Quiet (a ++ b) := by
  intro f s
  rw [List.append_assoc, ha, hb, Option.map_map]
  congr 1
  funext r
  exact Prod.ext (List.append_assoc ..).symm rfl

theorem quiet_blanks (blanks : ∀ c ∈ a, blank c = true) : Quiet a := by
  intro f b
  have len := two_le_name f
  cases name : f.name with
  | nil =>
    rw [name] at len
    exact absurd len (by decide)
  | cons c rest =>
    exact cut_skip_of_not_mem fun mem => name_no_blank f (blanks c mem) (name ▸ List.mem_cons_self)

theorem no_name_in_text (f : AuthField) : ¬f.name <:+: http11AutorizationText := by
  cases f <;> decide +kernel

theorem quiet_text : Quiet http11AutorizationText := by
  intro f b
  apply cut_skip
  intro u v split ne front
  have last : http11AutorizationText.getLast? = some 32 := by decide +kernel
  rw [split, List.getLast?_append_of_ne_nil u ne] at last
  obtain ⟨w, rfl⟩ := List.getLast?_eq_some_iff.1 last
  rw [List.append_assoc] at front
  have inside : f.name <:+: http11AutorizationText := by
    rw [split, ← List.append_assoc]
    exact ((prefix_append_cons (not_mem_name f).2.2.1 front).isInfix.trans (List.suffix_append u w).isInfix).trans
      (List.prefix_append ..).isInfix
  exact no_name_in_text f inside

end names

section step

variable {g : AuthField} {p : Param} {n : Nat} {d : Data} {s : RahList}

/-- The octets that are not blank. -/
def solid (s : List UInt8) : Nat := s.countP fun c => !blank c

@[simp] theorem solid_append (a b : List UInt8) : solid (a ++ b) = solid a + solid b := List.countP_append

theorem solid_le {a b : List UInt8} (h : a <:+: b) : solid a ≤ solid b := h.sublist.countP_le

theorem solid_blanks {a : List UInt8} (blanks : ∀ c ∈ a, blank c = true) : solid a = 0 := by
  rw [solid, List.countP_eq_zero]
  intro c mem
  rw [blanks c mem]
  exact Bool.false_ne_true

theorem solid_name (f : AuthField) : solid f.name = f.name.length := by
  rw [solid, List.countP_eq_length]
  intro c mem
  cases clear : blank c with
  | false => rfl
  | true => exact absurd mem (name_no_blank f clear)

/-- What the piece of a parameter has for its own field. -/
def Param.own (p : Param) (n : Nat) : Data :=
  if p.quoted then ⟨p.value, p.value.length + 1 + p.tail.length + n⟩ else ⟨p.rest, p.rest.length + n⟩

theorem Param.Valid.unquote (h : p.Valid) : unquote p.rest n = some (p.own n) := by
  have gap : 34 ∉ p.gap := fun mem => (blank_ne (h.gap 34 mem)).2.1 rfl
  have tail : 34 ∉ p.tail := fun mem => (blank_ne (h.tail 34 mem)).2.1 rfl
  have value : 34 ∉ p.value := fun mem => (h.line 34 mem).2.2.2 rfl
  unfold Digest.unquote Param.own Param.rest Param.content
  cases quoted : p.quoted with
  | true =>
    have first : cut [34] (p.gap ++ (34 :: (p.value ++ [34]) ++ p.tail)) = some (p.gap, p.value ++ 34 :: p.tail) := by
      rw [List.cons_append, List.append_assoc]
      exact cut_append gap
    have second : cut [34] (p.value ++ 34 :: p.tail) = some (p.value, p.tail) := cut_append value
    simp only [if_true, first, second, Option.map_some]
  | false =>
    have none_ : cut [34] (p.gap ++ (p.value ++ p.tail)) = none := by
      rw [cut_eq_none, List.mem_append, List.mem_append]
      rintro (mem | mem | mem)
      · exact gap mem
      · exact value mem
      · exact tail mem
    simp only [Bool.false_eq_true, if_false, none_]

/-- A name in front of the `=` gets what the parameter's own name gets. -/
theorem Param.Valid.valueIn_front (h : p.Valid) (front : g.name <:+: p.field.name ++ p.mid) :
    valueIn g ⟨p.text, n⟩ = some (p.own n) := by
  have sign : 61 ∉ p.field.name ++ p.mid := by
    rw [List.mem_append]
    rintro (mem | mem)
    · exact (not_mem_name p.field).1 mem
    · exact (blank_ne (h.mid 61 mem)).1 rfl
  obtain ⟨⟨a, b⟩, found⟩ := Option.isSome_iff_exists.1 (cut_isSome_iff.2 front)
  have clear : 61 ∉ b := fun mem => sign (cut_eq found ▸ List.mem_append_right _ mem)
  have eq : behindEq g ⟨p.text, n⟩ = some p.rest := by
    unfold behindEq Param.text
    rw [cut_append_right _ found, Option.bind_some]
    exact congrArg (Option.map Prod.snd) (cut_append clear)
  rw [valueIn_eq, eq, Option.bind_some]
  exact h.unquote

theorem Param.Valid.valueIn_own (h : p.Valid) : valueIn p.field ⟨p.text, n⟩ = some (p.own n) :=
  h.valueIn_front (List.prefix_append ..).isInfix

/-- What a parameter has to give. -/
def Param.weight (p : Param) : Nat := p.field.name.length + solid p.value

theorem Param.Valid.solid_rest (h : p.Valid) : solid p.rest ≤ solid p.value + 2 := by
  unfold Param.rest Param.content
  rw [solid_append, solid_append, solid_blanks h.gap, solid_blanks h.tail]
  cases p.quoted with
  | true =>
    have two : solid (34 :: (p.value ++ [34])) = solid [34] + (solid p.value + solid [34]) := by
      rw [← solid_append, ← solid_append]
      rfl
    rw [if_pos rfl, two]
    have one : solid [34] = 1 := by decide
    omega
  | false =>
    rw [if_neg Bool.false_ne_true]
    omega

theorem Param.Valid.solid_own (h : p.Valid) : solid (p.own n).text = solid p.value := by
  unfold Param.own
  cases quoted : p.quoted with
  | true => rfl
  | false =>
    unfold Param.rest Param.content
    rw [if_neg Bool.false_ne_true]
    dsimp only
    rw [if_neg (by rw [quoted]; exact Bool.false_ne_true), solid_append, solid_append, solid_blanks h.gap,
      solid_blanks h.tail]
    omega

/-- A field gets no more from a parameter than the parameter has, and less if it is not the parameter's own. -/
theorem Param.Valid.weight_le (h : p.Valid) (value : valueIn g ⟨p.text, n⟩ = some d) :
    g.name.length + solid d.text ≤ p.weight ∧ (p.weight ≤ g.name.length + solid d.text → g = p.field) := by
  by_cases front : g.name <:+: p.field.name ++ p.mid
  · rw [h.valueIn_front front] at value
    obtain rfl := Option.some.inj value
    have sub := (infix_append_blanks h.mid).1 front
    have le := sub.length_le
    unfold Param.weight
    rw [h.solid_own]
    exact ⟨Nat.add_le_add_right le _, fun ge => name_inj (sub.eq_of_length (by omega))⟩
  · rw [valueIn_eq] at value
    obtain ⟨temp, found, value⟩ := Option.bind_eq_some_iff.1 value
    obtain ⟨⟨a, b⟩, name, eq⟩ := Option.bind_eq_some_iff.1 found
    obtain ⟨⟨e, y⟩, sign, rfl⟩ := Option.map_eq_some_iff.1 eq
    obtain ⟨w, split⟩ := behind_of_not_infix (not_mem_name g).1 front (cut_eq name).symm
    have sign : b = e ++ [61] ++ y := cut_eq sign
    rw [sign] at split
    have total := h.solid_rest
    rw [split, solid_append, solid_append, solid_append, solid_append, solid_name] at total
    have one : solid [61] = 1 := by decide
    have last : solid d.text ≤ solid y := solid_le (unquote_within value)
    have two := two_le_name p.field
    unfold Param.weight
    omega

end step

section render

variable {p : Param} {ps params : List Param} {s : RahList} {n : Nat} {pre b : List UInt8}

/-- The pieces of the parameters, from their names on. -/
def bare : List Param → List Piece
  | [] => []
  | p :: ps => ⟨p.text, behind ps⟩ :: bare ps

theorem takePiece_quiet (quiet : Quiet pre) : takePiece s ⟨pre ++ b, n⟩ = takePiece s ⟨b, n⟩ := by
  have same : fieldOf s ⟨pre ++ b, n⟩ = fieldOf s ⟨b, n⟩ := by
    unfold fieldOf
    congr 1
    funext f
    dsimp only
    rw [quiet f b, Option.map_map]
    rfl
  unfold takePiece
  rw [same]

theorem pieces_cons (pre : List UInt8) (p : Param) (ps : List Param) :
    pieces ((pre ++ p.text) :: ps.map fun p => p.lead ++ p.text) =
      ⟨pre ++ p.text, behind ps⟩ :: pieces (ps.map fun p => p.lead ++ p.text) := by
  have some_ : pre ++ p.text ≠ [] := by
    unfold Param.text
    rw [← List.append_assoc]
    exact List.append_ne_nil_of_right_ne_nil _ (List.cons_ne_nil _ _)
  have lengths : (fun q : List UInt8 => q.length + 1) ∘ (fun p : Param => p.lead ++ p.text) =
      fun p => p.lead.length + p.text.length + 1 := by
    funext q
    exact congrArg (· + 1) List.length_append
  rw [pieces, if_neg some_, List.map_map, lengths]
  rfl

theorem fold_pieces (valid : ∀ p ∈ params, p.Valid) :
    (pieces (params.map fun p => p.lead ++ p.text)).foldlM takePiece s = (bare params).foldlM takePiece s := by
  induction params generalizing s with
  | nil => rfl
  | cons p ps ih =>
    have quiet : Quiet p.lead := quiet_blanks (valid p List.mem_cons_self).lead
    rw [List.map_cons, pieces_cons, bare, List.foldlM_cons, List.foldlM_cons, takePiece_quiet quiet]
    congr 1
    funext t
    exact ih fun q mem => valid q (List.mem_cons_of_mem p mem)

theorem comma_not_mem_name (f : AuthField) : 44 ∉ f.name := by
  cases f <;> decide +kernel

theorem Param.Valid.comma (h : p.Valid) (plain : 44 ∉ p.value) : 44 ∉ p.lead ++ p.text := by
  have blanks : ∀ {a : List UInt8}, (∀ c ∈ a, blank c = true) → 44 ∉ a :=
    fun all mem => (blank_ne (all 44 mem)).2.2 rfl
  have content : 44 ∉ p.content := by
    unfold Param.content
    split
    · rw [List.mem_cons, List.mem_append, List.mem_singleton]
      rintro (eq | mem | eq)
      · exact absurd eq (by decide)
      · exact plain mem
      · exact absurd eq (by decide)
    · exact plain
  unfold Param.text Param.rest
  simp only [List.mem_append, List.mem_cons, not_or]
  exact ⟨blanks h.lead, ⟨comma_not_mem_name _, blanks h.mid⟩, by decide, blanks h.gap, content, blanks h.tail⟩

theorem rahList_render (h : WellFormed params) (plain : ∀ p ∈ params, 44 ∉ p.value) :
    rahList (render params) = (bare params).foldlM takePiece fun _ => none := by
  cases params with
  | nil => exact absurd rfl h.ne_nil
  | cons p ps =>
    have first := h.valid p List.mem_cons_self
    have quiet : Quiet (http11AutorizationText ++ p.lead) := quiet_text.append (quiet_blanks first.lead)
    have whole : render (p :: ps) = [44].intercalate
        ((http11AutorizationText ++ (p.lead ++ p.text)) :: ps.map fun p => p.lead ++ p.text) := by
      unfold render
      cases ps with
      | nil => simp
      | cons q ps => simp [List.intercalate_cons_cons]
    have commas : ∀ part ∈ (http11AutorizationText ++ (p.lead ++ p.text)) :: ps.map fun p => p.lead ++ p.text,
        44 ∉ part := by
      intro part mem
      rcases List.mem_cons.1 mem with rfl | mem
      · rw [List.mem_append]
        rintro (mem | mem)
        · revert mem
          decide +kernel
        · exact first.comma (plain p List.mem_cons_self) mem
      · obtain ⟨q, inside, rfl⟩ := List.mem_map.1 mem
        have later := List.mem_cons_of_mem p inside
        exact (h.valid q later).comma (plain q later)
    unfold rahList strtok
    rw [whole, List.splitOn_intercalate 44 commas (List.cons_ne_nil _ _), ← List.append_assoc, pieces_cons, bare,
      List.foldlM_cons, List.foldlM_cons, takePiece_quiet quiet]
    congr 1
    funext t
    exact fold_pieces fun q mem => h.valid q (List.mem_cons_of_mem p mem)

end render

section entries

variable {p : Param} {ps params : List Param} {s t : RahList} {seen : List AuthField} {f : AuthField}

theorem entries_cons (p : Param) (ps : List Param) : entries (p :: ps) = Function.update (entries ps) p.field
    (some ⟨p.value, p.value.length + (if p.quoted then 1 + p.tail.length else 0) + behind ps⟩) := rfl

theorem valueOf_cons (p : Param) (ps : List Param) :
    valueOf (p :: ps) = Function.update (valueOf ps) p.field (some p.value) := by
  funext f
  unfold valueOf
  rw [List.find?_cons]
  by_cases same : p.field = f
  · subst same
    rw [decide_eq_true rfl, Function.update_self]
    rfl
  · rw [decide_eq_false same, Function.update_of_ne (Ne.symm same)]

theorem entries_text (params : List Param) (f : AuthField) :
    (entries params f).map Data.text = valueOf params f := by
  induction params with
  | nil => rfl
  | cons p ps ih =>
    rw [entries_cons, valueOf_cons]
    by_cases same : f = p.field
    · subst same
      rw [Function.update_self, Function.update_self]
      rfl
    · rw [Function.update_of_ne same, Function.update_of_ne same]
      exact ih

theorem entries_isSome : (entries params f).isSome = true ↔ f ∈ params.map Param.field := by
  induction params with
  | nil => exact ⟨(fun h => nomatch h), (fun h => nomatch h)⟩
  | cons p ps ih =>
    rw [entries_cons, List.map_cons, List.mem_cons]
    by_cases same : f = p.field
    · subst same
      rw [Function.update_self]
      exact iff_of_true rfl (Or.inl rfl)
    · rw [Function.update_of_ne same, ih]
      exact ⟨Or.inr, fun h => h.resolve_left same⟩

theorem valueOf_mem (once : (params.map Param.field).Nodup) (mem : p ∈ params) :
    valueOf params p.field = some p.value := by
  induction params with
  | nil => cases mem
  | cons q qs ih =>
    obtain ⟨fresh, once⟩ := List.nodup_cons.1 once
    rw [valueOf_cons]
    rcases List.mem_cons.1 mem with rfl | mem
    · exact Function.update_self ..
    · have ne : p.field ≠ q.field := fun same => fresh (same ▸ List.mem_map_of_mem mem)
      rw [Function.update_of_ne ne]
      exact ih once mem

theorem Param.own_tight (tight : p.Tight) (n : Nat) :
    p.own n = ⟨p.value, p.value.length + (if p.quoted then 1 + p.tail.length else 0) + n⟩ := by
  unfold Param.own
  cases quoted : p.quoted with
  | true =>
    simp only [if_true, Data.mk.injEq, true_and]
    omega
  | false =>
    obtain ⟨gap, tail⟩ := tight quoted
    simp [Param.rest, Param.content, gap, tail, quoted]

/-- In the right order each parameter is taken for its own field. -/
theorem fold_entries (valid : ∀ p ∈ params, p.Valid) (tight : ∀ p ∈ params, p.Tight) (order : Orderly seen params)
    (once : (params.map Param.field).Nodup) (fresh : ∀ p ∈ params, p.field ∉ seen)
    (state : ∀ f, (s f).isSome = true ↔ f ∈ seen) :
    (bare params).foldlM takePiece s = .ok fun f => (entries params f).or (s f) := by
  induction params generalizing s seen with
  | nil => rfl
  | cons p ps ih =>
    obtain ⟨before, order⟩ := order
    obtain ⟨fresh_ps, once⟩ := List.nodup_cons.1 once
    have own := (valid p List.mem_cons_self).valueIn_own (n := behind ps)
    have free : s p.field = none := by
      rw [← Option.not_isSome_iff_eq_none, state]
      exact fresh p List.mem_cons_self
    have step : takePiece s ⟨p.text, behind ps⟩ = .ok (Function.update s p.field (some (p.own (behind ps)))) :=
      takePiece_ok.2 (Or.inr ⟨p.field, _, free, fun g lt mem => (state g).2 (before g lt mem), own, rfl⟩)
    have next : ∀ f, (Function.update s p.field (some (p.own (behind ps))) f).isSome = true ↔ f ∈ p.field :: seen := by
      intro f
      rw [congrFun (seen_update s p.field (p.own (behind ps))) f, state, List.mem_cons, or_comm]
    have last := ih (fun q mem => valid q (List.mem_cons_of_mem p mem)) (fun q mem => tight q (List.mem_cons_of_mem p mem))
      order once (fun q mem => ?_) next
    · rw [bare, foldlM_cons_ok]
      refine ⟨_, step, last.trans (congrArg _ (funext fun f => ?_))⟩
      rw [entries_cons, Param.own_tight (tight p List.mem_cons_self)]
      by_cases same : f = p.field
      · subst same
        have none_ : entries ps p.field = none := by
          rw [← Option.not_isSome_iff_eq_none, entries_isSome]
          exact fresh_ps
        rw [Function.update_self, Function.update_self, none_]
        rfl
      · rw [Function.update_of_ne same, Function.update_of_ne same]
    · rw [List.mem_cons, not_or]
      exact ⟨fun same => fresh_ps (same ▸ List.mem_map_of_mem mem), fresh q (List.mem_cons_of_mem p mem)⟩

theorem valueOf_isSome : (valueOf params f).isSome = true ↔ f ∈ params.map Param.field := by
  rw [← entries_text, Option.isSome_map, entries_isSome]

end entries

section weight

variable {p : Param} {params : List Param} {s t : RahList} {seen : List AuthField} {f : AuthField} {x : List UInt8}
  {v : AuthField → Option (List UInt8)}

/-- What all fields have together. -/
def weight (v : AuthField → Option (List UInt8)) : Nat := ∑ f, (v f).elim 0 fun x => f.name.length + solid x

theorem weight_update (free : v f = none) :
    weight (Function.update v f (some x)) = weight v + (f.name.length + solid x) := by
  have each : (fun g => (Function.update v f (some x) g).elim 0 fun x => g.name.length + solid x) =
      Function.update (fun g => (v g).elim 0 fun x => g.name.length + solid x) f (f.name.length + solid x) := by
    funext g
    by_cases same : g = f
    · subst same
      rw [Function.update_self, Function.update_self]
      rfl
    · rw [Function.update_of_ne same, Function.update_of_ne same]
  unfold weight
  rw [each, Finset.sum_update_of_mem (Finset.mem_univ f), Nat.add_comm,
    Finset.sum_eq_add_sum_sdiff_singleton_of_mem (Finset.mem_univ f), free, Option.elim_none, Nat.zero_add]

theorem weight_none : weight (fun _ => none) = 0 := Finset.sum_const_zero

theorem weight_valueOf (once : (params.map Param.field).Nodup) :
    weight (valueOf params) = (params.map Param.weight).sum := by
  induction params with
  | nil => exact weight_none
  | cons p ps ih =>
    obtain ⟨fresh, once⟩ := List.nodup_cons.1 once
    have free : valueOf ps p.field = none := by
      rw [← Option.not_isSome_iff_eq_none, valueOf_isSome]
      exact fresh
    rw [valueOf_cons, weight_update free, ih once, List.map_cons, List.sum_cons, Nat.add_comm]
    rfl

def texts (s : RahList) (f : AuthField) : Option (List UInt8) := (s f).map Data.text

theorem texts_update (s : RahList) (f : AuthField) (d : Data) :
    texts (Function.update s f (some d)) = Function.update (texts s) f (some d.text) := by
  funext g
  unfold texts
  by_cases same : g = f
  · subst same
    rw [Function.update_self, Function.update_self]
    rfl
  · rw [Function.update_of_ne same, Function.update_of_ne same]

/-- The fields get no more than the parameters have, and less if one is taken for another's. -/
theorem fold_weight (valid : ∀ p ∈ params, p.Valid) (h : (bare params).foldlM takePiece s = .ok t)
    (state : ∀ f, (s f).isSome = true ↔ f ∈ seen) :
    weight (texts t) ≤ weight (texts s) + (params.map Param.weight).sum ∧
      (weight (texts s) + (params.map Param.weight).sum ≤ weight (texts t) →
        Orderly seen params ∧ ∀ p ∈ params, ∃ n, t p.field = some (p.own n)) := by
  induction params generalizing s seen with
  | nil =>
    obtain rfl := Except.ok.inj h
    exact ⟨Nat.le_refl _, fun _ => ⟨trivial, fun _ mem => nomatch mem⟩⟩
  | cons p ps ih =>
    have valid_ps : ∀ q ∈ ps, q.Valid := fun q mem => valid q (List.mem_cons_of_mem p mem)
    obtain ⟨u, step, rest⟩ := foldlM_cons_ok.1 h
    rw [List.map_cons, List.sum_cons]
    rcases takePiece_ok.1 step with ⟨rfl, -⟩ | ⟨g, d, free, before, value, rfl⟩
    · have le := (ih valid_ps rest state).1
      have pos : 0 < p.weight := Nat.lt_of_lt_of_le (Nat.lt_of_lt_of_le Nat.two_pos (two_le_name _)) (Nat.le_add_right _ _)
      exact ⟨by omega, fun ge => absurd ge (by omega)⟩
    · have next : ∀ f, (Function.update s g (some d) f).isSome = true ↔ f ∈ g :: seen := by
        intro f
        rw [congrFun (seen_update s g d) f, state, List.mem_cons, or_comm]
      obtain ⟨le, tight⟩ := ih valid_ps rest next
      obtain ⟨most, own⟩ := (valid p List.mem_cons_self).weight_le value
      have none_ : texts s g = none := by
        unfold texts
        rw [free]
        rfl
      rw [texts_update, weight_update none_] at le tight
      refine ⟨by omega, fun ge => ?_⟩
      obtain rfl := own (by omega)
      obtain ⟨order, owns⟩ := tight (by omega)
      refine ⟨⟨fun x lt mem => (state x).1 (before x lt mem), order⟩, fun q mem => ?_⟩
      rcases List.mem_cons.1 mem with rfl | mem
      · rw [(valid q List.mem_cons_self).valueIn_own] at value
        obtain rfl := Option.some.inj value
        exact ⟨_, fold_kept rest (Function.update_self ..)⟩
      · exact owns q mem

end weight

section order

variable {md5 : List UInt8 → Fin 16 → UInt8} {hashUserPw method : List UInt8} {room : Nat → Bool} {p : Param}
  {params : List Param} {t : RahList}

theorem mem_intercalate {parts : List (List UInt8)} {c : UInt8}
    (h : c ∈ [44].intercalate parts) : c = 44 ∨ ∃ part ∈ parts, c ∈ part := by
  induction parts with
  | nil => cases h
  | cons x xs ih =>
    cases xs with
    | nil =>
      rw [List.intercalate_singleton] at h
      exact Or.inr ⟨x, List.mem_cons_self, h⟩
    | cons y ys =>
      rw [List.intercalate_cons_cons, List.mem_append, List.mem_append, List.mem_singleton] at h
      rcases h with (mem | eq) | mem
      · exact Or.inr ⟨x, List.mem_cons_self, mem⟩
      · exact Or.inl eq
      · rcases ih mem with eq | ⟨part, inside, mem⟩
        · exact Or.inl eq
        · exact Or.inr ⟨part, List.mem_cons_of_mem x inside, mem⟩

/-- An octet that is neither the end of a line nor of a string. -/
def Inline (c : UInt8) : Prop := c ≠ 0 ∧ c ≠ 10 ∧ c ≠ 13

instance : DecidablePred Inline := fun c => inferInstanceAs (Decidable (c ≠ 0 ∧ c ≠ 10 ∧ c ≠ 13))

theorem inline_blanks {a : List UInt8} (blanks : ∀ c ∈ a, blank c = true) : ∀ c ∈ a, Inline c := by
  intro c mem
  rcases blank_iff.1 (blanks c mem) with rfl | rfl <;> decide

theorem inline_name (f : AuthField) : ∀ c ∈ f.name, Inline c := by
  cases f <;> decide +kernel

theorem Param.Valid.inline (h : p.Valid) : ∀ c ∈ p.lead ++ p.text, Inline c := by
  have content : ∀ c ∈ p.content, Inline c := by
    have value : ∀ c ∈ p.value, Inline c := fun c mem => ⟨(h.line c mem).1, (h.line c mem).2.1, (h.line c mem).2.2.1⟩
    unfold Param.content
    split
    · intro c mem
      rw [List.mem_cons, List.mem_append, List.mem_singleton] at mem
      rcases mem with rfl | mem | rfl
      · decide
      · exact value c mem
      · decide
    · exact value
  intro c mem
  unfold Param.text Param.rest at mem
  simp only [List.mem_append, List.mem_cons] at mem
  rcases mem with mem | (mem | mem) | rfl | mem | mem | mem
  · exact inline_blanks h.lead c mem
  · exact inline_name _ c mem
  · exact inline_blanks h.mid c mem
  · decide
  · exact inline_blanks h.gap c mem
  · exact content c mem
  · exact inline_blanks h.tail c mem

theorem WellFormed.inline (h : WellFormed params) : ∀ c ∈ render params, Inline c := by
  have text : ∀ c ∈ http11AutorizationText, Inline c := by decide +kernel
  intro c mem
  rcases List.mem_append.1 mem with mem | mem
  · exact text c mem
  · rcases mem_intercalate mem with rfl | ⟨part, inside, mem⟩
    · decide
    · obtain ⟨p, which, rfl⟩ := List.mem_map.1 inside
      exact (h.valid p which).inline c mem

theorem WellFormed.asked (h : WellFormed params) : Asked (render params) :=
  ⟨List.prefix_append .., fun c mem => ⟨(h.inline c mem).2.2, (h.inline c mem).2.1⟩⟩

theorem answers_iff (needed : ∀ f : AuthField, f.Needed → (t f).isSome = true) (eq : texts t = valueOf params) :
    hResIn md5 hashUserPw method t = textOf t response ↔ Answers md5 hashUserPw method params := by
  have has : ∀ f : AuthField, f.Needed → valueOf params f = some (textOf t f) := by
    intro f need
    obtain ⟨d, some_⟩ := Option.isSome_iff_exists.1 (needed f need)
    rw [← eq, texts, textOf_of_some some_, some_]
    rfl
  unfold Answers hResIn
  rw [has uri (by decide), has nonce (by decide), has nc (by decide), has cnonce (by decide), has qop (by decide),
    has response (by decide)]
  constructor
  · exact fun h => ⟨_, _, _, _, _, rfl, rfl, rfl, rfl, rfl, congrArg some h.symm⟩
  · rintro ⟨_, _, _, _, _, ⟨⟩, ⟨⟩, ⟨⟩, ⟨⟩, ⟨⟩, h⟩
    exact (Option.some.inj h).symm

theorem none_seen (f : AuthField) : ((fun _ => none : RahList) f).isSome = true ↔ f ∈ ([] : List AuthField) :=
  iff_of_false Bool.false_ne_true List.not_mem_nil

theorem InOrder.list (h : InOrder params) (form : WellFormed params) : rahList (render params) = .ok (entries params) := by
  rw [rahList_render form h.plain, fold_entries form.valid h.tight h.orderly form.once (fun _ _ => List.not_mem_nil)
    none_seen]
  congr 1
  funext f
  exact Option.or_none

theorem InOrder.exact (h : InOrder params) (form : WellFormed params)
    (block : room ((render params).length + 1) = true) : Exact md5 hashUserPw room params := by
  have free : 0 ∉ render params := fun mem => (form.inline 0 mem).1 rfl
  have needed : ∀ f : AuthField, f.Needed → (entries params f).isSome = true :=
    fun f need => entries_isSome.2 (h.needed f need)
  have answers : ∀ method, hResIn md5 hashUserPw method (entries params) = textOf (entries params) response ↔
      Answers md5 hashUserPw method params := fun method => answers_iff needed (funext (entries_text params))
  refine ⟨⟨_, h.list form, entries_text params⟩, fun method => ?_, fun isPost data dataLen asked => ?_⟩
  · exact ⟨_, (rtspAuthorize_ok block).2 ⟨_, h.list form, needed, rfl⟩, decide_eq_true_iff.trans (answers _)⟩
  · rw [httpAuthProcess_eq asked]
    exact ⟨_, (httpAuthorize_ok block free).2 ⟨_, h.list form, needed, fun _ => h.wide, rfl⟩,
      decide_eq_true_iff.trans (answers _)⟩

/-- Only what is in order is understood: all values together are as long as the list can hold, so that each piece was
taken for its own field. -/
theorem Exact.inOrder (h : Exact md5 hashUserPw room params) (form : WellFormed params)
    (block : room ((render params).length + 1) = true) : InOrder params := by
  have free : 0 ∉ render params := fun mem => (form.inline 0 mem).1 rfl
  obtain ⟨t, parsed, text⟩ := h.list
  have value : ∀ p ∈ params, ∃ d, t p.field = some d ∧ d.text = p.value := by
    intro p mem
    have own := text p.field
    rw [valueOf_mem form.once mem] at own
    exact Option.map_eq_some_iff.1 own
  have plain : ∀ p ∈ params, 44 ∉ p.value := by
    intro p mem
    obtain ⟨d, has, eq⟩ := value p mem
    exact eq ▸ (rahList_sub parsed has).1
  have fold := parsed
  rw [rahList_render form plain] at fold
  have full : weight (texts t) = (params.map Param.weight).sum := (congrArg weight (funext text)).trans (weight_valueOf form.once)
  have empty : weight (texts fun _ => none) = 0 := weight_none
  obtain ⟨order, owns⟩ := (fold_weight form.valid fold none_seen).2 (by rw [full, empty, Nat.zero_add])
  have tight : ∀ p ∈ params, p.Tight := by
    intro p mem quoted
    obtain ⟨d, has, eq⟩ := value p mem
    obtain ⟨n, own⟩ := owns p mem
    rw [own] at has
    obtain rfl := Option.some.inj has
    have len := congrArg List.length eq
    unfold Param.own Param.rest Param.content at len
    simp only [quoted, Bool.false_eq_true, if_false, List.length_append] at len
    exact ⟨List.length_eq_zero_iff.1 (by omega), List.length_eq_zero_iff.1 (by omega)⟩
  have same : t = entries params := by
    rw [fold_entries form.valid tight order form.once (fun _ _ => List.not_mem_nil)
      none_seen] at fold
    rw [← Except.ok.inj fold]
    funext f
    exact Option.or_none
  obtain ⟨b, ok, -⟩ := h.rtsp .options
  obtain ⟨t', parsed', needed, -⟩ := (rtspAuthorize_ok block).1 ok
  obtain ⟨b, ok, -⟩ := h.http 0 (render params) _ (httpHeader_self form.asked)
  rw [httpAuthProcess_eq (httpHeader_self form.asked)] at ok
  obtain ⟨t'', parsed'', -, wide, -⟩ := (httpAuthorize_ok block free).1 ok
  rw [parsed, same] at parsed' parsed''
  obtain rfl := Except.ok.inj parsed'
  obtain rfl := Except.ok.inj parsed''
  exact ⟨fun f need => entries_isSome.1 (needed f need), plain, tight, order, wide trivial⟩

theorem InOrder.labelled (h : InOrder params) (form : WellFormed params) : Labelled (render params) :=
  labelled_iff.2 ⟨_, h.list form, fun _ => h.wide, fun f need => entries_isSome.2 (h.needed f need)⟩

def usual : List Param :=
  [⟨username, [], [], [], true, ascii "admin", []⟩, ⟨realm, [32], [], [], true, ascii "camera", []⟩,
    ⟨nonce, [32], [], [], true, ascii "7a", []⟩, ⟨uri, [32], [], [], true, ascii "/", []⟩,
    ⟨response, [32], [], [], true, List.replicate 32 48, []⟩, ⟨qop, [32], [], [], false, ascii "auth", []⟩,
    ⟨nc, [32], [], [], false, ascii "00000001", []⟩, ⟨cnonce, [32], [], [], true, ascii "c1", []⟩]

/-- The same fields with `cnonce` in front of `nonce`. -/
def cnonceFirst : List Param :=
  [⟨username, [], [], [], true, ascii "admin", []⟩, ⟨realm, [32], [], [], true, ascii "camera", []⟩,
    ⟨cnonce, [32], [], [], true, ascii "c1", []⟩, ⟨nonce, [32], [], [], true, ascii "7a", []⟩,
    ⟨uri, [32], [], [], true, ascii "/", []⟩, ⟨response, [32], [], [], true, List.replicate 32 48, []⟩,
    ⟨qop, [32], [], [], false, ascii "auth", []⟩, ⟨nc, [32], [], [], false, ascii "00000001", []⟩]

theorem usual_form : WellFormed usual := ⟨by decide, by decide +kernel, by decide⟩

theorem usual_inOrder : InOrder usual := by
  have wide : (entries usual response).all (fun d => decide (33 ≤ d.room)) = true := by decide +kernel
  refine ⟨by decide, by decide +kernel, by decide +kernel, by decide +kernel, fun d has => ?_⟩
  rw [has] at wide
  exact of_decide_eq_true wide

theorem digest_iff (md5 : List UInt8 → Fin 16 → UInt8) (hashUserPw : List UInt8) (room : Nat → Bool)
    {header : List UInt8} (free : 0 ∉ header) {params : List Param} (form : WellFormed params) :
    (Total md5 hashUserPw room header ↔ (room (header.length + 1) = true → Labelled header)) ∧
      (room ((render params).length + 1) = true → (Exact md5 hashUserPw room params ↔ InOrder params)) :=
  ⟨total_iff free, fun block => ⟨fun h => h.inOrder form block, fun h => h.exact form block⟩⟩

theorem digest_iff_usual : Total (fun _ _ => 0) [] (fun _ => true) (render usual) ∧
    Exact (fun _ _ => 0) [] (fun _ => true) usual := by
  obtain ⟨total, exact_⟩ := digest_iff (fun _ _ => 0) [] (fun _ => true)
    (by decide +kernel : 0 ∉ render usual) usual_form
  exact ⟨total.2 fun _ => usual_inOrder.labelled usual_form, (exact_ rfl).2 usual_inOrder⟩

/-- With all fields there, `cnonce` is taken for `nonce` and `nonce` for `nc`, and nothing is left for `cnonce`. -/
theorem digest_swapped : WellFormed cnonceFirst ∧ (∀ f : AuthField, f.Needed → f ∈ cnonceFirst.map Param.field) ∧
    ((rahList (render cnonceFirst)).toOption.map fun t => (textOf t nonce, textOf t nc, (t cnonce).isSome)) =
      some (ascii "c1", ascii "7a", false) ∧
    rtspdClientRtspAuthorization (fun _ _ => 0) [] (fun _ => true) (render cnonceFirst) .options = .error .null ∧
    ¬Total (fun _ _ => 0) [] (fun _ => true) (render cnonceFirst) ∧
    ¬Exact (fun _ _ => 0) [] (fun _ => true) cnonceFirst := by
  have fault : rtspdClientRtspAuthorization (fun _ _ => 0) [] (fun _ => true) (render cnonceFirst) .options =
      .error .null := by decide +kernel
  refine ⟨⟨by decide, by decide +kernel, by decide⟩, by decide, by decide +kernel, fault, fun h => ?_, fun h => ?_⟩
  · obtain ⟨b, ok⟩ := h.rtsp .options
    rw [fault] at ok
    cases ok
  · obtain ⟨b, ok, -⟩ := h.rtsp .options
    rw [fault] at ok
    cases ok

end order

end En675.Rtsp.Digest
