import En675.Lib.CString
import En675.Rtsp.Authorization
import En675.Rtsp.Process
import Mathlib.Data.Fintype.Basic

/-! Digest authorization (`rtspd_authorization.c` with `RTSPD_AUTH_DIGEST`, `httpd_authorization.c` with
`LWIP_HTTPD_AUTH_DIGEST`), of which there are two copies.  `md5` is any function from octets to sixteen octets, and
`room` says whether the heap has a block of a size. -/

namespace En675.Rtsp.Digest

open Lib

/-- The fields, in the order of the table. -/
inductive AuthField
  | username | realm | nonce | uri | response | algorithm | qop | cnonce | nc | strOpaque
  deriving DecidableEq, Repr

namespace AuthField

def name : AuthField → List UInt8
  | username => ascii "username"
  | realm => ascii "realm"
  | nonce => ascii "nonce"
  | uri => ascii "uri"
  | response => ascii "response"
  | algorithm => ascii "algorithm"
  | qop => ascii "qop"
  | cnonce => ascii "cnonce"
  | nc => ascii "nc"
  | strOpaque => ascii "opaque"

/-- The place in the table, where the chain of comparisons asks for it. -/
def num : AuthField → Nat
  | username => 0
  | realm => 1
  | nonce => 2
  | uri => 3
  | response => 4
  | algorithm => 5
  | qop => 6
  | cnonce => 7
  | nc => 8
  | strOpaque => 9

/-- The fields that a response is made from or compared with. -/
def Needed (f : AuthField) : Prop := f ∈ [response, nonce, uri, qop, cnonce, nc]

instance : DecidablePred Needed := fun f => inferInstanceAs (Decidable (f ∈ _))

end AuthField

open AuthField

def chain : List AuthField := [username, realm, nonce, uri, response, algorithm, qop, cnonce, nc, strOpaque]

instance : Fintype AuthField where
  elems := chain.toFinset
  complete f := by cases f <;> decide

/-- Where a pointer points to: the string there, and how many octets there are up to the end of the copy. -/
structure Data where
  text : List UInt8
  room : Nat

/-- `rahList`; a field is `checked` when it has data. -/
abbrev RahList := AuthField → Option Data

/-- What `strtok` gives in turn, with the number of octets of the copy behind it. -/
structure Piece where
  text : List UInt8
  behind : Nat

section source

/-- Empty pieces are skipped. -/
def pieces : List (List UInt8) → List Piece
  | [] => []
  | p :: ps =>
    if p = [] then pieces ps else ⟨p, (ps.map fun q => q.length + 1).sum + 1⟩ :: pieces ps

def strtok (header : List UInt8) : List Piece := pieces (header.splitOn 44)

/-- `rtspd_client_rtsp_auth_del_quotes` and `http_auth_del_quotes`: without a `=` it is `NULL + 1` that is searched,
and without a second quote `NULL` is written. -/
def delQuotes (temp : List UInt8) (behind : Nat) : Except Fault Data :=
  match cut [61] temp with
  | none => .error .null
  | some (_, temp) =>
    match cut [34] temp with
    | none => .ok ⟨temp, temp.length + behind⟩
    | some (_, temp) =>
      match cut [34] temp with
      | none => .error .null
      | some (value, rest) => .ok ⟨value, value.length + 1 + rest.length + behind⟩

/-- The first field of the chain that is not checked and whose name is somewhere in the piece, from there on. -/
def fieldOf (s : RahList) (p : Piece) : Option (AuthField × List UInt8) :=
  chain.findSome? fun f => if (s f).isSome then none else (cut f.name p.text).map fun r => (f, f.name ++ r.2)

def takePiece (s : RahList) (p : Piece) : Except Fault RahList :=
  match fieldOf s p with
  | none => .ok s
  | some (f, temp) => (delQuotes temp p.behind).map fun d => Function.update s f (some d)

def rahList (header : List UInt8) : Except Fault RahList := (strtok header).foldlM takePiece fun _ => none

/-- `data` with `strlen(data)` octets. -/
def dataOf (s : RahList) (f : AuthField) : Except Fault (List UInt8) :=
  match s f with
  | none => .error .null
  | some d => .ok d.text

def hexOf (n : Nat) : UInt8 := if n ≤ 9 then .ofNat (n + 0x30) else .ofNat (n - 10 + 0x61)

def hex2Str32B (digest : Fin 16 → UInt8) : List UInt8 :=
  (List.finRange 16).flatMap fun i => [hexOf ((digest i).toNat / 16), hexOf ((digest i).toNat % 16)]

variable (md5 : List UInt8 → Fin 16 → UInt8) (hashUserPw : List UInt8) (room : Nat → Bool)

/-- `HRes`, of the values that are in the list. -/
def hResOf (method uri nonce nc cnonce qop : List UInt8) : List UInt8 :=
  let ha2 := hex2Str32B (md5 (method ++ [58] ++ uri))
  hex2Str32B (md5 (hashUserPw.take 32 ++ [58] ++ nonce ++ [58] ++ nc ++ [58] ++ cnonce ++ [58] ++ qop ++ [58] ++ ha2))

def hRes (method : List UInt8) (s : RahList) : Except Fault (List UInt8) := do
  let uri ← dataOf s .uri
  let nonce ← dataOf s .nonce
  let nc ← dataOf s .nc
  let cnonce ← dataOf s .cnonce
  let qop ← dataOf s .qop
  return hResOf md5 hashUserPw method uri nonce nc cnonce qop

/-- `strcmp(HRes, data) == 0`. -/
def strcmpData (hres : List UInt8) : Option Data → Except Fault Bool
  | none => .error .null
  | some d => .ok (decide (hres = d.text))

/-- `memcmp(HRes, data, sizeof(HRes)) == 0`, of `33` octets. -/
def memcmpData (hres : List UInt8) : Option Data → Except Fault Bool
  | none => .error .null
  | some d => if d.room < 33 then .error .header else .ok (decide ((hres ++ [0]).take 33 = (d.text ++ [0]).take 33))

/-- What the two copies have in common. -/
def authorize (compare : List UInt8 → Option Data → Except Fault Bool) (method header : List UInt8) :
    Except Fault Bool := do
  if !room (header.length + 1) then return false
  let s ← rahList header
  let hres ← hRes md5 hashUserPw method s
  compare hres (s .response)

def rtspAuthorize (method header : List UInt8) : Except Fault Bool :=
  authorize md5 hashUserPw room strcmpData method header

/-- `rtspd_client_rtsp_authorization`. -/
def rtspdClientRtspAuthorization (header : List UInt8) (method : RtspMethod) : Except Fault Bool :=
  rtspAuthorize md5 hashUserPw room (ascii method.text) header

def httpAuthorize (method header : List UInt8) : Except Fault Bool :=
  authorize md5 hashUserPw room memcmpData method header

/-- `HTTP11_AUTORIZATION_TEXT`. -/
def http11AutorizationText : List UInt8 := ascii "Authorization: Digest "

/-- The header in a request, up to the end of its line. -/
def httpHeader (data : List UInt8) (dataLen : Nat) : Option (List UInt8) :=
  (cut http11AutorizationText (data.take dataLen)).map fun r =>
    (data.drop r.1.length).takeWhile fun c => c ≠ 13 ∧ c ≠ 10

/-- `http_auth_process`. -/
def httpAuthProcess (isPost : Int) (data : List UInt8) (dataLen : Nat) : Except Fault Bool :=
  match httpHeader data dataLen with
  | none => .ok false
  | some header => httpAuthorize md5 hashUserPw room (if isPost = 1 then ascii "POST" else ascii "GET") header

end source

/-- The name is somewhere in the piece. -/
def AuthField.In (f : AuthField) (p : Piece) : Prop := f.name <:+: p.text

/-- A line that is a header of a request. -/
def Asked (header : List UInt8) : Prop := http11AutorizationText <+: header ∧ ∀ c ∈ header, c ≠ 13 ∧ c ≠ 10

/-- The data that the piece has for the field. -/
def valueIn (f : AuthField) (p : Piece) : Option Data :=
  (cut f.name p.text).bind fun r => (delQuotes (f.name ++ r.2) p.behind).toOption

/-- What is behind the first `=` behind the name. -/
def behindEq (f : AuthField) (p : Piece) : Option (List UInt8) :=
  (cut f.name p.text).bind fun r => (cut [61] r.2).map Prod.snd

/-- What is behind the first quote, if there is one. -/
def opened (temp : List UInt8) : List UInt8 := (cut [34] temp).elim temp Prod.snd

/-- Behind the name there is a `=`, and behind that not one quote only; where it is compared as a whole the response
has 33 octets up to the end of the copy. -/
def Carries (asked : Prop) (f : AuthField) (p : Piece) : Prop :=
  ∃ temp, behindEq f p = some temp ∧ temp.count 34 ≠ 1 ∧
    (asked → f = response → 33 ≤ (opened temp).length + p.behind)

/-- The fields that the pieces stand for, after those that were seen: a piece stands for the first field of the table
that is in it and was not seen. -/
inductive Labels (asked : Prop) : (AuthField → Prop) → List Piece → (AuthField → Prop) → Prop
  | done {seen} : Labels asked seen [] seen
  | unknown {seen last p ps} : (∀ g, g.In p → seen g) → Labels asked seen ps last → Labels asked seen (p :: ps) last
  | field {seen last p ps} (f : AuthField) : f.In p → ¬seen f → (∀ g, g.num < f.num → g.In p → seen g) →
    Carries asked f p → Labels asked (fun g => seen g ∨ g = f) ps last → Labels asked seen (p :: ps) last

/-- The pieces of a header stand for all fields that are needed. -/
def Labelled (header : List UInt8) : Prop :=
  ∃ last, Labels (Asked header) (fun _ => False) (strtok header) last ∧ ∀ f, f.Needed → last f

section chain

variable {s t : RahList} {p : Piece} {f : AuthField} {temp : List UInt8} {asked : Prop}

theorem mem_chain (f : AuthField) : f ∈ chain := by
  cases f <;> decide

/-- What the chain has asked before a field. -/
theorem before_chain {a b : List AuthField} (h : chain = a ++ f :: b) (g : AuthField) : g ∈ a ↔ g.num < f.num := by
  have sorted : (a ++ f :: b).Pairwise fun x y => x.num < y.num := h ▸ by decide
  obtain ⟨-, tail, across⟩ := List.pairwise_append.1 sorted
  constructor
  · exact fun mem => across g mem f List.mem_cons_self
  · intro lt
    have mem : g ∈ a ++ f :: b := h ▸ mem_chain g
    rcases List.mem_append.1 mem with mem | mem
    · exact mem
    · rcases List.mem_cons.1 mem with rfl | mem
      · exact absurd lt (Nat.lt_irrefl _)
      · exact absurd ((List.pairwise_cons.1 tail).1 g mem) (Nat.lt_asymm lt)

theorem fieldOf_none : fieldOf s p = none ↔ ∀ g, g.In p → (s g).isSome := by
  unfold fieldOf
  rw [List.findSome?_eq_none_iff]
  constructor
  · intro h g mem
    have asked := h g (mem_chain g)
    by_cases seen : (s g).isSome
    · exact seen
    · rw [if_neg seen, Option.map_eq_none_iff] at asked
      exact absurd (cut_isSome_iff.2 mem) (by rw [asked]; exact Bool.false_ne_true)
  · intro h g _
    by_cases seen : (s g).isSome
    · exact if_pos seen
    · rw [if_neg seen, Option.map_eq_none_iff]
      exact Option.not_isSome_iff_eq_none.1 fun found => seen (h g (cut_isSome_iff.1 found))

theorem fieldOf_some : fieldOf s p = some (f, temp) ↔ s f = none ∧
    (∃ r, cut f.name p.text = some r ∧ temp = f.name ++ r.2) ∧ ∀ g, g.num < f.num → g.In p → (s g).isSome := by
  have skips : ∀ g, (if (s g).isSome then none else (cut g.name p.text).map fun r => (g, g.name ++ r.2)) = none ↔
      (g.In p → (s g).isSome) := by
    intro g
    by_cases seen : (s g).isSome
    · exact iff_of_true (if_pos seen) fun _ => seen
    · rw [if_neg seen, Option.map_eq_none_iff, ← Option.not_isSome_iff_eq_none, cut_isSome_iff]
      exact ⟨fun no mem => absurd mem no, fun h mem => seen (h mem)⟩
  unfold fieldOf
  rw [List.findSome?_eq_some_iff]
  constructor
  · rintro ⟨a, g, b, split, here, before⟩
    by_cases seen : (s g).isSome
    · rw [if_pos seen] at here
      cases here
    · rw [if_neg seen] at here
      obtain ⟨r, found, eq⟩ := Option.map_eq_some_iff.1 here
      obtain ⟨rfl, rfl⟩ := Prod.mk.inj eq
      exact ⟨Option.not_isSome_iff_eq_none.1 seen, ⟨r, found, rfl⟩, fun x lt mem =>
        (skips x).1 (before x ((before_chain split x).2 lt)) mem⟩
  · rintro ⟨free, ⟨r, found, rfl⟩, before⟩
    obtain ⟨a, b, split⟩ := List.append_of_mem (mem_chain f)
    refine ⟨a, f, b, split, ?_, fun x mem => (skips x).2 (before x ((before_chain split x).1 mem))⟩
    rw [if_neg (by rw [free]; exact Bool.false_ne_true), found]
    rfl

/-- One piece: nothing, or one field more. -/
theorem takePiece_ok : takePiece s p = .ok t ↔ (t = s ∧ ∀ g, g.In p → (s g).isSome) ∨
    ∃ f d, s f = none ∧ (∀ g, g.num < f.num → g.In p → (s g).isSome) ∧ valueIn f p = some d ∧
      t = Function.update s f (some d) := by
  unfold takePiece
  constructor
  · intro h
    cases which : fieldOf s p with
    | none =>
      rw [which] at h
      exact Or.inl ⟨(Except.ok.inj h).symm, fieldOf_none.1 which⟩
    | some found =>
      obtain ⟨f, temp⟩ := found
      rw [which] at h
      obtain ⟨free, ⟨r, cut_, rfl⟩, before⟩ := fieldOf_some.1 which
      dsimp only at h
      cases value : delQuotes (f.name ++ r.2) p.behind with
      | error e =>
        rw [value] at h
        cases h
      | ok d =>
        rw [value] at h
        refine Or.inr ⟨f, d, free, before, ?_, (Except.ok.inj h).symm⟩
        unfold valueIn
        rw [cut_, Option.bind_some, value]
        rfl
  · rintro (⟨rfl, all⟩ | ⟨f, d, free, before, value, rfl⟩)
    · rw [fieldOf_none.2 all]
    · obtain ⟨r, cut_, value⟩ := Option.bind_eq_some_iff.1 value
      rw [fieldOf_some.2 ⟨free, ⟨r, cut_, rfl⟩, before⟩]
      dsimp only
      cases ok : delQuotes (f.name ++ r.2) p.behind with
      | error e =>
        rw [ok] at value
        cases value
      | ok d' =>
        rw [ok] at value
        cases value
        rfl

/-- The value without the quotes, unless one of them is missing. -/
def unquote (temp : List UInt8) (behind : Nat) : Option Data :=
  match cut [34] temp with
  | none => some ⟨temp, temp.length + behind⟩
  | some (_, temp) => (cut [34] temp).map fun r => ⟨r.1, r.1.length + 1 + r.2.length + behind⟩

theorem delQuotes_toOption (behind : Nat) :
    (delQuotes temp behind).toOption = (cut [61] temp).bind fun r => unquote r.2 behind := by
  unfold delQuotes unquote
  cases cut [61] temp with
  | none => rfl
  | some r =>
    obtain ⟨a, b⟩ := r
    dsimp only [Option.bind_some]
    cases cut [34] b with
    | none => rfl
    | some r =>
      obtain ⟨a, b⟩ := r
      dsimp only
      cases cut [34] b <;> rfl

theorem not_mem_name (f : AuthField) : 61 ∉ f.name ∧ 34 ∉ f.name ∧ 32 ∉ f.name ∧ 9 ∉ f.name := by
  cases f <;> decide +kernel

theorem valueIn_eq : valueIn f p = (behindEq f p).bind fun temp => unquote temp p.behind := by
  unfold valueIn behindEq
  rw [Option.bind_assoc]
  congr 1
  funext r
  rw [delQuotes_toOption, cut_skip_of_not_mem (not_mem_name f).1]
  cases cut [61] r.2 <;> rfl

theorem unquote_room (behind : Nat) (long : Nat → Prop) : (∃ d, unquote temp behind = some d ∧ long d.room) ↔
    temp.count 34 ≠ 1 ∧ long ((opened temp).length + behind) := by
  unfold unquote opened
  cases first : cut [34] temp with
  | none =>
    have free : temp.count 34 = 0 := List.count_eq_zero.2 (cut_eq_none.1 first)
    rw [free]
    exact ⟨fun ⟨_, eq, h⟩ => ⟨Nat.zero_ne_one, by cases eq; exact h⟩, fun h => ⟨_, rfl, h.2⟩⟩
  | some r =>
    obtain ⟨a, b⟩ := r
    have before : a.count 34 = 0 := List.count_eq_zero.2 (cut_not_mem first)
    have all : temp.count 34 = 1 + b.count 34 := by
      rw [cut_eq first, List.count_append, List.count_append, before, List.count_singleton_self, Nat.zero_add]
    dsimp only [Option.elim]
    cases second : cut [34] b with
    | none =>
      have free : b.count 34 = 0 := List.count_eq_zero.2 (cut_eq_none.1 second)
      exact ⟨fun ⟨_, eq, _⟩ => (Option.some_ne_none _ eq.symm).elim, fun h => absurd (by rw [all, free]) h.1⟩
    | some r =>
      obtain ⟨value, rest⟩ := r
      have whole : b.length = value.length + 1 + rest.length := by
        rw [cut_eq second, List.length_append, List.length_append, List.length_singleton]
      have two : temp.count 34 ≠ 1 := by
        rw [all, cut_eq second, List.count_append, List.count_append, List.count_singleton_self]
        omega
      rw [whole]
      exact ⟨fun ⟨_, eq, h⟩ => ⟨two, by cases eq; exact h⟩, fun h => ⟨_, rfl, h.2⟩⟩

theorem carries_iff :
    (∃ d, valueIn f p = some d ∧ (asked → f = response → 33 ≤ d.room)) ↔ Carries asked f p := by
  unfold Carries
  rw [valueIn_eq]
  constructor
  · rintro ⟨d, value, h⟩
    obtain ⟨temp, found, value⟩ := Option.bind_eq_some_iff.1 value
    exact ⟨temp, found, (unquote_room p.behind fun n => asked → f = response → 33 ≤ n).1 ⟨d, value, h⟩⟩
  · rintro ⟨temp, found, h⟩
    obtain ⟨d, value, h⟩ := (unquote_room p.behind fun n => asked → f = response → 33 ≤ n).2 h
    exact ⟨d, Option.bind_eq_some_iff.2 ⟨temp, found, value⟩, h⟩

theorem In_of_valueIn {d : Data} (h : valueIn f p = some d) : f.In p := by
  obtain ⟨r, found, -⟩ := Option.bind_eq_some_iff.1 h
  exact cut_isSome_iff.1 (Option.isSome_iff_exists.2 ⟨r, found⟩)

end chain

/-- The response that is compared as a whole is long enough. -/
def Wide (asked : Prop) (s : RahList) : Prop := asked → ∀ d, s .response = some d → 33 ≤ d.room

section parse

variable {s t : RahList} {p : Piece} {ps : List Piece} {f : AuthField} {asked : Prop} {last : AuthField → Prop}

theorem foldlM_cons_ok : (p :: ps).foldlM takePiece s = .ok t ↔
    ∃ v, takePiece s p = .ok v ∧ ps.foldlM takePiece v = .ok t := by
  rw [List.foldlM_cons]
  cases takePiece s p with
  | error e => exact ⟨(fun h => nomatch h), fun ⟨_, h, _⟩ => nomatch h⟩
  | ok v => exact ⟨fun h => ⟨v, rfl, h⟩, fun ⟨w, h, rest⟩ => Except.ok.inj h ▸ rest⟩

/-- What a field has once it keeps. -/
theorem takePiece_kept {d : Data} (h : takePiece s p = .ok t) (has : s f = some d) : t f = some d := by
  rcases takePiece_ok.1 h with ⟨rfl, -⟩ | ⟨g, d', free, -, -, rfl⟩
  · exact has
  · rw [Function.update_of_ne (by rintro rfl; rw [free] at has; cases has)]
    exact has

theorem fold_kept {d : Data} (h : ps.foldlM takePiece s = .ok t) (has : s f = some d) : t f = some d := by
  induction ps generalizing s with
  | nil => exact Except.ok.inj h ▸ has
  | cons p ps ih =>
    obtain ⟨v, step, rest⟩ := foldlM_cons_ok.1 h
    exact ih rest (takePiece_kept step has)

theorem seen_update (s : RahList) (f : AuthField) (d : Data) :
    (fun g => (Function.update s f (some d) g).isSome = true) = fun g => (s g).isSome = true ∨ g = f := by
  funext g
  by_cases same : g = f
  · subst same
    rw [Function.update_self]
    exact propext (iff_of_true rfl (Or.inr rfl))
  · rw [Function.update_of_ne same]
    exact propext ⟨Or.inl, fun c => c.resolve_right same⟩

/-- The pieces are gone through without a fault if and only if they can be labelled. -/
theorem fold_labels (wide : Wide asked s) : (∃ t, ps.foldlM takePiece s = .ok t ∧ Wide asked t ∧
    last = fun f => (t f).isSome = true) ↔ Labels asked (fun f => (s f).isSome = true) ps last := by
  induction ps generalizing s with
  | nil =>
    constructor
    · rintro ⟨t, eq, -, rfl⟩
      rw [Except.ok.inj eq]
      exact .done
    · intro h
      cases h
      exact ⟨s, rfl, wide, rfl⟩
  | cons p ps ih =>
    constructor
    · rintro ⟨t, eq, wide', rfl⟩
      obtain ⟨v, step, rest⟩ := foldlM_cons_ok.1 eq
      rcases takePiece_ok.1 step with ⟨rfl, all⟩ | ⟨f, d, free, before, value, rfl⟩
      · exact .unknown all ((ih wide).1 ⟨t, rest, wide', rfl⟩)
      · have kept : t f = some d := fold_kept rest (Function.update_self ..)
        have room : asked → f = response → 33 ≤ d.room := by
          rintro h rfl
          exact wide' h d kept
        refine .field f (In_of_valueIn value) (by rw [free]; exact Bool.false_ne_true) before
          (carries_iff.1 ⟨d, value, room⟩) ?_
        rw [← seen_update s f d]
        refine (ih fun h d' has => ?_).1 ⟨t, rest, wide', rfl⟩
        exact wide' h d' (fold_kept rest has)
    · intro h
      cases h with
      | unknown all rest =>
        obtain ⟨t, eq, wide', rfl⟩ := (ih wide).2 rest
        exact ⟨t, foldlM_cons_ok.2 ⟨s, takePiece_ok.2 (Or.inl ⟨rfl, all⟩), eq⟩, wide', rfl⟩
      | field f mem free before carries rest =>
        obtain ⟨d, value, room⟩ := carries_iff.2 carries
        have none_ : s f = none := Option.not_isSome_iff_eq_none.1 free
        rw [← seen_update s f d] at rest
        have wide_next : Wide asked (Function.update s f (some d)) := by
          intro h d' has
          by_cases same : response = f
          · subst same
            rw [Function.update_self] at has
            cases has
            exact room h rfl
          · rw [Function.update_of_ne same] at has
            exact wide h d' has
        obtain ⟨t, eq, wide', rfl⟩ := (ih wide_next).2 rest
        exact ⟨t, foldlM_cons_ok.2 ⟨_, takePiece_ok.2 (Or.inr ⟨f, d, none_, before, value, rfl⟩), eq⟩, wide', rfl⟩

theorem labelled_iff {header : List UInt8} : Labelled header ↔ ∃ t, rahList header = .ok t ∧ Wide (Asked header) t ∧
    ∀ f, f.Needed → (t f).isSome = true := by
  have start : (fun f => ((fun _ => none : RahList) f).isSome = true) = fun _ : AuthField => False := by
    funext f
    exact propext ⟨(fun h => nomatch h), False.elim⟩
  have empty : Wide (Asked header) fun _ => none := by
    intro _ d h
    cases h
  unfold Labelled rahList
  constructor
  · rintro ⟨last, labels, needed⟩
    rw [← start] at labels
    obtain ⟨t, eq, wide, rfl⟩ := (fold_labels empty).2 labels
    exact ⟨t, eq, wide, needed⟩
  · rintro ⟨t, eq, wide, needed⟩
    refine ⟨_, ?_, needed⟩
    rw [← start]
    exact (fold_labels empty).1 ⟨t, eq, wide, rfl⟩

end parse

theorem bind_ok_iff {α β : Type} {x : Except Fault α} {f : α → Except Fault β} {b : β} :
    (x >>= f) = .ok b ↔ ∃ a, x = .ok a ∧ f a = .ok b := by
  cases x with
  | error e => exact ⟨(fun h => nomatch h), fun ⟨_, h, _⟩ => nomatch h⟩
  | ok a => exact ⟨fun h => ⟨a, rfl, h⟩, fun ⟨_, h, rest⟩ => Except.ok.inj h ▸ rest⟩

/-- The text of a field that has one. -/
def textOf (t : RahList) (f : AuthField) : List UInt8 := ((t f).map Data.text).getD []

section authorize

variable {md5 : List UInt8 → Fin 16 → UInt8} {hashUserPw : List UInt8} {room : Nat → Bool} {t : RahList}
  {compare : List UInt8 → Option Data → Except Fault Bool} {method header text : List UInt8} {f : AuthField}

theorem dataOf_ok : dataOf t f = .ok text ↔ (t f).isSome = true ∧ text = textOf t f := by
  unfold dataOf textOf
  cases t f with
  | none => exact ⟨(fun h => nomatch h), fun h => nomatch h.1⟩
  | some d => exact ⟨fun h => ⟨rfl, (Except.ok.inj h).symm⟩, fun h => congrArg Except.ok h.2.symm⟩

/-- `HRes` of a list. -/
def hResIn (md5 : List UInt8 → Fin 16 → UInt8) (hashUserPw method : List UInt8) (t : RahList) : List UInt8 :=
  hResOf md5 hashUserPw method (textOf t .uri) (textOf t .nonce) (textOf t .nc) (textOf t .cnonce) (textOf t .qop)

theorem hRes_ok : hRes md5 hashUserPw method t = .ok text ↔
    (∀ f, f.Needed → f ≠ response → (t f).isSome = true) ∧ text = hResIn md5 hashUserPw method t := by
  have five : (∀ f : AuthField, f.Needed → f ≠ response → (t f).isSome = true) ↔ (t .uri).isSome = true ∧
      (t .nonce).isSome = true ∧ (t .nc).isSome = true ∧ (t .cnonce).isSome = true ∧ (t .qop).isSome = true := by
    constructor
    · intro h
      exact ⟨h uri (by decide) (by decide), h nonce (by decide) (by decide), h nc (by decide) (by decide),
        h cnonce (by decide) (by decide), h qop (by decide) (by decide)⟩
    · rintro ⟨h0, h1, h2, h3, h4⟩ f needed ne
      cases f <;> first | assumption | exact absurd rfl ne | exact absurd needed (by decide)
  rw [five]
  unfold hRes hResIn
  simp only [bind_ok_iff, dataOf_ok]
  constructor
  · rintro ⟨_, ⟨h0, rfl⟩, _, ⟨h1, rfl⟩, _, ⟨h2, rfl⟩, _, ⟨h3, rfl⟩, _, ⟨h4, rfl⟩, eq⟩
    exact ⟨⟨h0, h1, h2, h3, h4⟩, (Except.ok.inj eq).symm⟩
  · rintro ⟨⟨h0, h1, h2, h3, h4⟩, rfl⟩
    exact ⟨_, ⟨h0, rfl⟩, _, ⟨h1, rfl⟩, _, ⟨h2, rfl⟩, _, ⟨h3, rfl⟩, _, ⟨h4, rfl⟩, rfl⟩

theorem authorize_ok {b : Bool} (block : room (header.length + 1) = true) :
    authorize md5 hashUserPw room compare method header = .ok b ↔ ∃ t, rahList header = .ok t ∧
      (∀ f, f.Needed → f ≠ response → (t f).isSome = true) ∧
      compare (hResIn md5 hashUserPw method t) (t .response) = .ok b := by
  unfold authorize
  simp only [block, Bool.not_true, Bool.false_eq_true, if_false, bind_ok_iff, hRes_ok]
  constructor
  · rintro ⟨t, parsed, _, ⟨needed, rfl⟩, eq⟩
    exact ⟨t, parsed, needed, eq⟩
  · rintro ⟨t, parsed, needed, eq⟩
    exact ⟨t, parsed, _, ⟨needed, rfl⟩, eq⟩

theorem authorize_full (block : room (header.length + 1) = false) :
    authorize md5 hashUserPw room compare method header = .ok false := by
  unfold authorize
  rw [block]
  rfl

theorem strcmpData_ok {d : Option Data} {b : Bool} :
    strcmpData text d = .ok b ↔ ∃ x, d = some x ∧ b = decide (text = x.text) := by
  cases d with
  | none => exact ⟨(fun h => nomatch h), fun ⟨_, h, _⟩ => nomatch h⟩
  | some x => exact ⟨fun h => ⟨x, rfl, (Except.ok.inj h).symm⟩, fun ⟨_, h, eq⟩ => Option.some.inj h ▸ eq ▸ rfl⟩

theorem memcmpData_ok {d : Option Data} {b : Bool} : memcmpData text d = .ok b ↔
    ∃ x, d = some x ∧ 33 ≤ x.room ∧ b = decide ((text ++ [0]).take 33 = (x.text ++ [0]).take 33) := by
  cases d with
  | none => exact ⟨(fun h => nomatch h), fun ⟨_, h, _⟩ => nomatch h⟩
  | some x =>
    unfold memcmpData
    dsimp only
    split
    · rename_i short
      exact ⟨(fun h => nomatch h), fun ⟨_, h, wide, _⟩ => absurd (Option.some.inj h ▸ wide) (Nat.not_le_of_lt short)⟩
    · rename_i wide
      exact ⟨fun h => ⟨x, rfl, Nat.le_of_not_lt wide, (Except.ok.inj h).symm⟩,
        fun ⟨_, h, _, eq⟩ => Option.some.inj h ▸ eq ▸ rfl⟩

theorem length_hex2Str32B (digest : Fin 16 → UInt8) : (hex2Str32B digest).length = 32 := by
  unfold hex2Str32B
  rw [List.length_flatMap]
  simp

/-- The octets that are compared are those of the two strings. -/
theorem take_eq_iff {a b : List UInt8} (ha : a.length = 32) (fb : 0 ∉ b) :
    (a ++ [0]).take 33 = (b ++ [0]).take 33 ↔ a = b := by
  have whole : (a ++ [0]).take 33 = a ++ [0] := List.take_of_length_le (by rw [List.length_append, ha]; decide)
  constructor
  · intro eq
    rw [whole] at eq
    by_cases long : 33 ≤ b.length
    · rw [List.take_append_of_le_length long] at eq
      have mem : (0 : UInt8) ∈ b.take 33 := eq ▸ List.mem_append_right a List.mem_cons_self
      exact absurd (List.mem_of_mem_take mem) fb
    · rw [List.take_of_length_le (by rw [List.length_append, List.length_singleton]; omega)] at eq
      exact List.append_cancel_right eq
  · rintro rfl
    rfl

end authorize

end En675.Rtsp.Digest
