import En675.Rtsp.Digest

/-! Digest authorization of any header: when both copies of the code go through it. -/

namespace En675.Rtsp.Digest

open Lib AuthField

section pieces

variable {s t : RahList} {p : Piece} {ps : List Piece} {f : AuthField} {d : Data} {header : List UInt8}

theorem mem_pieces {parts : List (List UInt8)} (h : p ∈ pieces parts) : p.text ∈ parts := by
  induction parts with
  | nil => cases h
  | cons q parts ih =>
    unfold pieces at h
    split at h
    · exact List.mem_cons_of_mem q (ih h)
    · rcases List.mem_cons.1 h with rfl | mem
      · exact List.mem_cons_self
      · exact List.mem_cons_of_mem q (ih mem)

theorem mem_strtok (h : p ∈ strtok header) : 44 ∉ p.text ∧ ∀ c ∈ p.text, c ∈ header :=
  not_mem_of_mem_splitOn (mem_pieces h)

theorem unquote_within {temp : List UInt8} {behind : Nat} (h : unquote temp behind = some d) : d.text <:+: temp := by
  unfold unquote at h
  split at h
  · cases h
    exact List.infix_rfl
  · rename_i a rest first
    obtain ⟨⟨value, rest'⟩, second, rfl⟩ := Option.map_eq_some_iff.1 h
    refine ⟨a ++ [34], [34] ++ rest', ?_⟩
    rw [cut_eq first, cut_eq second]
    simp only [List.append_assoc]

theorem valueIn_within (h : valueIn f p = some d) : d.text <:+: p.text := by
  rw [valueIn_eq] at h
  obtain ⟨temp, found, value⟩ := Option.bind_eq_some_iff.1 h
  obtain ⟨r, name, eq⟩ := Option.bind_eq_some_iff.1 found
  obtain ⟨e, sign, rfl⟩ := Option.map_eq_some_iff.1 eq
  apply (unquote_within value).trans
  rw [cut_eq name, cut_eq sign]
  exact ((List.suffix_append _ _).trans (List.suffix_append _ _)).isInfix

/-- What a field has it had, or it has it from a piece. -/
theorem fold_origin (h : ps.foldlM takePiece s = .ok t) (has : t f = some d) :
    s f = some d ∨ ∃ p ∈ ps, valueIn f p = some d := by
  induction ps generalizing s with
  | nil => exact Or.inl (Except.ok.inj h ▸ has)
  | cons p ps ih =>
    obtain ⟨v, step, rest⟩ := foldlM_cons_ok.1 h
    rcases ih rest with had | ⟨q, mem, value⟩
    · rcases takePiece_ok.1 step with ⟨rfl, -⟩ | ⟨g, d', -, -, value, rfl⟩
      · exact Or.inl had
      · by_cases same : f = g
        · subst same
          rw [Function.update_self] at had
          exact Or.inr ⟨p, List.mem_cons_self, Option.some.inj had ▸ value⟩
        · rw [Function.update_of_ne same] at had
          exact Or.inl had
    · exact Or.inr ⟨q, List.mem_cons_of_mem p mem, value⟩

theorem rahList_origin (h : rahList header = .ok t) (has : t f = some d) :
    ∃ p ∈ strtok header, valueIn f p = some d :=
  (fold_origin h has).resolve_left (Option.some_ne_none d).symm

theorem rahList_sub (h : rahList header = .ok t) (has : t f = some d) :
    44 ∉ d.text ∧ ∀ c ∈ d.text, c ∈ header := by
  obtain ⟨p, mem, value⟩ := rahList_origin h has
  obtain ⟨free, sub⟩ := mem_strtok mem
  exact ⟨fun c => free ((valueIn_within value).subset c), fun c mem => sub c ((valueIn_within value).subset mem)⟩

end pieces

section copies

variable {md5 : List UInt8 → Fin 16 → UInt8} {hashUserPw : List UInt8} {room : Nat → Bool} {t : RahList}
  {method header data : List UInt8} {b : Bool} {dataLen : Nat}

theorem textOf_of_some {f : AuthField} {d : Data} (h : t f = some d) : textOf t f = d.text := by
  unfold textOf
  rw [h]
  rfl

theorem needed_response : (∀ f : AuthField, f.Needed → (t f).isSome = true) ↔
    (∀ f : AuthField, f.Needed → f ≠ response → (t f).isSome = true) ∧ ∃ d, t response = some d := by
  constructor
  · exact fun h => ⟨fun f needed _ => h f needed, Option.isSome_iff_exists.1 (h response (by decide))⟩
  · rintro ⟨h, has⟩ f needed
    by_cases same : f = response
    · exact same ▸ Option.isSome_iff_exists.2 has
    · exact h f needed same

theorem rtspAuthorize_ok (block : room (header.length + 1) = true) :
    rtspAuthorize md5 hashUserPw room method header = .ok b ↔ ∃ t, rahList header = .ok t ∧
      (∀ f, f.Needed → (t f).isSome = true) ∧ b = decide (hResIn md5 hashUserPw method t = textOf t response) := by
  unfold rtspAuthorize
  simp only [authorize_ok block, strcmpData_ok, needed_response]
  constructor
  · rintro ⟨t, parsed, needed, d, has, rfl⟩
    exact ⟨t, parsed, ⟨needed, d, has⟩, by rw [textOf_of_some has]⟩
  · rintro ⟨t, parsed, ⟨needed, d, has⟩, rfl⟩
    exact ⟨t, parsed, needed, d, has, by rw [textOf_of_some has]⟩

theorem httpAuthorize_ok (block : room (header.length + 1) = true) (free : 0 ∉ header) :
    httpAuthorize md5 hashUserPw room method header = .ok b ↔ ∃ t, rahList header = .ok t ∧
      (∀ f, f.Needed → (t f).isSome = true) ∧ Wide True t ∧
      b = decide (hResIn md5 hashUserPw method t = textOf t response) := by
  unfold httpAuthorize
  have same : ∀ {t : RahList} {d : Data}, rahList header = .ok t → t response = some d →
      ((hResIn md5 hashUserPw method t ++ [0]).take 33 = (d.text ++ [0]).take 33 ↔
        hResIn md5 hashUserPw method t = d.text) := by
    intro t d parsed has
    exact take_eq_iff (length_hex2Str32B _) fun zero => free ((rahList_sub parsed has).2 0 zero)
  simp only [authorize_ok block, memcmpData_ok, needed_response]
  constructor
  · rintro ⟨t, parsed, needed, d, has, wide, rfl⟩
    refine ⟨t, parsed, ⟨needed, d, has⟩, ?_, ?_⟩
    · intro _ d' has'
      rw [has] at has'
      exact Option.some.inj has' ▸ wide
    · rw [textOf_of_some has, decide_eq_decide]
      exact same parsed has
  · rintro ⟨t, parsed, ⟨needed, d, has⟩, wide, rfl⟩
    refine ⟨t, parsed, needed, d, has, wide trivial d has, ?_⟩
    rw [textOf_of_some has, decide_eq_decide]
    exact (same parsed has).symm

theorem asked_of_httpHeader (h : httpHeader data dataLen = some header) : Asked header := by
  obtain ⟨⟨a, b⟩, found, rfl⟩ := Option.map_eq_some_iff.1 h
  have whole : data = a ++ (http11AutorizationText ++ (b ++ data.drop dataLen)) := by
    have taken := cut_eq found
    calc data = data.take dataLen ++ data.drop dataLen := (List.take_append_drop ..).symm
      _ = _ := by rw [taken]; simp only [List.append_assoc]
  have line : ∀ c ∈ http11AutorizationText, decide (c ≠ 13 ∧ c ≠ 10) = true := by decide +kernel
  dsimp only
  constructor
  · rw [whole, List.drop_left, List.takeWhile_append_of_pos line]
    exact List.prefix_append ..
  · intro c mem
    have kept := List.mem_takeWhile_imp mem
    exact of_decide_eq_true kept

theorem httpHeader_self (h : Asked header) : httpHeader header header.length = some header := by
  obtain ⟨⟨b, rfl⟩, line⟩ := h
  unfold httpHeader
  rw [List.take_length, cut_front]
  exact congrArg some (List.takeWhile_eq_self_iff.2 fun c mem => decide_eq_true (line c mem))

theorem httpAuthProcess_eq {isPost : Int} (h : httpHeader data dataLen = some header) :
    httpAuthProcess md5 hashUserPw room isPost data dataLen =
      httpAuthorize md5 hashUserPw room (if isPost = 1 then ascii "POST" else ascii "GET") header := by
  unfold httpAuthProcess
  rw [h]

end copies

/-- Both copies go through the header, a field that is needed and is nowhere is refused, and they agree. -/
structure Total (md5 : List UInt8 → Fin 16 → UInt8) (hashUserPw : List UInt8) (room : Nat → Bool)
    (header : List UInt8) : Prop where
  rtsp : ∀ method, ∃ b, rtspdClientRtspAuthorization md5 hashUserPw room header method = .ok b
  http : ∀ isPost data dataLen, httpHeader data dataLen = some header →
    ∃ b, httpAuthProcess md5 hashUserPw room isPost data dataLen = .ok b
  lacks : ∀ f : AuthField, f.Needed → (∀ p ∈ strtok header, ¬f.In p) →
    (∀ method, rtspdClientRtspAuthorization md5 hashUserPw room header method = .ok false) ∧
    ∀ isPost data dataLen, httpHeader data dataLen = some header →
      httpAuthProcess md5 hashUserPw room isPost data dataLen = .ok false
  agree : ∀ data dataLen, httpHeader data dataLen = some header → ∀ method,
    httpAuthorize md5 hashUserPw room method header = rtspAuthorize md5 hashUserPw room method header

section total

variable {md5 : List UInt8 → Fin 16 → UInt8} {hashUserPw : List UInt8} {room : Nat → Bool} {header : List UInt8}

theorem total_full (block : room (header.length + 1) = false) : Total md5 hashUserPw room header where
  rtsp _ := ⟨false, authorize_full block⟩
  http _ _ _ h := ⟨false, (httpAuthProcess_eq h).trans (authorize_full block)⟩
  lacks _ _ _ := ⟨fun _ => authorize_full block, fun _ _ _ h => (httpAuthProcess_eq h).trans (authorize_full block)⟩
  agree _ _ _ _ := (authorize_full block).trans (authorize_full block).symm

theorem Total.labelled (h : Total md5 hashUserPw room header) (free : 0 ∉ header)
    (block : room (header.length + 1) = true) : Labelled header := by
  obtain ⟨b, ok⟩ := h.rtsp .options
  obtain ⟨t, parsed, needed, -⟩ := (rtspAuthorize_ok block).1 ok
  refine labelled_iff.2 ⟨t, parsed, fun asked => ?_, needed⟩
  obtain ⟨b, ok⟩ := h.http 0 header header.length (httpHeader_self asked)
  rw [httpAuthProcess_eq (httpHeader_self asked)] at ok
  obtain ⟨t', parsed', -, wide, -⟩ := (httpAuthorize_ok block free).1 ok
  rw [parsed] at parsed'
  exact Except.ok.inj parsed' ▸ wide trivial

theorem Total.of_labelled (h : Labelled header) (free : 0 ∉ header) (block : room (header.length + 1) = true) :
    Total md5 hashUserPw room header := by
  obtain ⟨t, parsed, wide, needed⟩ := labelled_iff.1 h
  have rtsp : ∀ method, rtspAuthorize md5 hashUserPw room method header =
      .ok (decide (hResIn md5 hashUserPw method t = textOf t response)) :=
    fun method => (rtspAuthorize_ok block).2 ⟨t, parsed, needed, rfl⟩
  have http : ∀ {data dataLen}, httpHeader data dataLen = some header → ∀ method,
      httpAuthorize md5 hashUserPw room method header =
        .ok (decide (hResIn md5 hashUserPw method t = textOf t response)) :=
    fun asked method =>
      (httpAuthorize_ok block free).2 ⟨t, parsed, needed, fun _ => wide (asked_of_httpHeader asked), rfl⟩
  refine ⟨fun method => ⟨_, rtsp _⟩, fun isPost data dataLen asked => ⟨_, (httpAuthProcess_eq asked).trans (http asked _)⟩,
    fun f need lacks => ?_, fun data dataLen asked method => (http asked method).trans (rtsp method).symm⟩
  obtain ⟨d, has⟩ := Option.isSome_iff_exists.1 (needed f need)
  obtain ⟨p, mem, value⟩ := rahList_origin parsed has
  exact absurd (In_of_valueIn value) (lacks p mem)

theorem total_iff (free : 0 ∉ header) :
    Total md5 hashUserPw room header ↔ (room (header.length + 1) = true → Labelled header) := by
  constructor
  · exact fun h => h.labelled free
  · intro h
    cases block : room (header.length + 1) with
    | false => exact total_full block
    | true => exact Total.of_labelled (h block) free block

end total

end En675.Rtsp.Digest
