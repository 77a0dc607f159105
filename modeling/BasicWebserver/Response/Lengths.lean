import BasicWebserver.Foundation.Fallible
import BasicWebserver.Response.Framing

/-!
# What the framing rules accept

The lengths that `parseContentLengthValue` reads, the header map that `applicationParts` builds from
the application's fields, and the responses that `finalizeResponse` lets through: a response that is
`WellFramed` for the length of its body is never refused.
-/

namespace BasicWebserver.Response

open Ascii Http Fallible

/-! ## Lengths -/

/-- The members of a `Content-Length` value. -/
def members (value : Bytes) : List Bytes :=
  (value.splitOn 44).map (trimMatches fun b => b = 32 || b = 9)

/-- A numeral that fits in a machine word. -/
def IsLength (member : Bytes) : Prop :=
  member ≠ [] ∧ (∀ b ∈ member, isDigit b) ∧ ofDecimal member < 2 ^ 64

theorem parseLength_ok {text part : Bytes} {n : ℕ} (h : parseLength text part = .ok n) :
    IsLength (trimMatches (fun b => b = 32 || b = 9) part) ∧
      ofDecimal (trimMatches (fun b => b = 32 || b = 9) part) = n := by
  unfold parseLength at h
  dsimp only at h
  generalize trimMatches (fun b => b = 32 || b = 9) part = digits at h
  obtain ⟨hdigits, hn⟩ := ite_error_eq_ok.mp h
  obtain ⟨hne, hall⟩ : digits ≠ [] ∧ ∀ b ∈ digits, isDigit b := by simpa using hdigits
  have hparse := elim_eq_ok.mp hn
  rw [parseU64_of_digits hne hall] at hparse
  split_ifs at hparse with hlt
  · exact ⟨⟨hne, hall, hlt⟩, Option.some.inj hparse⟩

theorem parseLength_decimal {text : Bytes} {n : ℕ} (h : n < 2 ^ 64) :
    parseLength text (decimal n) = .ok n := by
  have hblank : ∀ b ∈ decimal n, (decide (b = 32) || decide (b = 9)) = false := by
    intro b hb
    have hdigit := isDigit_of_mem_decimal hb
    by_contra hne
    rw [Bool.not_eq_false, Bool.or_eq_true, decide_eq_true_eq, decide_eq_true_eq] at hne
    rcases hne with rfl | rfl <;> exact absurd hdigit (by decide)
  unfold parseLength
  rw [trimMatches_eq_self hblank]
  refine ite_error_eq_ok.mpr ⟨?_, elim_eq_ok.mpr (parseU64_decimal h)⟩
  have hall : ∀ b ∈ decimal n, isDigit b := fun _ => isDigit_of_mem_decimal
  simpa using ⟨decimal_ne_nil n, hall⟩

theorem parseContentLengthValue_ok {value : Bytes} {lengths : List ℕ}
    (h : parseContentLengthValue value = .ok lengths) :
    (∀ member ∈ members value, IsLength member) ∧ lengths = (members value).map ofDecimal := by
  unfold parseContentLengthValue at h
  have hparts := (mapM_eq_ok.mp (ite_error_eq_ok.mp h).2).imp fun _ _ => parseLength_ok
  rw [List.forall₂_and_left] at hparts
  obtain ⟨hlengths, heq⟩ := hparts
  refine ⟨List.forall_mem_map.mpr hlengths, ?_⟩
  rw [members, List.map_map, ← List.forall₂_eq_eq_eq, List.forall₂_map_right_iff]
  exact heq.flip.imp fun _ _ => Eq.symm

theorem parseContentLengthValue_ofNat {n : ℕ} (h : n < 2 ^ 64) :
    parseContentLengthValue (HeaderValue.ofNat n).bytes = .ok [n] := by
  have hdigit : ∀ b ∈ decimal n, isDigit b := fun _ => isDigit_of_mem_decimal
  have hutf8 : isUtf8 (decimal n) := isUtf8_of_ascii fun b hb => by
    have hle := hdigit b hb
    unfold isDigit at hle
    simp only [Bool.and_eq_true, decide_eq_true_eq, UInt8.le_iff_toNat_le] at hle
    exact UInt8.lt_iff_toNat_lt.mpr (Nat.lt_of_le_of_lt hle.2 (by decide))
  have hcomma : (44 : UInt8) ∉ decimal n := fun hmem => absurd (hdigit 44 hmem) (by decide)
  show parseContentLengthValue (decimal n) = _
  unfold parseContentLengthValue
  refine ite_error_eq_ok.mpr ⟨by rw [hutf8]; nofun, ?_⟩
  rw [List.splitOn_eq_singleton hcomma]
  exact mapM_eq_ok.mpr (.cons (parseLength_decimal h) .nil)

theorem oneContentLength_ok {lengths : List ℕ} {length : Option ℕ}
    (h : oneContentLength lengths = .ok length) :
    length = lengths.head? ∧ ∀ n ∈ lengths, length = some n := by
  cases lengths with
  | nil => exact ⟨(Except.ok.inj h).symm, nofun⟩
  | cons first rest =>
    obtain ⟨hall, heq⟩ := ite_error_eq_ok.mp h
    refine ⟨(Except.ok.inj heq).symm, fun n hn => ?_⟩
    rw [← Except.ok.inj heq]
    rcases List.mem_cons.mp hn with rfl | hn
    · rfl
    · by_contra hne
      exact hall (List.any_eq_true.mpr ⟨n, hn, decide_eq_true fun heq => hne (heq ▸ rfl)⟩)

/-! ## The application's fields -/

/-- The values the application gives for a name, in order. -/
def fieldValues (rawHeaders : List RawHeader) (name : HeaderName) : List HeaderValue :=
  rawHeaders.filterMap fun raw =>
    if HeaderName.fromBytes raw.name = some name then HeaderValue.fromStr raw.value else none

/-- The members of the application's `Content-Length` fields. -/
def lengthMembers (rawHeaders : List RawHeader) : List Bytes :=
  rawHeaders.flatMap fun raw =>
    if HeaderName.fromBytes raw.name = some HeaderName.contentLength then members raw.value else []

/-- What the loop over the fields has built from those it went through. -/
structure Collected (rawHeaders : List RawHeader) (parts : HeaderMap × List ℕ) : Prop where
  values : ∀ name ≠ HeaderName.contentLength, parts.1.getAll name = fieldValues rawHeaders name
  noLength : parts.1.getAll HeaderName.contentLength = []
  supported : ∀ name, parts.1.getAll name ≠ [] → isUnsupported name = false
  isLength : ∀ member ∈ lengthMembers rawHeaders, IsLength member
  lengths : parts.2 = (lengthMembers rawHeaders).map ofDecimal

theorem addField_ok {request : RequestSemantics} {parts parts' : HeaderMap × List ℕ}
    {raw : RawHeader} (h : addField request parts raw = .ok parts') :
    ∃ name value, HeaderName.fromBytes raw.name = some name ∧
      HeaderValue.fromStr raw.value = some value ∧ isUnsupported name = false ∧
      ((name = HeaderName.contentLength ∧ parts'.1 = parts.1 ∧
          ∃ lengths, parseContentLengthValue raw.value = .ok lengths ∧
            parts'.2 = parts.2 ++ lengths) ∨
        (name ≠ HeaderName.contentLength ∧ parts' = (parts.1.append name value, parts.2))) := by
  unfold addField at h
  obtain ⟨name, hname, h⟩ := bind_eq_ok.mp h
  obtain ⟨value, hvalue, h⟩ := bind_eq_ok.mp h
  obtain ⟨hsupported, h⟩ := ite_error_eq_ok.mp h
  have hraw : value.bytes = raw.value := by
    have hfrom := elim_eq_ok.mp hvalue
    unfold HeaderValue.fromStr at hfrom
    split at hfrom
    · cases hfrom
      rfl
    · cases hfrom
  refine ⟨name, value, elim_eq_ok.mp hname, elim_eq_ok.mp hvalue, Bool.not_eq_true _ ▸ hsupported, ?_⟩
  split_ifs at h with hlength
  · obtain ⟨lengths, hparse, heq⟩ := bind_eq_ok.mp h
    rw [hraw] at hparse
    rw [← Except.ok.inj heq]
    exact .inl ⟨hlength, rfl, lengths, hparse, rfl⟩
  · exact .inr ⟨hlength, (Except.ok.inj h).symm⟩

theorem Collected.add {request : RequestSemantics} {seen : List RawHeader}
    {parts parts' : HeaderMap × List ℕ} {raw : RawHeader} (hparts : Collected seen parts)
    (h : addField request parts raw = .ok parts') : Collected (seen ++ [raw]) parts' := by
  obtain ⟨name, value, hname, hvalue, hsupported, hcase⟩ := addField_ok h
  have hvalues : ∀ other, fieldValues (seen ++ [raw]) other =
      fieldValues seen other ++ if name = other then [value] else [] := by
    intro other
    unfold fieldValues
    rw [List.filterMap_append]
    congr 1
    simp only [List.filterMap_cons, List.filterMap_nil, hname, Option.some.injEq, hvalue]
    split_ifs <;> rfl
  have hmembers : lengthMembers (seen ++ [raw]) =
      lengthMembers seen ++ if name = HeaderName.contentLength then members raw.value else [] := by
    unfold lengthMembers
    rw [List.flatMap_append, List.flatMap_singleton, hname]
    simp only [Option.some.injEq]
  rcases hcase with ⟨rfl, headers, lengths, hparse, hlengths⟩ | ⟨hne, rfl⟩
  · -- a length is set aside, the map stays
    obtain ⟨hisLength, rfl⟩ := parseContentLengthValue_ok hparse
    rw [if_pos rfl] at hmembers
    refine ⟨fun other hother => ?_, ?_, ?_, ?_, ?_⟩
    · rw [headers, hparts.values other hother, hvalues other, if_neg hother.symm, List.append_nil]
    · rw [headers, hparts.noLength]
    · rw [headers]
      exact hparts.supported
    · rw [hmembers]
      exact List.forall_mem_append.mpr ⟨hparts.isLength, hisLength⟩
    · rw [hlengths, hparts.lengths, hmembers, List.map_append]
  · rw [if_neg hne, List.append_nil] at hmembers
    refine ⟨fun other hother => ?_, ?_, fun other hother => ?_, ?_, ?_⟩
    · rw [hvalues other, ← hparts.values other hother]
      by_cases heq : name = other
      · subst heq
        rw [if_pos rfl]
        exact Multimap.getAll_append_self
      · rw [if_neg heq, List.append_nil]
        exact Multimap.getAll_append_ne (Ne.symm heq)
    · exact (Multimap.getAll_append_ne hne.symm).trans hparts.noLength
    · by_cases heq : other = name
      · exact heq ▸ hsupported
      · rw [Multimap.getAll_append_ne heq] at hother
        exact hparts.supported other hother
    · rw [hmembers]
      exact hparts.isLength
    · rw [hmembers]
      exact hparts.lengths

theorem collected_of_foldlM {request : RequestSemantics} {rawHeaders : List RawHeader}
    {parts : HeaderMap × List ℕ}
    (h : rawHeaders.foldlM (addField request) (.empty, []) = .ok parts) :
    Collected rawHeaders parts :=
  foldlM_ok rawHeaders h
    ⟨fun _ _ => Multimap.getAll_empty, Multimap.getAll_empty, fun _ hne => absurd rfl hne, nofun, rfl⟩
    fun _ _ _ _ => Collected.add

/-! ## Framing -/

theorem getAll_setContentLength_self {headers : HeaderMap} {length : ℕ} :
    (setContentLength headers length).getAll HeaderName.contentLength =
      [HeaderValue.ofNat length] :=
  Multimap.getAll_insert_self

theorem getAll_setContentLength_ne {headers : HeaderMap} {length : ℕ} {name : HeaderName}
    (h : name ≠ HeaderName.contentLength) :
    (setContentLength headers length).getAll name = headers.getAll name :=
  (Multimap.getAll_insert_ne h).trans (Multimap.getAll_remove_ne h)

theorem getAll_announce_self {headers : HeaderMap} {length : Option ℕ} :
    (announce headers length).getAll HeaderName.contentLength =
      length.toList.map HeaderValue.ofNat := by
  cases length with
  | none => exact Multimap.getAll_remove_self
  | some length => exact getAll_setContentLength_self

theorem getAll_announce_ne {headers : HeaderMap} {length : Option ℕ} {name : HeaderName}
    (h : name ≠ HeaderName.contentLength) :
    (announce headers length).getAll name = headers.getAll name := by
  cases length with
  | none => exact Multimap.getAll_remove_ne h
  | some length => exact getAll_setContentLength_ne h

theorem getAll_announce_of_eq {headers : HeaderMap} {length : Option ℕ}
    (h : headers.getAll HeaderName.contentLength = length.toList.map HeaderValue.ofNat)
    (name : HeaderName) : (announce headers length).getAll name = headers.getAll name := by
  by_cases hname : name = HeaderName.contentLength
  · rw [hname, getAll_announce_self, h]
  · exact getAll_announce_ne hname

theorem headLength_self (n : ℕ) : headLength (some n) (some n) = .ok (some n) := by
  cases n with
  | zero => rfl
  | succ n => exact if_pos rfl

theorem headLength_zero (length : Option ℕ) : headLength length (some 0) = .ok length := by
  cases length <;> rfl

theorem framedLength_self (length : Option ℕ) : framedLength length length = .ok length := by
  cases length with
  | none => rfl
  | some n => exact if_neg (not_not.mpr rfl)

theorem lengthRule_ok {status : StatusCode} {request : RequestSemantics} {rule : LengthRule}
    (h : lengthRule status request = .ok rule) :
    rule = if status = StatusCode.noContent ∨ status = StatusCode.notModified then .forbidden
      else .representation := by
  unfold lengthRule at h
  obtain ⟨-, h⟩ := ite_error_eq_ok.mp h
  obtain ⟨-, h⟩ := ite_error_eq_ok.mp h
  rw [← Bool.decide_or] at h
  split_ifs at h ⊢ <;> simp_all

/-- The response passes the checks on its status and fields, and supplies this length. -/
structure Supplies {β : Type} (request : RequestSemantics) (response : Http.Response β)
    (rule : LengthRule) (supplied : Option ℕ) : Prop where
  permitted : lengthRule response.status request = .ok rule
  supported : ∀ name, response.headers.getAll name ≠ [] → isUnsupported name = false
  lengths : response.headers.getAll HeaderName.contentLength =
    supplied.toList.map HeaderValue.ofNat
  bound : ∀ length ∈ supplied, length < 2 ^ 64

section Finalize

variable {β : Type} [Body β] {request : RequestSemantics} {response : Http.Response β}
  {rule : LengthRule} {supplied length : Option ℕ}

omit [Body β] in
theorem Supplies.suppliedLengths (h : Supplies request response rule supplied) :
    suppliedLengths response.headers = .ok supplied.toList := by
  unfold Response.suppliedLengths
  rw [h.lengths]
  cases supplied with
  | none => rfl
  | some length =>
    refine bind_eq_ok.mpr ⟨[[length]], mapM_eq_ok.mpr (.cons ?_ .nil), rfl⟩
    exact parseContentLengthValue_ofNat (h.bound length rfl)

theorem Supplies.finalizeResponse_eq (h : Supplies request response rule supplied)
    (hreset : response.status = StatusCode.resetContent → Body.sizeHint response.body = some 0) :
    finalizeResponse response request =
      match rule with
      | .forbidden =>
        if supplied.isSome then .error (.forbidsLength response.status)
        else if Body.sizeHint response.body ≠ some 0 then .error (.forbidsContent response.status)
        else .ok { response with headers := response.headers.remove HeaderName.contentLength }
      | .representation =>
        if request.method = .head then
          (headLength supplied (Body.sizeHint response.body)).map fun length =>
            { response with headers := announce response.headers length, body := Body.empty }
        else
          (framedLength supplied (Body.sizeHint response.body)).map fun length =>
            { response with headers := announce response.headers length } := by
  have hfind : response.headers.keys.find? isUnsupported = none :=
    List.find?_eq_none.mpr fun name hname => by
      rw [h.supported name (Multimap.mem_keys.mp hname)]
      nofun
  have hone : oneContentLength supplied.toList = .ok supplied := by cases supplied <;> rfl
  have hreset' : ¬ (decide (response.status = StatusCode.resetContent) &&
      decide (Body.sizeHint response.body ≠ some 0)) = true := by
    simpa using hreset
  unfold finalizeResponse
  rw [h.permitted, hfind, h.suppliedLengths]
  simp only [bind, Except.bind, hone, if_neg hreset']
  cases rule <;> rfl

end Finalize

end BasicWebserver.Response
