import BasicWebserver.RequestParts.Conversion
import BasicWebserver.RequestTarget.Agreement

/-!
# The two conversions agree

For a validated request both conversions succeed, their strings have the same bytes, and the number
that the seamless one counts is the number of its descriptors into the request.
-/

namespace BasicWebserver.RequestParts

open Ascii Http RequestTarget Fallible

variable {lits : Literals} {ipv6 : Bytes → Bool} {parts : Parts}
  {m : RequestMetadata}

/-- A request that passed `validate_parts` and `request_headers_are_utf8`. -/
structure Validated (lits : Literals) (ipv6 : Bytes → Bool) (parts : Parts) (m : RequestMetadata) :
    Prop where
  metadata : validateComponents lits ipv6 parts.method parts.version parts.uri parts.headers = .ok m
  utf8 : requestHeadersAreUtf8 parts.headers

theorem Validated.accepted (h : Validated lits ipv6 parts m) :
    Accepted lits ipv6 parts.method parts.version parts.uri parts.headers m :=
  accepted_of_validate h.metadata

theorem Validated.targetView (h : Validated lits ipv6 parts m) :
    ∃ view, m.targetAuthorityView parts.uri parts.headers = .ok view ∧
      (m.target = .authority ↔ view.isSome) := by
  refine ⟨_, h.accepted.targetAuthority, ?_⟩
  split_ifs with hkind
  · refine iff_of_true hkind (h.accepted.named ?_)
    obtain ⟨authority, -, -, hauthority, -, -, -, hne⟩ := validateComponents_ok h.metadata
    rcases parseUriAuthority_ok hauthority with ⟨-, hnone⟩ | ⟨raw, -, hraw, -⟩
    · exact absurd hnone (hne hkind)
    · rw [hraw]
      rfl
  · exact iff_of_false hkind nofun

/-! ## Header fields -/

theorem toStr_eq_asBytes {value : StoredValue} {text : Text} (h : value.toStr = some text) :
    text = value.asBytes := by
  unfold StoredValue.toStr HeaderValue.toStr at h
  split_ifs at h
  · exact (Option.some.inj h).symm
  · cases h

/-- One field with a string for each text. -/
def headerOf (string : Text → RocStr) (parts : Parts) (field : HeaderName × StoredValue) :
    ServerHeader RocStr :=
  ⟨string (parts.nameText field.1), string field.2.asBytes⟩

theorem convertHeaders_eq (h : requestHeadersAreUtf8 parts.headers) (string : Text → RocStr) :
    convertHeaders string parts = .ok (parts.headers.toList.map (headerOf string parts)) := by
  unfold convertHeaders
  rw [mapM_eq_ok, List.forall₂_map_right_iff, List.forall₂_same]
  rintro ⟨name, value⟩ hmem
  obtain ⟨text, htext⟩ := Option.isSome_iff_exists.mp (List.all_eq_true.mp h _ hmem)
  refine bind_eq_ok.mpr ⟨text, elim_eq_ok.mpr htext, ?_⟩
  rw [toStr_eq_asBytes htext]
  rfl

/-! ## Target and authority -/

def TargetFields.map {σ τ : Type} (f : σ → τ) (t : TargetFields σ) : TargetFields τ :=
  { t with path := f t.path, query := f t.query, authorityHost := f t.authorityHost }

def AuthorityFields.map {σ τ : Type} (f : σ → τ) (a : AuthorityFields σ) : AuthorityFields τ :=
  { a with host := f a.host }

theorem map_serverRequest {σ τ : Type} (f : σ → τ) (body : BodyArguments) (methodTag : ℕ)
    (methodExt : σ) (headers : List (ServerHeader σ)) (target : TargetFields σ)
    (authority : AuthorityFields σ) :
    (serverRequest body methodTag methodExt headers target authority).map f =
      serverRequest body methodTag (f methodExt) (headers.map (ServerHeader.map f)) (target.map f)
        (authority.map f) := rfl

/-- The target as the copying conversion has it. -/
def copiedTarget (lits : Literals) (parts : Parts) (m : RequestMetadata)
    (view : Option AuthorityView) : TargetFields RocStr where
  tag := targetTag m.target
  path := copyOrEmpty (m.resourcePath lits parts.uri)
  query := copyOrEmpty (m.resourceQuery parts.uri)
  queryPresent := (m.resourceQuery parts.uri).isSome
  authorityHost := copyOrEmpty (view.map AuthorityView.host)
  authorityPort := (view.bind AuthorityView.port).getD 0
  authorityPortPresent := (view.bind AuthorityView.port).isSome

def copiedAuthority (view : Option AuthorityView) : AuthorityFields RocStr where
  present := view.isSome
  host := copyOrEmpty (view.map AuthorityView.host)
  port := (view.bind AuthorityView.port).getD 0
  portPresent := (view.bind AuthorityView.port).isSome

theorem seamlessTarget_agrees (lits : Literals) (allocation : ℕ) {view : Option AuthorityView}
    (hview : m.targetAuthorityView parts.uri parts.headers = .ok view)
    (hsome : m.target = .authority ↔ view.isSome) :
    ∃ target n, seamlessTarget lits allocation parts m = .ok (target, n) ∧
      target.map RocStr.contents = (copiedTarget lits parts m view).map RocStr.contents ∧
      n = [target.path, target.query, target.authorityHost].countP (RocStr.refersTo allocation) := by
  have hnone : m.target ≠ .authority → view = none := fun hne =>
    Option.not_isSome_iff_eq_none.mp fun h => hne (hsome.mpr h)
  unfold seamlessTarget copiedTarget RequestMetadata.resourcePath RequestMetadata.resourceQuery
  cases hkind : m.target with
  | resource =>
    obtain rfl := hnone (by rw [hkind]; nofun)
    dsimp only
    rw [if_neg (not_not.mpr rfl), if_neg (not_not.mpr rfl)]
    -- whether the path is a descriptor, and whether there is a query
    cases hbacked : resourcePathIsBacked parts <;> cases hquery : parts.uri.query <;>
      exact ⟨_, _, rfl, rfl, by simp [RocStr.refersTo, RocStr.fromStr, RocStr.empty]⟩
  | authority =>
    obtain ⟨a, rfl⟩ := Option.isSome_iff_exists.mp (hsome.mp hkind)
    refine ⟨_, _, bind_eq_ok.mpr ⟨_, hview, rfl⟩, rfl, ?_⟩
    simp [RocStr.refersTo, RocStr.empty]
  | asterisk =>
    obtain rfl := hnone (by rw [hkind]; nofun)
    exact ⟨_, _, rfl, rfl, by simp [RocStr.refersTo, RocStr.empty]⟩

theorem seamlessAuthority_agrees (allocation : ℕ) {view : Option AuthorityView}
    (hview : m.effectiveAuthorityView parts.uri parts.headers = .ok view) :
    ∃ authority n, seamlessAuthority allocation parts m = .ok (authority, n) ∧
      authority.map RocStr.contents = (copiedAuthority view).map RocStr.contents ∧
      n = [authority.host].countP (RocStr.refersTo allocation) := by
  cases view with
  | none =>
    exact ⟨_, _, bind_eq_ok.mpr ⟨_, hview, rfl⟩, rfl, by simp [RocStr.refersTo, RocStr.empty]⟩
  | some a => exact ⟨_, _, bind_eq_ok.mpr ⟨_, hview, rfl⟩, rfl, by simp [RocStr.refersTo]⟩

/-! ## The whole request -/

theorem countP_headers (allocation : ℕ) (parts : Parts) (fields : List (HeaderName × StoredValue)) :
    ((fields.map (headerOf (.seamless allocation) parts)).flatMap ServerHeader.strings).countP
      (RocStr.refersTo allocation) = fields.length * 2 := by
  induction fields with
  | nil => rfl
  | cons field fields ih =>
    rw [List.map_cons, List.flatMap_cons, List.countP_append, ih, List.length_cons, Nat.succ_mul,
      Nat.add_comm]
    simp [ServerHeader.strings, headerOf, RocStr.refersTo]

theorem methodExt_agrees (allocation : ℕ) (parts : Parts) :
    ∃ ext ext' j, (if methodToTag parts.method = 2 then
        (RocStr.seamless allocation parts.methodText, 1) else (RocStr.empty, 0)) = (ext, j) ∧
      (if methodToTag parts.method = 2 then RocStr.fromStr parts.methodText else .empty) = ext' ∧
      ext.contents = ext'.contents ∧ j = [ext].countP (RocStr.refersTo allocation) := by
  split
  · exact ⟨_, _, _, rfl, rfl, rfl, by simp [RocStr.refersTo]⟩
  · exact ⟨_, _, _, rfl, rfl, rfl, by simp [RocStr.refersTo, RocStr.empty]⟩

/-- Both conversions of a validated request succeed and agree, and the count is right. -/
theorem conversions_of_validated (h : Validated lits ipv6 parts m) (allocation : ℕ)
    (body : BodyArguments) :
    ∃ request copied,
      requestToRocSeamless lits allocation parts m body =
        .ok (request, request.strings.countP (RocStr.refersTo allocation)) ∧
      requestToRocCopied lits parts m body = .ok copied ∧
      request.map RocStr.contents = copied.map RocStr.contents := by
  obtain ⟨targetView, htarget, hsome⟩ := h.targetView
  obtain ⟨view, heffective⟩ : ∃ view, m.effectiveAuthorityView parts.uri parts.headers = .ok view :=
    ⟨_, h.accepted.effective⟩
  obtain ⟨target, n, hseamless, hcontents, hn⟩ := seamlessTarget_agrees lits allocation htarget hsome
  obtain ⟨authority, k, hauthority, hcontents', hk⟩ := seamlessAuthority_agrees allocation
    heffective
  have hheaders := convertHeaders_eq h.utf8 (.seamless allocation)
  have hcopied := convertHeaders_eq h.utf8 .fromStr
  obtain ⟨ext, ext', j, hext, hext', hsame, hj⟩ := methodExt_agrees allocation parts
  refine ⟨serverRequest body (methodToTag parts.method) ext
    (parts.headers.toList.map (headerOf (.seamless allocation) parts)) target authority,
    serverRequest body (methodToTag parts.method) ext'
      (parts.headers.toList.map (headerOf .fromStr parts)) (copiedTarget lits parts m targetView)
      (copiedAuthority view), ?_, ?_, ?_⟩
  · unfold requestToRocSeamless
    dsimp only
    rw [hext]
    refine bind_eq_ok.mpr ⟨_, hheaders, bind_eq_ok.mpr ⟨_, hseamless, bind_eq_ok.mpr
      ⟨_, hauthority, ?_⟩⟩⟩
    rw [Except.ok.injEq, Prod.mk.injEq]
    refine ⟨rfl, ?_⟩
    show j + _ + n + k = ([ext] ++ List.flatMap ServerHeader.strings
      (parts.headers.toList.map (headerOf (.seamless allocation) parts)) ++
        ([target.path, target.query, target.authorityHost] ++ [authority.host])).countP _
    rw [List.countP_append, List.countP_append, List.countP_append, countP_headers, ← hj, ← hn, ← hk,
      List.length_map, Nat.add_assoc]
  · unfold requestToRocCopied
    dsimp only
    rw [hext']
    exact bind_eq_ok.mpr ⟨_, hcopied, bind_eq_ok.mpr ⟨_, htarget, bind_eq_ok.mpr
      ⟨_, heffective, rfl⟩⟩⟩
  · rw [map_serverRequest, map_serverRequest, hsame, hcontents, hcontents', List.map_map,
      List.map_map]
    rfl

end BasicWebserver.RequestParts
