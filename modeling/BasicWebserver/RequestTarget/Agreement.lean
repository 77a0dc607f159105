import BasicWebserver.Foundation.Fallible
import BasicWebserver.RequestTarget.Metadata

/-!
# One authority for each request

What validation finds is what the texts of the request say (`authorityOf`), and the accessors find
it again in the request. A text that was parsed is ASCII and at least as long as its host, so
slicing it does not panic.
-/

namespace BasicWebserver.RequestTarget

open Ascii Http Fallible

variable {lits : Literals} {ipv6 : Bytes → Bool} {uri : Uri} {headers : RequestHeaders}

/-! ## Parsed authorities -/

theorem rfind_lt {byte : UInt8} {raw : Bytes} {i : ℕ} (h : rfind byte raw = some i) :
    i < raw.length := by
  obtain ⟨j, hj, rfl⟩ := Option.map_eq_some_iff.mp h
  have hlt := (List.findIdx?_eq_some_iff_findIdx_eq.mp hj).1
  rw [List.length_reverse] at hlt
  omega

theorem parseHostEnd_le {raw : Bytes} {stop : ℕ} (h : parseHostEnd ipv6 raw = .ok stop) :
    stop ≤ raw.length := by
  unfold parseHostEnd at h
  split at h
  · split at h
    · cases h
    · rename_i close hclose
      obtain ⟨-, -, h⟩ := bind_eq_ok.mp h
      cases h
      exact (List.findIdx?_eq_some_iff_findIdx_eq.mp hclose).1
  · obtain ⟨-, -, h⟩ := bind_eq_ok.mp h
    cases h
    cases hfind : rfind 58 raw with
    | none => exact Nat.le_refl _
    | some i => exact Nat.le_of_lt (rfind_lt hfind)

theorem parseAuthority_ok {raw : Bytes} {source : AuthoritySource} {p : ParsedAuthority}
    (h : parseAuthority ipv6 raw source = .ok p) :
    p.source = source ∧ p.hostEnd ≤ raw.length ∧ ∀ b ∈ raw, b < 128 := by
  unfold parseAuthority at h
  obtain ⟨hascii, h⟩ := ite_error_eq_ok.mp h
  obtain ⟨hostEnd, hhostEnd, h⟩ := bind_eq_ok.mp h
  obtain ⟨-, h⟩ := ite_error_eq_ok.mp h
  obtain ⟨port, -, h⟩ := bind_eq_ok.mp h
  cases h
  refine ⟨rfl, parseHostEnd_le hhostEnd, ?_⟩
  simp only [Bool.or_eq_true, not_or, Bool.not_eq_true, Bool.not_eq_false', List.all_eq_true,
    decide_eq_true_eq] at hascii
  exact hascii.1.2

theorem parseAuthority_source {raw : Bytes} {source : AuthoritySource} {p : ParsedAuthority}
    (h : parseAuthority ipv6 raw source = .ok p) (source' : AuthoritySource) :
    parseAuthority ipv6 raw source' = .ok { p with source := source' } := by
  unfold parseAuthority at h ⊢
  obtain ⟨hascii, h⟩ := ite_error_eq_ok.mp h
  obtain ⟨hostEnd, hhostEnd, h⟩ := bind_eq_ok.mp h
  obtain ⟨hzero, h⟩ := ite_error_eq_ok.mp h
  obtain ⟨port, hport, h⟩ := bind_eq_ok.mp h
  cases h
  exact ite_error_eq_ok.mpr ⟨hascii, bind_eq_ok.mpr ⟨hostEnd, hhostEnd,
    ite_error_eq_ok.mpr ⟨hzero, bind_eq_ok.mpr ⟨port, hport, rfl⟩⟩⟩⟩

/-- The authority that a text names. -/
def authorityOf (ipv6 : Bytes → Bool) (text : Text) : Option AuthorityView :=
  match parseAuthority ipv6 text.bytes .uri with
  | .error _ => none
  | .ok p => some ⟨text.take p.hostEnd, p.port⟩

theorem authorityOf_eq {text : Text} {source : AuthoritySource} {p : ParsedAuthority}
    (h : parseAuthority ipv6 text.bytes source = .ok p) :
    authorityOf ipv6 text = some ⟨text.take p.hostEnd, p.port⟩ := by
  unfold authorityOf
  rw [parseAuthority_source h .uri]

theorem authorityOf_nil {text : Text} (h : text.bytes = []) : authorityOf ipv6 text = none := by
  unfold authorityOf
  rw [h]
  rfl

theorem sliceTo_parsed {text : Text} {source : AuthoritySource} {p : ParsedAuthority}
    (h : parseAuthority ipv6 text.bytes source = .ok p) :
    sliceTo text p.hostEnd = .ok (text.take p.hostEnd) := by
  obtain ⟨-, hle, hascii⟩ := parseAuthority_ok h
  exact if_pos ⟨hle, fun b hb => .inl (hascii b (List.mem_of_getElem? hb))⟩

/-- The value of the first Host field, as a text. -/
def hostText (headers : RequestHeaders) : Option Text :=
  (headers.get .host).bind StoredValue.toStr

theorem view_uri {raw : Text} {p : ParsedAuthority} (huri : uri.authority = some raw)
    (h : parseAuthority ipv6 raw.bytes .uri = .ok p) :
    p.view uri headers = .ok ⟨raw.take p.hostEnd, p.port⟩ := by
  have hraw : p.raw uri headers = .ok raw := by
    unfold ParsedAuthority.raw
    rw [(parseAuthority_ok h).1, huri]
    rfl
  exact bind_eq_ok.mpr ⟨raw, hraw, bind_eq_ok.mpr ⟨_, sliceTo_parsed h, rfl⟩⟩

theorem view_host {raw : Text} {p : ParsedAuthority} (hhost : hostText headers = some raw)
    (h : parseAuthority ipv6 raw.bytes .host = .ok p) :
    p.view uri headers = .ok ⟨raw.take p.hostEnd, p.port⟩ := by
  obtain ⟨value, hvalue, hraw⟩ := Option.bind_eq_some_iff.mp hhost
  have hraw : p.raw uri headers = .ok raw := by
    unfold ParsedAuthority.raw
    rw [(parseAuthority_ok h).1, hvalue]
    exact elim_eq_ok.mpr hraw
  exact bind_eq_ok.mpr ⟨raw, hraw, bind_eq_ok.mpr ⟨_, sliceTo_parsed h, rfl⟩⟩

/-! ## The two sources -/

/-- What the Host field of a valid request can be. -/
inductive HostField (ipv6 : Bytes → Bool) (headers : RequestHeaders) : ParsedHostHeader → Prop
  | absent (hosts : headers.getAll .host = []) : HostField ipv6 headers ⟨false, none⟩
  | empty (value : StoredValue) (raw : Text) (hosts : headers.getAll .host = [value])
      (text : hostText headers = some raw) (nil : raw.bytes = []) :
      HostField ipv6 headers ⟨true, none⟩
  | named (value : StoredValue) (raw : Text) (p : ParsedAuthority)
      (hosts : headers.getAll .host = [value]) (text : hostText headers = some raw)
      (parsed : parseAuthority ipv6 raw.bytes .host = .ok p) : HostField ipv6 headers ⟨true, some p⟩

theorem hostText_of_getAll {value : StoredValue} {values : List StoredValue}
    (h : headers.getAll .host = value :: values) : hostText headers = value.toStr := by
  unfold hostText Multimap.get
  rw [h]
  rfl

theorem hostField_of_parse {host : ParsedHostHeader}
    (h : parseHostHeader ipv6 headers = .ok host) : HostField ipv6 headers host := by
  unfold parseHostHeader at h
  split at h
  · cases h
    exact .absent ‹_›
  · rename_i value hosts
    split at h
    · cases h
    · rename_i raw htext
      have htext := (hostText_of_getAll hosts).trans htext
      split at h
      · cases h
        exact .empty value raw hosts htext ‹_›
      · obtain ⟨p, hp, h⟩ := bind_eq_ok.mp h
        cases h
        exact .named value raw p hosts htext hp
  · cases h

theorem HostField.text {host : ParsedHostHeader} (h : HostField ipv6 headers host)
    {raw : Text} (htext : hostText headers = some raw) :
    raw.bytes = [] ∨ (authorityOf ipv6 raw).isSome := by
  cases h with
  | absent hosts =>
    unfold hostText Multimap.get at htext
    rw [hosts] at htext
    cases htext
  | empty value raw' hosts text nil =>
    cases text.symm.trans htext
    exact .inl nil
  | named value raw' p hosts text parsed =>
    cases text.symm.trans htext
    exact .inr (by rw [authorityOf_eq parsed]; rfl)

theorem HostField.view {host : ParsedHostHeader} (h : HostField ipv6 headers host) :
    ParsedAuthority.viewOf host.authority uri headers =
      .ok ((hostText headers).bind (authorityOf ipv6)) := by
  cases h with
  | absent hosts =>
    unfold hostText Multimap.get
    rw [hosts]
    rfl
  | empty value raw hosts text nil =>
    rw [text, Option.bind_some, authorityOf_nil nil]
    rfl
  | named value raw p hosts text parsed =>
    rw [text, Option.bind_some, authorityOf_eq parsed]
    exact bind_eq_ok.mpr ⟨_, view_host text parsed, rfl⟩

theorem parseUriAuthority_ok {authority : Option ParsedAuthority}
    (h : parseUriAuthority ipv6 uri = .ok authority) :
    (uri.authority = none ∧ authority = none) ∨
      ∃ raw p, uri.authority = some raw ∧ parseAuthority ipv6 raw.bytes .uri = .ok p ∧
        authority = some p := by
  unfold parseUriAuthority at h
  split at h
  · cases h
    exact .inl ⟨‹_›, rfl⟩
  · obtain ⟨p, hp, h⟩ := bind_eq_ok.mp h
    cases h
    exact .inr ⟨_, p, ‹_›, hp, rfl⟩

/-- The authority of the request: that of its URI, or else that of its Host field. -/
def namedAuthority (ipv6 : Bytes → Bool) (uri : Uri) (headers : RequestHeaders) :
    Option AuthorityView :=
  match uri.authority with
  | some raw => authorityOf ipv6 raw
  | none => (hostText headers).bind (authorityOf ipv6)

theorem view_or {authority : Option ParsedAuthority} {host : ParsedHostHeader}
    (hauthority : parseUriAuthority ipv6 uri = .ok authority) (hhost : HostField ipv6 headers host) :
    ParsedAuthority.viewOf (authority.or host.authority) uri headers =
      .ok (namedAuthority ipv6 uri headers) := by
  unfold namedAuthority
  rcases parseUriAuthority_ok hauthority with ⟨huri, rfl⟩ | ⟨raw, p, huri, hp, rfl⟩
  · rw [huri]
    exact hhost.view
  · rw [huri]
    show _ = Except.ok (authorityOf ipv6 raw)
    rw [authorityOf_eq hp]
    exact bind_eq_ok.mpr ⟨_, view_uri huri hp, rfl⟩

/-- Two authorities that agree. -/
def SameAuthority (a b : AuthorityView) : Prop :=
  eqIgnoreCase a.host.bytes b.host.bytes ∧ a.port = b.port

theorem authoritiesEqual_eq {raw raw' : Text} {p p' : ParsedAuthority}
    (huri : uri.authority = some raw) (hp : parseAuthority ipv6 raw.bytes .uri = .ok p)
    (hhost : hostText headers = some raw') (hp' : parseAuthority ipv6 raw'.bytes .host = .ok p') :
    authoritiesEqual p p' uri headers =
      .ok (eqIgnoreCase (raw.take p.hostEnd).bytes (raw'.take p'.hostEnd).bytes &&
        p.port = p'.port) :=
  bind_eq_ok.mpr ⟨_, view_uri huri hp, bind_eq_ok.mpr ⟨_, view_host hhost hp', rfl⟩⟩

/-- What a version asks of the authorities. -/
structure Agreed (ipv6 : Bytes → Bool) (version : Version) (uri : Uri) (headers : RequestHeaders) :
    Prop where
  supported : version = .http10 ∨ version = .http11 ∨ version = .http2
  hosts : (headers.getAll .host).length ≤ 1
  host : version = .http11 → (headers.getAll .host).length = 1
  agree : version = .http2 → ∀ value raw, headers.getAll .host = [value] →
    uri.authority = some raw → ∃ raw' a b, hostText headers = some raw' ∧
      authorityOf ipv6 raw = some a ∧ authorityOf ipv6 raw' = some b ∧ SameAuthority a b

theorem HostField.length_le {host : ParsedHostHeader} (h : HostField ipv6 headers host) :
    (headers.getAll .host).length ≤ 1 := by
  cases h with
  | absent hosts => rw [hosts]; exact Nat.zero_le _
  | empty value raw hosts text nil => rw [hosts]; exact Nat.le_refl _
  | named value raw p hosts text parsed => rw [hosts]; exact Nat.le_refl _

theorem HostField.length_eq {host : ParsedHostHeader} (h : HostField ipv6 headers host)
    (hpresent : host.present) : (headers.getAll .host).length = 1 := by
  cases h with
  | absent hosts => cases hpresent
  | empty value raw hosts text nil => rw [hosts]; rfl
  | named value raw p hosts text parsed => rw [hosts]; rfl

theorem checkAuthorities_ok {version : Version} {authority effective : Option ParsedAuthority}
    {host : ParsedHostHeader} (hauthority : parseUriAuthority ipv6 uri = .ok authority)
    (hhost : HostField ipv6 headers host)
    (h : checkAuthorities version authority host uri headers = .ok effective) :
    Agreed ipv6 version uri headers ∧ effective = authority.or host.authority := by
  have hle := hhost.length_le
  cases version with
  | http10 =>
    cases h
    exact ⟨⟨.inl rfl, hle, nofun, nofun⟩, rfl⟩
  | http11 =>
    obtain ⟨hpresent, h⟩ := ite_error_eq_ok.mp h
    cases h
    rw [Bool.not_eq_true', Bool.not_eq_false] at hpresent
    exact ⟨⟨.inr (.inl rfl), hle, fun _ => hhost.length_eq hpresent, nofun⟩, rfl⟩
  | http2 =>
    unfold checkAuthorities at h
    cases hhost with
    | absent hosts =>
      cases h
      refine ⟨⟨.inr (.inr rfl), hle, nofun, fun _ value raw hvalue => ?_⟩, rfl⟩
      rw [hosts] at hvalue
      cases hvalue
    | empty value raw hosts text nil =>
      rcases parseUriAuthority_ok hauthority with ⟨huri, rfl⟩ | ⟨raw', p', huri, hp', rfl⟩
      · cases h
        refine ⟨⟨.inr (.inr rfl), hle, nofun, fun _ _ raw' _ hraw' => ?_⟩, rfl⟩
        rw [huri] at hraw'
        cases hraw'
      · cases h
    | named value raw p hosts text parsed =>
      rcases parseUriAuthority_ok hauthority with ⟨huri, rfl⟩ | ⟨raw', p', huri, hp', rfl⟩
      · cases h
        refine ⟨⟨.inr (.inr rfl), hle, nofun, fun _ _ raw' _ hraw' => ?_⟩, rfl⟩
        rw [huri] at hraw'
        cases hraw'
      · obtain ⟨equal, hequal, h⟩ := bind_eq_ok.mp h
        obtain ⟨htrue, h⟩ := ite_error_eq_ok.mp h
        cases h
        rw [authoritiesEqual_eq huri hp' text parsed] at hequal
        refine ⟨⟨.inr (.inr rfl), hle, nofun, fun _ _ raw'' _ hraw'' => ?_⟩, rfl⟩
        cases huri.symm.trans hraw''
        refine ⟨raw, _, _, text, authorityOf_eq hp', authorityOf_eq parsed, ?_⟩
        cases hequal
        simpa [SameAuthority] using htrue
  | http09 => cases h
  | http3 => cases h

/-! ## Targets -/

/-- The request line has `*` for a target, or the request has it for a path in HTTP/2. -/
def isAsterisk (version : Version) (uri : Uri) : Bool :=
  uri.pathAndQuery.any (fun value => value.data.bytes = [42]) &&
    (version = .http2 || (uri.scheme.isNone && uri.authority.isNone))

theorem asStr_eq_asterisk {value : PathAndQuery} :
    (value.asStr lits).bytes = [42] ↔ value.data.bytes = [42] := by
  unfold PathAndQuery.asStr
  split_ifs with h
  · rw [h]
    exact ⟨nofun, nofun⟩
  · exact Iff.rfl

structure Classified (method : Method) (version : Version) (uri : Uri) (target : TargetKind) :
    Prop where
  authority : target = .authority ↔ method = .connect
  asterisk : target = .asterisk ↔ isAsterisk version uri ∧ method = .options

theorem classifyPath_ok {method : Method} {value : PathAndQuery} {target : TargetKind}
    (h : classifyPath method (value.asStr lits).bytes = .ok target) :
    method ≠ .connect ∧ target ≠ .authority ∧
      (target = .asterisk ↔ value.data.bytes = [42] ∧ method = .options) := by
  rw [← @asStr_eq_asterisk lits]
  unfold classifyPath at h
  split at h
  · rename_i hstar
    split at h
    · rename_i hmethod
      cases h
      exact ⟨by rw [hmethod]; nofun, nofun, fun _ => ⟨hstar, hmethod⟩, fun _ => rfl⟩
    · cases h
  · rename_i hstar
    obtain ⟨hmethod, h⟩ := ite_error_eq_ok.mp h
    cases h
    rw [Bool.or_eq_true, decide_eq_true_eq, not_or] at hmethod
    exact ⟨hmethod.1, nofun, nofun, fun h => absurd h.1 hstar⟩

theorem classifyTarget_ok {method : Method} {version : Version} {target : TargetKind}
    (h : classifyTarget lits method version uri = .ok target) :
    Classified method version uri target := by
  have hpath : ∀ {value}, uri.pathAndQuery = some value →
      (version = .http2 || (uri.scheme.isNone && uri.authority.isNone)) = true →
      classifyPath method (value.asStr lits).bytes = .ok target →
      Classified method version uri target := by
    intro value hvalue hform h
    obtain ⟨hconnect, hauthority, hasterisk⟩ := classifyPath_ok h
    refine ⟨iff_of_false hauthority hconnect, hasterisk.trans (and_congr_left fun _ => ?_)⟩
    unfold isAsterisk
    rw [hform, hvalue, Bool.and_true, Option.any_some, decide_eq_true_eq]
  unfold classifyTarget at h
  split at h
  · rename_i hversion
    split at h
    · rename_i hmethod
      split at h
      · cases h
        exact ⟨iff_of_true rfl hmethod, iff_of_false nofun (by rw [hmethod]; exact fun h => nomatch h.2)⟩
      · cases h
    · split at h
      · cases h
      · exact hpath ‹_› (by rw [hversion]; rfl) h
  · rename_i hversion
    have hform : (version = .http2 || (uri.scheme.isNone && uri.authority.isNone)) = true →
        uri.scheme = none ∧ uri.authority = none := by
      intro h
      simpa [hversion] using h
    split at h
    · rename_i hscheme
      split at h
      · rename_i hmethod
        cases h
        rw [Bool.and_eq_true, decide_eq_true_eq] at hmethod
        refine ⟨iff_of_false nofun hmethod.1, iff_of_false nofun fun hstar => ?_⟩
        have hnone := (hform (Bool.and_eq_true_iff.mp hstar.1).2).1
        rw [hnone] at hscheme
        cases hscheme
      · cases h
    · rename_i hscheme
      split at h
      · rename_i hauthority
        split at h
        · rename_i hmethod
          cases h
          rw [Bool.and_eq_true, decide_eq_true_eq] at hmethod
          exact ⟨iff_of_true rfl hmethod.1,
            iff_of_false nofun (by rw [hmethod.1]; exact fun h => nomatch h.2)⟩
        · cases h
      · rename_i hauthority
        split at h
        · cases h
        · refine hpath ‹_› ?_ h
          rw [Option.not_isSome_iff_eq_none.mp hscheme, Option.not_isSome_iff_eq_none.mp hauthority]
          exact Bool.or_true _

/-! ## Accepted requests -/

theorem validateComponents_ok {method : Method} {version : Version} {m : RequestMetadata}
    (h : validateComponents lits ipv6 method version uri headers = .ok m) :
    ∃ authority host, classifyTarget lits method version uri = .ok m.target ∧
      parseUriAuthority ipv6 uri = .ok authority ∧ HostField ipv6 headers host ∧
      checkAuthorities version authority host uri headers = .ok m.effectiveAuthority ∧
      m.targetAuthority = (if m.target = .authority then authority else none) ∧
      (m.target = .authority → authority ≠ none) := by
  obtain ⟨target, htarget, h⟩ := bind_eq_ok.mp h
  obtain ⟨authority, hauthority, h⟩ := bind_eq_ok.mp h
  obtain ⟨host, hhost, h⟩ := bind_eq_ok.mp h
  obtain ⟨effective, heffective, h⟩ := bind_eq_ok.mp h
  obtain ⟨hsome, h⟩ := ite_error_eq_ok.mp h
  cases h
  refine ⟨authority, host, htarget, hauthority, hostField_of_parse hhost, heffective, rfl, ?_⟩
  rintro rfl rfl
  exact hsome rfl

/-- What is known of an accepted request. -/
structure Accepted (lits : Literals) (ipv6 : Bytes → Bool) (method : Method) (version : Version)
    (uri : Uri) (headers : RequestHeaders) (m : RequestMetadata) : Prop where
  agreed : Agreed ipv6 version uri headers
  valid : ∀ raw, hostText headers = some raw → raw.bytes = [] ∨ (authorityOf ipv6 raw).isSome
  classified : Classified method version uri m.target
  effective : m.effectiveAuthorityView uri headers = .ok (namedAuthority ipv6 uri headers)
  named : uri.authority.isSome → (namedAuthority ipv6 uri headers).isSome
  targetAuthority : m.targetAuthorityView uri headers =
    .ok (if m.target = .authority then namedAuthority ipv6 uri headers else none)
  path : (m.resourcePath lits uri).isSome ↔ m.target = .resource
  length : ∃ n, m.normalizedTargetLen lits uri = .ok n

theorem accepted_of_validate {method : Method} {version : Version} {m : RequestMetadata}
    (h : validateComponents lits ipv6 method version uri headers = .ok m) :
    Accepted lits ipv6 method version uri headers m := by
  obtain ⟨authority, host, htarget, hauthority, hhost, heffective, htargetAuthority, hsome⟩ :=
    validateComponents_ok h
  obtain ⟨hagreed, heffective⟩ := checkAuthorities_ok hauthority hhost heffective
  have hview := @view_or ipv6 uri headers authority host hauthority hhost
  have huri : authority ≠ none → ∃ raw p, uri.authority = some raw ∧
      parseAuthority ipv6 raw.bytes .uri = .ok p ∧ authority = some p := fun hne =>
    (parseUriAuthority_ok hauthority).resolve_left fun h => hne h.2
  refine ⟨hagreed, fun raw htext => hhost.text htext, classifyTarget_ok htarget, ?_, ?_, ?_, ?_, ?_⟩
  · unfold RequestMetadata.effectiveAuthorityView
    rw [heffective]
    exact hview
  · intro hsome
    rcases parseUriAuthority_ok hauthority with ⟨hnone, -⟩ | ⟨raw, p, huri, hp, -⟩
    · rw [hnone] at hsome
      cases hsome
    · unfold namedAuthority
      rw [huri]
      show (authorityOf ipv6 raw).isSome
      rw [authorityOf_eq hp]
      rfl
  · unfold RequestMetadata.targetAuthorityView
    rw [htargetAuthority]
    split_ifs with hkind
    · obtain ⟨raw, p, -, -, rfl⟩ := huri (hsome hkind)
      exact hview
    · rfl
  · unfold RequestMetadata.resourcePath
    split_ifs with hkind
    · exact ⟨nofun, fun h => absurd h hkind⟩
    · exact ⟨fun _ => not_not.mp hkind, fun _ => rfl⟩
  · unfold RequestMetadata.normalizedTargetLen
    split
    · exact ⟨_, rfl⟩
    · rename_i hkind
      obtain ⟨raw, p, hraw, -, -⟩ := huri (hsome hkind)
      rw [hraw]
      exact ⟨raw.length, rfl⟩
    · exact ⟨1, rfl⟩

/-! ## Origin form and absolute form -/

/-- Targets for one resource: an absolute form may leave out a path that is only a slash. -/
def SameResource (origin absolute : PathAndQuery) : Prop :=
  absolute.data.bytes = origin.data.bytes ∨
    (origin.data.bytes = 47 :: absolute.data.bytes ∧
      (absolute.data.bytes = [] ∨ absolute.data.bytes.head? = some 63))

def pathBytes (data : Bytes) : Bytes :=
  if data.takeWhile (· ≠ 63) = [] then [47] else data.takeWhile (· ≠ 63)

def queryBytes (data : Bytes) : Option Bytes :=
  if 63 ∈ data then some (data.drop ((data.takeWhile (· ≠ 63)).length + 1)) else none

theorem stored_bytes (value : PathAndQuery) :
    value.stored.bytes = value.data.bytes.takeWhile (· ≠ 63) :=
  (List.prefix_iff_eq_take.mp (List.takeWhile_prefix _)).symm

theorem path_bytes (value : PathAndQuery) :
    (value.path lits).bytes = pathBytes value.data.bytes := by
  unfold PathAndQuery.path pathBytes
  rw [apply_ite Text.bytes, stored_bytes]

theorem query_bytes (value : PathAndQuery) :
    value.query.map Text.bytes = queryBytes value.data.bytes := by
  unfold PathAndQuery.query queryBytes Text.length
  rw [stored_bytes]
  split_ifs <;> rfl

theorem SameResource.bytes {origin absolute : PathAndQuery} (h : SameResource origin absolute) :
    pathBytes absolute.data.bytes = pathBytes origin.data.bytes ∧
      queryBytes absolute.data.bytes = queryBytes origin.data.bytes := by
  rcases h with heq | ⟨heq, hrest⟩
  · rw [heq]
    exact ⟨rfl, rfl⟩
  · rw [heq]
    cases hbytes : absolute.data.bytes with
    | nil => exact ⟨rfl, rfl⟩
    | cons b rest =>
      rw [hbytes] at hrest
      obtain rfl : b = 63 := Option.some.inj (hrest.resolve_left nofun)
      refine ⟨rfl, ?_⟩
      unfold queryBytes
      rw [if_pos List.mem_cons_self, if_pos (List.mem_cons_of_mem _ List.mem_cons_self)]
      rfl

theorem classifyTarget_origin {method : Method} {target : PathAndQuery} {kind : TargetKind}
    (hslash : target.data.bytes.head? = some 47)
    (h : classifyTarget lits method .http11 ⟨none, none, some target⟩ = .ok kind) :
    kind = .resource ∧ method ≠ .connect := by
  have hpath : classifyPath method (target.asStr lits).bytes = .ok kind := h
  obtain ⟨hmethod, hauthority, hasterisk⟩ := classifyPath_ok hpath
  cases kind with
  | resource => exact ⟨rfl, hmethod⟩
  | authority => exact absurd rfl hauthority
  | asterisk =>
    rw [(hasterisk.mp rfl).1] at hslash
    cases hslash

/-- The absolute form of an accepted request in origin form is accepted with any valid Host field,
for the same resource and the same authority. -/
theorem absolute_of_origin {method : Method} {headers' : RequestHeaders} {scheme : Bytes}
    {raw authority : Text} {origin absolute : PathAndQuery} {m : RequestMetadata}
    {host : ParsedHostHeader} (hraw : hostText headers = some raw) (hne : raw.bytes ≠ [])
    (hauthority : authority.bytes = raw.bytes) (hslash : origin.data.bytes.head? = some 47)
    (hsame : SameResource origin absolute)
    (h : validateComponents lits ipv6 method .http11 ⟨none, none, some origin⟩ headers = .ok m)
    (hhost : parseHostHeader ipv6 headers' = .ok host) (hpresent : host.present) :
    ∃ m' a a',
      validateComponents lits ipv6 method .http11 ⟨some scheme, some authority, some absolute⟩
        headers' = .ok m' ∧
      (m'.resourcePath lits ⟨some scheme, some authority, some absolute⟩).map Text.bytes =
        (m.resourcePath lits ⟨none, none, some origin⟩).map Text.bytes ∧
      (m'.resourceQuery ⟨some scheme, some authority, some absolute⟩).map Text.bytes =
        (m.resourceQuery ⟨none, none, some origin⟩).map Text.bytes ∧
      m.effectiveAuthorityView ⟨none, none, some origin⟩ headers = .ok (some a) ∧
      m'.effectiveAuthorityView ⟨some scheme, some authority, some absolute⟩ headers' =
        .ok (some a') ∧
      a'.host.bytes = a.host.bytes ∧ a'.port = a.port := by
  obtain ⟨-, hostField, htarget, -, hfield, -, -, -⟩ := validateComponents_ok h
  obtain ⟨hkind, hmethod⟩ := classifyTarget_origin hslash htarget
  obtain ⟨p, hp⟩ : ∃ p, parseAuthority ipv6 raw.bytes .host = .ok p := by
    cases hfield with
    | absent hosts =>
      unfold hostText Multimap.get at hraw
      rw [hosts] at hraw
      cases hraw
    | empty value raw' hosts text nil =>
      cases text.symm.trans hraw
      exact absurd nil hne
    | named value raw' p hosts text parsed =>
      cases text.symm.trans hraw
      exact ⟨p, parsed⟩
  have hp' : parseAuthority ipv6 authority.bytes .uri = .ok { p with source := .uri } := by
    rw [hauthority]
    exact parseAuthority_source hp .uri
  have hvalid : validateComponents lits ipv6 method .http11
      ⟨some scheme, some authority, some absolute⟩ headers' =
        .ok ⟨.resource, none, some { p with source := .uri }⟩ := by
    refine bind_eq_ok.mpr ⟨.resource, ?_, bind_eq_ok.mpr ⟨some { p with source := .uri },
      bind_eq_ok.mpr ⟨_, hp', rfl⟩, bind_eq_ok.mpr ⟨host, hhost,
        bind_eq_ok.mpr ⟨some { p with source := .uri }, ?_, rfl⟩⟩⟩⟩
    · show (if decide (method ≠ .connect) && true then Except.ok TargetKind.resource else invalid) = _
      rw [decide_eq_true hmethod]
      rfl
    · unfold checkAuthorities
      rw [hpresent]
      rfl
  have hm := accepted_of_validate h
  have hm' := accepted_of_validate hvalid
  refine ⟨_, ⟨raw.take p.hostEnd, p.port⟩, ⟨authority.take p.hostEnd, p.port⟩, hvalid, ?_, ?_, ?_, ?_,
    ?_, rfl⟩
  · unfold RequestMetadata.resourcePath
    rw [if_neg (by exact not_not.mpr rfl), if_neg (not_not.mpr hkind)]
    show some (absolute.path lits).bytes = some (origin.path lits).bytes
    rw [path_bytes, path_bytes, hsame.bytes.1]
  · unfold RequestMetadata.resourceQuery
    rw [if_neg (by exact not_not.mpr rfl), if_neg (not_not.mpr hkind)]
    show absolute.query.map Text.bytes = origin.query.map Text.bytes
    rw [query_bytes, query_bytes, hsame.bytes.2]
  · rw [hm.effective]
    show Except.ok ((hostText headers).bind (authorityOf ipv6)) = _
    rw [hraw, Option.bind_some, authorityOf_eq hp]
  · rw [hm'.effective]
    show Except.ok (authorityOf ipv6 authority) = _
    rw [authorityOf_eq hp']
  · show authority.bytes.take p.hostEnd = raw.bytes.take p.hostEnd
    rw [hauthority]

/-- **One authority for each request.** An accepted request has a supported version and at most one
Host value, exactly one in HTTP/1.1, and in HTTP/2 it agrees with the authority of the URI. The
effective authority is that of the URI, or else that of the Host value; the kind of the target
follows from the method and the target; and the accessors do not panic. A request in origin form and
the same request in absolute form, with the Host value as its authority and any valid Host field,
are for the same resource and the same authority. -/
theorem one_authority (lits : Literals) (ipv6 : Bytes → Bool) :
    (∀ method version uri headers m,
      validateComponents lits ipv6 method version uri headers = .ok m →
      Accepted lits ipv6 method version uri headers m) ∧
    (∀ method headers headers' scheme raw authority origin absolute m host,
      hostText headers = some raw → raw.bytes ≠ [] → authority.bytes = raw.bytes →
      origin.data.bytes.head? = some 47 → SameResource origin absolute →
      validateComponents lits ipv6 method .http11 ⟨none, none, some origin⟩ headers = .ok m →
      parseHostHeader ipv6 headers' = .ok host → host.present →
      ∃ m' a a',
        validateComponents lits ipv6 method .http11 ⟨some scheme, some authority, some absolute⟩
          headers' = .ok m' ∧
        (m'.resourcePath lits ⟨some scheme, some authority, some absolute⟩).map Text.bytes =
          (m.resourcePath lits ⟨none, none, some origin⟩).map Text.bytes ∧
        (m'.resourceQuery ⟨some scheme, some authority, some absolute⟩).map Text.bytes =
          (m.resourceQuery ⟨none, none, some origin⟩).map Text.bytes ∧
        m.effectiveAuthorityView ⟨none, none, some origin⟩ headers = .ok (some a) ∧
        m'.effectiveAuthorityView ⟨some scheme, some authority, some absolute⟩ headers' =
          .ok (some a') ∧
        a'.host.bytes = a.host.bytes ∧ a'.port = a.port) :=
  ⟨fun _ _ _ _ _ => accepted_of_validate,
    fun _ _ _ _ _ _ _ _ _ _ hraw hne hauthority hslash hsame h hhost hpresent =>
      absolute_of_origin hraw hne hauthority hslash hsame h hhost hpresent⟩

/-- Headers with one Host value. -/
def hostHeaders (value : HeaderValue) : RequestHeaders :=
  Multimap.empty.append .host ⟨value, 100⟩

/-- `/?q`. -/
def originForm : Uri := ⟨none, none, some ⟨⟨40, ascii "/?q"⟩⟩⟩

/-- `http://example.test:80?q`. -/
def absoluteForm : Uri :=
  ⟨some (ascii "http"), some ⟨20, ascii "example.test:80"⟩, some ⟨⟨40, ascii "?q"⟩⟩⟩

theorem one_authority_forms :
    ∃ m m' a a', validateComponents ⟨1, 2⟩ (fun _ => false) .get .http11 originForm
        (hostHeaders ⟨ascii "example.test:80", by decide⟩) = .ok m ∧
      Accepted ⟨1, 2⟩ (fun _ => false) .get .http11 originForm
        (hostHeaders ⟨ascii "example.test:80", by decide⟩) m ∧
      validateComponents ⟨1, 2⟩ (fun _ => false) .get .http11 absoluteForm
        (hostHeaders ⟨[], rfl⟩) = .ok m' ∧
      (m'.resourcePath ⟨1, 2⟩ absoluteForm).map Text.bytes =
        (m.resourcePath ⟨1, 2⟩ originForm).map Text.bytes ∧
      m.effectiveAuthorityView originForm
        (hostHeaders ⟨ascii "example.test:80", by decide⟩) = .ok (some a) ∧
      m'.effectiveAuthorityView absoluteForm (hostHeaders ⟨[], rfl⟩) = .ok (some a') ∧
      a'.host.bytes = a.host.bytes ∧ a'.port = a.port := by
  obtain ⟨haccepted, hforms⟩ := one_authority ⟨1, 2⟩ fun _ => false
  have horigin : validateComponents ⟨1, 2⟩ (fun _ => false) .get .http11 originForm
      (hostHeaders ⟨ascii "example.test:80", by decide⟩) =
        .ok ⟨.resource, none, some ⟨.host, 12, some 80⟩⟩ := by decide +kernel
  obtain ⟨m', a, a', hvalid, hpath, -, hview, hview', hhost, hport⟩ :=
    hforms .get (hostHeaders ⟨ascii "example.test:80", by decide⟩) (hostHeaders ⟨[], rfl⟩)
      (ascii "http") ⟨100, ascii "example.test:80"⟩ ⟨20, ascii "example.test:80"⟩
      ⟨⟨40, ascii "/?q"⟩⟩ ⟨⟨40, ascii "?q"⟩⟩ _ ⟨true, none⟩ rfl nofun rfl rfl
      (.inr ⟨rfl, .inr rfl⟩) horigin rfl rfl
  exact ⟨_, m', a, a', horigin, haccepted _ _ _ _ _ horigin, hvalid, hpath, hview, hview', hhost,
    hport⟩

end BasicWebserver.RequestTarget
