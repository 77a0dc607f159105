import BasicWebserver.FileServer.Serve

/-!
# Framing of file responses

The decisions of `prepareAndStream` are made one after the other on one header map. `Described` is
what the map says about the file before a range is looked at; each later stage changes the length
and the range field together with the bytes that will be streamed.
-/

namespace BasicWebserver.FileServer

open Ascii Http Compression Response

/-! ## Header fields -/

/-- The fields of file responses. -/
def hostNames : List HeaderName :=
  [HeaderName.acceptRanges, HeaderName.cacheControl, HeaderName.contentDisposition,
    HeaderName.contentEncoding, HeaderName.contentLength, HeaderName.contentRange,
    HeaderName.contentType, HeaderName.etag, HeaderName.lastModified, HeaderName.vary]

def HostOnly (headers : HeaderMap) : Prop := ∀ name, headers.getAll name ≠ [] → name ∈ hostNames

section Fields

variable {headers headers' : HeaderMap} {name : HeaderName}

theorem HostOnly.empty : HostOnly .empty := fun _ h => absurd rfl h

theorem HostOnly.of_ne (h : HostOnly headers) (hname : name ∈ hostNames)
    (hne : ∀ other ≠ name, headers'.getAll other = headers.getAll other) : HostOnly headers' := by
  intro other hother
  by_cases heq : other = name
  · exact heq ▸ hname
  · exact h other (hne other heq ▸ hother)

theorem HostOnly.insert (h : HostOnly headers) (hname : name ∈ hostNames) (value : HeaderValue) :
    HostOnly (headers.insert name value) :=
  h.of_ne hname fun _ => Multimap.getAll_insert_ne

theorem HostOnly.remove (h : HostOnly headers) (hname : name ∈ hostNames) :
    HostOnly (headers.remove name) :=
  h.of_ne hname fun _ => Multimap.getAll_remove_ne

theorem HostOnly.vary (h : HostOnly headers) : HostOnly (varyOnAcceptEncoding headers) :=
  h.of_ne (show HeaderName.vary ∈ hostNames by decide) fun _ => getAll_varyOnAcceptEncoding

theorem put_eq {value : Bytes} (h : put headers name value = some headers') :
    ∃ v : HeaderValue, v.bytes = value ∧ headers' = headers.insert name v := by
  unfold put at h
  obtain ⟨v, hv, rfl⟩ := Option.map_eq_some_iff.mp h
  refine ⟨v, ?_, rfl⟩
  unfold HeaderValue.fromStr at hv
  split at hv
  · cases hv
    rfl
  · cases hv

theorem getAll_put_ne {value : Bytes} {other : HeaderName}
    (h : put headers name value = some headers') (hne : other ≠ name) :
    headers'.getAll other = headers.getAll other := by
  obtain ⟨v, -, rfl⟩ := put_eq h
  exact Multimap.getAll_insert_ne hne

theorem HostOnly.put {value : Bytes} (h : HostOnly headers) (hname : name ∈ hostNames)
    (hput : put headers name value = some headers') : HostOnly headers' :=
  h.of_ne hname fun _ => getAll_put_ne hput

theorem getAll_put_length {length : ℕ}
    (h : put headers HeaderName.contentLength (decimal length) = some headers') :
    headers'.getAll HeaderName.contentLength = [HeaderValue.ofNat length] := by
  obtain ⟨v, hv, rfl⟩ := put_eq h
  obtain rfl : v = HeaderValue.ofNat length := HeaderValue.ext hv
  exact Multimap.getAll_insert_self

end Fields

/-! ## The representation -/

/-- What the header map says about a file of this length. -/
structure Described (headers : HeaderMap) (length : ℕ) : Prop where
  hostOnly : HostOnly headers
  contentLength : headers.getAll HeaderName.contentLength = [HeaderValue.ofNat length]
  contentEncoding : headers.getAll HeaderName.contentEncoding = []
  contentRange : headers.getAll HeaderName.contentRange = []

theorem Described.of_ne {headers headers' : HeaderMap} {length : ℕ} {name : HeaderName}
    (h : Described headers length) (hname : name ∈ hostNames)
    (hother : name ∉ [HeaderName.contentLength, HeaderName.contentEncoding,
      HeaderName.contentRange])
    (hne : ∀ other ≠ name, headers'.getAll other = headers.getAll other) :
    Described headers' length := by
  simp only [List.mem_cons, List.not_mem_nil, or_false, not_or] at hother
  obtain ⟨hlength, hencoding, hrange⟩ := hother
  exact ⟨h.hostOnly.of_ne hname hne, (hne _ (Ne.symm hlength)).trans h.contentLength,
    (hne _ (Ne.symm hencoding)).trans h.contentEncoding,
    (hne _ (Ne.symm hrange)).trans h.contentRange⟩

theorem Described.put {headers headers' : HeaderMap} {length : ℕ} {name : HeaderName}
    {value : Bytes} (h : Described headers length) (hput : put headers name value = some headers')
    (hname : name ∈ hostNames)
    (hother : name ∉ [HeaderName.contentLength, HeaderName.contentEncoding,
      HeaderName.contentRange]) : Described headers' length :=
  h.of_ne hname hother fun _ => getAll_put_ne hput

theorem described_of_representationHeaders {dates : HttpDate} {relative : Bytes} {length : ℕ}
    {modified : Option ℤ} {etag : Bytes} {cache : CachePolicy} {disposition : Disposition}
    {headers : HeaderMap}
    (h : representationHeaders dates relative length modified etag cache disposition =
      some headers) : Described headers length := by
  unfold representationHeaders at h
  obtain ⟨h1, hp1, h⟩ := Option.bind_eq_some_iff.mp h
  obtain ⟨h2, hp2, h⟩ := Option.bind_eq_some_iff.mp h
  obtain ⟨h3, hp3, h⟩ := Option.bind_eq_some_iff.mp h
  obtain ⟨h4, hp4, h⟩ := Option.bind_eq_some_iff.mp h
  obtain ⟨h5, hp5, h⟩ := Option.bind_eq_some_iff.mp h
  obtain ⟨h6, hp6, h⟩ := Option.bind_eq_some_iff.mp h
  have hthird : Described h3 length := by
    have hhost := ((HostOnly.empty.put (by decide) hp1).put (by decide) hp2).put (by decide) hp3
    refine ⟨hhost, getAll_put_length hp3, ?_, ?_⟩
    · rw [getAll_put_ne hp3 (by decide), getAll_put_ne hp2 (by decide),
        getAll_put_ne hp1 (by decide), Multimap.getAll_empty]
    · rw [getAll_put_ne hp3 (by decide), getAll_put_ne hp2 (by decide),
        getAll_put_ne hp1 (by decide), Multimap.getAll_empty]
  have hfifth := (hthird.put hp4 (by decide) (by decide)).put hp5 (by decide) (by decide)
  have hsixth : Described h6 length := by
    cases modified with
    | none => exact Option.some.inj hp6 ▸ hfifth
    | some modified =>
      obtain ⟨date, -, hp6⟩ := Option.bind_eq_some_iff.mp hp6
      exact hfifth.put hp6 (by decide) (by decide)
  exact hsixth.put h (by decide) (by decide)

/-- The representation that was chosen for a file. -/
structure Selected.Sound (requestHeaders : HeaderMap) (file : RegularFile) (s : Selected) : Prop where
  hostOnly : HostOnly s.headers
  contentRange : s.headers.getAll HeaderName.contentRange = []
  identity : s.contentCoding = none → Described s.headers file.length
  encoded : ∀ coding, s.contentCoding = some coding →
    s.headers.getAll HeaderName.contentLength = [] ∧
      s.headers.getAll HeaderName.acceptRanges = [] ∧
      s.headers.getAll HeaderName.contentEncoding = [coding.value] ∧
      ¬ requestHeaders.contains HeaderName.range ∧ 0 < file.length

theorem sound_of_selectRepresentation {dates : HttpDate} {root : FileRoot} {plan : FilePlan}
    {requestHeaders : HeaderMap} {segments : List Bytes} {file : RegularFile} {s : Selected}
    (h : selectRepresentation dates root plan requestHeaders segments file = some s) :
    s.Sound requestHeaders file := by
  unfold selectRepresentation at h
  obtain ⟨last, -, h⟩ := Option.bind_eq_some_iff.mp h
  obtain ⟨headers, hheaders, h⟩ := Option.bind_eq_some_iff.mp h
  have hdescribed := described_of_representationHeaders hheaders
  have hvary : Described (varyOnAcceptEncoding headers) file.length :=
    hdescribed.of_ne (show HeaderName.vary ∈ hostNames by decide) (by decide)
      fun _ => getAll_varyOnAcceptEncoding
  split at h
  · rename_i heligible
    split at h
    · cases h
      exact ⟨hvary.hostOnly, hvary.contentRange, fun _ => hvary, by rintro _ ⟨⟩⟩
    · rename_i coding _
      obtain ⟨tagged, htagged, h⟩ := Option.bind_eq_some_iff.mp h
      cases h
      have htag := hvary.put htagged (by decide) (by decide)
      have hhost := htag.hostOnly.remove (show HeaderName.acceptRanges ∈ hostNames by decide)
      obtain ⟨hrange, hcompressible⟩ := Bool.and_eq_true _ _ ▸ heligible
      obtain ⟨hbytes, -⟩ := of_responseIsCompressible hcompressible
      refine ⟨fun name hname => ?_, ?_, by rintro ⟨⟩, ?_⟩
      · rw [getAll_applyContentCoding_none] at hname
        split_ifs at hname with hlength hencoding
        · exact absurd rfl hname
        · rw [hencoding]
          decide
        · exact hhost.vary name hname
      · rw [getAll_applyContentCoding_none, if_neg (by decide), if_neg (by decide),
          getAll_varyOnAcceptEncoding (by decide), Multimap.getAll_remove_ne (by decide),
          htag.contentRange]
      · rintro _ ⟨⟩
        refine ⟨?_, ?_, ?_, by simpa using hrange, ?_⟩
        · rw [getAll_applyContentCoding_none, if_pos rfl]
        · rw [getAll_applyContentCoding_none, if_neg (by decide), if_neg (by decide),
            getAll_varyOnAcceptEncoding (by decide), Multimap.getAll_remove_self]
        · rw [getAll_applyContentCoding_none, if_neg (by decide), if_pos rfl]
        · exact Nat.lt_of_lt_of_le (by decide) hbytes
  · cases h
    exact ⟨hdescribed.hostOnly, hdescribed.contentRange, fun _ => hdescribed, by rintro _ ⟨⟩⟩

/-! ## The response -/

/-- How a prepared response and the bytes streamed after it fit together. -/
inductive Framed (method : Method) (file : RegularFile) : Prepared → Option Job → Prop
  | refused {status : StatusCode} {headers : HeaderMap} (hhost : HostOnly headers)
      (hstatus : status.code ∈ [404, 412, 416])
      (hlength : headers.getAll HeaderName.contentLength = [HeaderValue.ofNat 0]) :
      Framed method file ⟨status, headers, none⟩ none
  | notModified {headers : HeaderMap} (hhost : HostOnly headers)
      (hlength : headers.getAll HeaderName.contentLength = []) :
      Framed method file ⟨StatusCode.notModified, headers, none⟩ none
  | slice {status : StatusCode} {headers : HeaderMap} {start length : ℕ} (hhost : HostOnly headers)
      (hlength : headers.getAll HeaderName.contentLength = [HeaderValue.ofNat length])
      (hencoding : headers.getAll HeaderName.contentEncoding = [])
      (hslice : start + length ≤ file.length)
      (hstatus : status = StatusCode.ok ∧ start = 0 ∧ length = file.length ∧
          headers.getAll HeaderName.contentRange = [] ∨
        status = StatusCode.partialContent ∧ 0 < length ∧
          ∃ value : HeaderValue, headers.getAll HeaderName.contentRange = [value] ∧
            value.bytes = contentRange start (start + length - 1) file.length) {body : Option FileBody}
      {job : Option Job}
      (hbody : (body, job) = if method = .head ∨ length = 0 then (none, none)
        else (some ⟨some length⟩, some ⟨file, start, length, none⟩)) :
      Framed method file ⟨status, headers, body⟩ job
  | encoded {headers : HeaderMap} {coding : ContentCoding} (hhost : HostOnly headers)
      (hlength : headers.getAll HeaderName.contentLength = [])
      (hranges : headers.getAll HeaderName.acceptRanges = [])
      (hencoding : headers.getAll HeaderName.contentEncoding = [coding.value])
      {body : Option FileBody} {job : Option Job}
      (hbody : (body, job) = if method = .head then (none, none)
        else (some ⟨none⟩, some ⟨file, 0, file.length, some coding⟩)) :
      Framed method file ⟨StatusCode.ok, headers, body⟩ job

section Prepare

variable {dates : HttpDate} {method : Method} {requestHeaders : HeaderMap} {env : Surroundings}
  {file : RegularFile} {prepared : Prepared} {job : Option Job}

theorem framed_notFound : Framed method file notFound none :=
  .refused (HostOnly.empty.insert (by decide) _) (by decide) Multimap.getAll_insert_self

theorem preconditionStatus_eq {etag : Bytes} {modified : Option ℤ} {status : StatusCode}
    (h : preconditionStatus dates requestHeaders etag modified method = some status) :
    status = StatusCode.notModified ∨ status = StatusCode.preconditionFailed := by
  unfold preconditionStatus at h
  dsimp only at h
  split_ifs at h <;> cases h <;> simp

theorem framed_preconditionResponse {status : StatusCode} {headers : HeaderMap}
    (hstatus : status = StatusCode.notModified ∨ status = StatusCode.preconditionFailed)
    (hhost : HostOnly headers) :
    Framed method file (preconditionResponse status headers) none := by
  unfold preconditionResponse
  rcases hstatus with rfl | rfl
  · rw [if_pos rfl]
    refine .notModified (((hhost.remove (by decide)).remove (by decide)).remove (by decide)) ?_
    rw [Multimap.getAll_remove_ne (by decide), Multimap.getAll_remove_ne (by decide),
      Multimap.getAll_remove_self]
  · rw [if_neg (by decide)]
    exact .refused ((hhost.remove (by decide)).insert (by decide) _) (by decide)
      Multimap.getAll_insert_self

theorem framed_unsatisfiableResponse {headers : HeaderMap} {length : ℕ} (hhost : HostOnly headers)
    (h : unsatisfiableResponse headers length = some prepared) :
    Framed method file prepared none := by
  unfold unsatisfiableResponse at h
  obtain ⟨ranged, hranged, h⟩ := Option.bind_eq_some_iff.mp h
  cases h
  exact .refused ((hhost.put (by decide) hranged).insert (by decide) _) (by decide)
    Multimap.getAll_insert_self

theorem framed_selectedResponse {s : Selected} {status : StatusCode} {headers : HeaderMap}
    {start length : ℕ} (hcoding : s.contentCoding = none) (hhost : HostOnly headers)
    (hencoding : headers.getAll HeaderName.contentEncoding = [])
    (hslice : start + length ≤ file.length)
    (hstatus : status = StatusCode.ok ∧ start = 0 ∧ length = file.length ∧
        headers.getAll HeaderName.contentRange = [] ∨
      status = StatusCode.partialContent ∧ 0 < length ∧
        ∃ value : HeaderValue, headers.getAll HeaderName.contentRange = [value] ∧
          value.bytes = contentRange start (start + length - 1) file.length)
    (h : selectedResponse method env s file status headers start length = some (prepared, job)) :
    Framed method file prepared job := by
  unfold selectedResponse at h
  rw [hcoding] at h
  obtain ⟨measured, hmeasured, h⟩ := Option.bind_eq_some_iff.mp h
  have hhost' := hhost.put (by decide) hmeasured
  have hrange := getAll_put_ne hmeasured (show HeaderName.contentRange ≠ _ by decide)
  have hencoding' := (getAll_put_ne hmeasured (by decide)).trans hencoding
  rw [← hrange] at hstatus
  split at h
  · rename_i hempty
    cases h
    refine .slice hhost' (getAll_put_length hmeasured) hencoding' hslice hstatus ?_
    rw [if_pos (by simpa using hempty)]
  · rename_i hempty
    split at h
    · cases h
      exact framed_notFound
    · cases h
      refine .slice hhost' (getAll_put_length hmeasured) hencoding' hslice hstatus ?_
      rw [if_neg (by simpa using hempty)]
      rfl

theorem framed_selectedResponse_encoded {s : Selected} {coding : ContentCoding}
    (hs : s.Sound requestHeaders file) (hcoding : s.contentCoding = some coding)
    (h : selectedResponse method env s file StatusCode.ok s.headers 0 file.length =
      some (prepared, job)) : Framed method file prepared job := by
  obtain ⟨hlength, hranges, hencoding, -, hpos⟩ := hs.encoded coding hcoding
  unfold selectedResponse at h
  rw [hcoding] at h
  obtain ⟨headers, hheaders, h⟩ := Option.bind_eq_some_iff.mp h
  obtain rfl := Option.some.inj hheaders
  split at h
  · rename_i hempty
    cases h
    refine .encoded hs.hostOnly hlength hranges hencoding ?_
    have hhead : method = .head := by
      rw [Bool.or_eq_true, decide_eq_true_eq, decide_eq_true_eq] at hempty
      exact hempty.resolve_right (Nat.ne_of_gt hpos)
    rw [if_pos hhead]
  · rename_i hempty
    split at h
    · cases h
      exact framed_notFound
    · cases h
      refine .encoded hs.hostOnly hlength hranges hencoding ?_
      rw [Bool.or_eq_true, decide_eq_true_eq, decide_eq_true_eq, not_or] at hempty
      rw [if_neg hempty.1]
      rfl

theorem framed_of_prepareFile {s : Selected} (hs : s.Sound requestHeaders file)
    (h : prepareFile dates method requestHeaders env s file = some (prepared, job)) :
    Framed method file prepared job := by
  unfold prepareFile at h
  split at h
  · rename_i status hstatus
    cases h
    exact framed_preconditionResponse (preconditionStatus_eq hstatus) hs.hostOnly
  · -- with a coding there is no range field, so no range
    have hignore : ∀ coding, s.contentCoding = some coding →
        (if ifRangeAllows dates requestHeaders s.etag file.modified then
          parseRange requestHeaders file.length else .ignore) = .ignore := by
      intro coding hcoding
      rw [parseRange_of_not_contains (hs.encoded coding hcoding).2.2.2.1, ite_self]
    dsimp only at h
    split at h
    · cases hcoding : s.contentCoding with
      | none =>
        have hd := hs.identity hcoding
        exact framed_selectedResponse hcoding hs.hostOnly hd.contentEncoding
          (Nat.le_of_eq (Nat.zero_add _)) (.inl ⟨rfl, rfl, rfl, hs.contentRange⟩) h
      | some coding => exact framed_selectedResponse_encoded hs hcoding h
    · obtain ⟨p, hp, h⟩ := Option.bind_eq_some_iff.mp h
      cases h
      exact framed_unsatisfiableResponse hs.hostOnly hp
    · rename_i start stop hrange
      obtain ⟨ranged, hranged, h⟩ := Option.bind_eq_some_iff.mp h
      have hcoding : s.contentCoding = none := by
        cases hcoding : s.contentCoding with
        | none => rfl
        | some coding =>
          rw [hignore coding hcoding] at hrange
          cases hrange
      have hbounds : start ≤ stop ∧ stop < file.length := by
        split_ifs at hrange
        · exact parseRange_bounds hrange
      obtain ⟨value, hvalue, rfl⟩ := put_eq hranged
      have hstop : start + (stop - start + 1) - 1 = stop := by omega
      refine framed_selectedResponse hcoding (hs.hostOnly.insert (by decide) _) ?_ (by omega)
        (.inr ⟨rfl, by omega, value, Multimap.getAll_insert_self, ?_⟩) h
      · rw [Multimap.getAll_insert_ne (by decide), (hs.identity hcoding).contentEncoding]
      · rw [hvalue, hstop]

/-- The plan leads to this file. -/
def Serves (root : FileRoot) (plan : FilePlan) (file : RegularFile) : Prop :=
  ∃ segments, plan.segments = .ok segments ∧
    root.openRelativeFile segments = some (.regular file)

theorem framed_of_prepare {root : FileRoot} {plan : FilePlan}
    (h : prepare dates root plan method requestHeaders env = some (prepared, job)) :
    (prepared = notFound ∧ job = none) ∨
      ∃ file, Serves root plan file ∧ Framed method file prepared job := by
  unfold prepare at h
  split at h
  · cases h
    exact .inl ⟨rfl, rfl⟩
  · rename_i segments hsegments
    split at h
    · cases h
      exact .inl ⟨rfl, rfl⟩
    · cases h
      exact .inl ⟨rfl, rfl⟩
    · rename_i file hfile
      obtain ⟨s, hs, h⟩ := Option.bind_eq_some_iff.mp h
      exact .inr ⟨file, ⟨segments, hsegments, hfile⟩,
        framed_of_prepareFile (sound_of_selectRepresentation hs) h⟩

end Prepare

end BasicWebserver.FileServer
