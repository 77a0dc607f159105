import BasicWebserver.Compression.Negotiation
import BasicWebserver.Response.Lengths

/-!
# Application responses

`response_to_hyper` of `src/http_server.rs` checks the application's response and may encode its
body; `finalizeResponse` checks the result once more before it is sent. The two have different rules
for `HEAD`, for the statuses without content and for encoded bodies. `application_response_framed`
says that they agree: what the first accepts the second sends.
-/

namespace BasicWebserver.Response

open Ascii Http Compression Fallible

/-- The body in the preferred coding, if that makes it smaller; an encoder may fail. -/
def encodedBody (encodeBytes : ContentCoding → Buffer → Option Buffer)
    (accepted : AcceptedEncodings) (body : Buffer) : Option (ContentCoding × Buffer) := do
  let coding ← accepted.preferred
  let encoded ← encodeBytes coding body
  if encoded.length < body.length then some (coding, encoded) else none

def responseToHyper (encodeBytes : ContentCoding → Buffer → Option Buffer) (rawStatus : ℕ)
    (rawHeaders : List RawHeader) (body : Buffer) (accepted : AcceptedEncodings)
    (request : RequestSemantics) : Except ResponseError (Http.Response Buffer) := do
  let (status, headers) ← applicationParts rawStatus rawHeaders body.length request
  if body.length ≤ maxBufferedCompressionBytes &&
      responseIsCompressible status headers body.length then
    let headers := varyOnAcceptEncoding headers
    match encodedBody encodeBytes accepted body with
    | some (coding, encoded) =>
      .ok ⟨status, applyContentCoding headers coding (some encoded.length), encoded⟩
    | none => .ok ⟨status, headers, body⟩
  else .ok ⟨status, headers, body⟩

/-! ## What `applicationParts` accepts -/

section Parts

variable {rawStatus length : ℕ} {rawHeaders : List RawHeader} {request : RequestSemantics}
  {status : StatusCode} {headers : HeaderMap}

/-- The length that the host announces under a rule. -/
def announced (rule : LengthRule) (length : ℕ) : Option ℕ :=
  match rule with
  | .forbidden => none
  | .representation => some length

/-- The accepted status and fields, with the length of the body as the only host field. -/
structure Parts (rawStatus : ℕ) (rawHeaders : List RawHeader) (length : ℕ)
    (request : RequestSemantics) (status : StatusCode) (headers : HeaderMap)
    (rule : LengthRule) : Prop where
  code : status.code = rawStatus
  permitted : lengthRule status request = .ok rule
  noContent : rule = .forbidden ∨ status = StatusCode.resetContent → length = 0
  values : ∀ name ≠ HeaderName.contentLength, headers.getAll name = fieldValues rawHeaders name
  lengths : headers.getAll HeaderName.contentLength =
    (announced rule length).toList.map HeaderValue.ofNat
  supported : ∀ name, headers.getAll name ≠ [] → isUnsupported name = false
  members : ∀ member ∈ lengthMembers rawHeaders, IsLength member ∧ ofDecimal member = length

theorem isUnsupported_contentLength : isUnsupported HeaderName.contentLength = false := by decide

theorem parts_of_applicationParts
    (h : applicationParts rawStatus rawHeaders length request = .ok (status, headers)) :
    ∃ rule, Parts rawStatus rawHeaders length request status headers rule := by
  unfold applicationParts at h
  obtain ⟨status', hstatus, h⟩ := bind_eq_ok.mp h
  obtain ⟨rule, hrule, h⟩ := bind_eq_ok.mp h
  obtain ⟨hcontent, h⟩ := ite_error_eq_ok.mp h
  obtain ⟨parts, hfold, h⟩ := bind_eq_ok.mp h
  obtain ⟨supplied, hone, h⟩ := bind_eq_ok.mp h
  have hcollected := collected_of_foldlM hfold
  obtain ⟨-, hsupplied⟩ := oneContentLength_ok hone
  have hmembers : (∀ n ∈ supplied, n = length) →
      ∀ member ∈ lengthMembers rawHeaders, IsLength member ∧ ofDecimal member = length := by
    intro heq member hmember
    refine ⟨hcollected.isLength member hmember, heq _ (hsupplied _ ?_)⟩
    rw [hcollected.lengths]
    exact List.mem_map_of_mem hmember
  have hnoContent : rule = .forbidden ∨ status' = StatusCode.resetContent → length = 0 := by
    simpa using hcontent
  have hcode := StatusCode.code_of_fromU16 (elim_eq_ok.mp hstatus)
  have hhost : ∀ name, (setContentLength parts.1 length).getAll name ≠ [] →
      isUnsupported name = false := by
    intro name hname
    by_cases hlength : name = HeaderName.contentLength
    · rw [hlength, isUnsupported_contentLength]
    · rw [getAll_setContentLength_ne hlength] at hname
      exact hcollected.supported name hname
  have hset : (∀ n ∈ supplied, n = length) → rule = .representation →
      Parts rawStatus rawHeaders length request status' (setContentLength parts.1 length) rule := by
    rintro heq rfl
    exact ⟨hcode, hrule, hnoContent, fun name hname =>
      (getAll_setContentLength_ne hname).trans (hcollected.values name hname),
      getAll_setContentLength_self, hhost, hmembers heq⟩
  cases rule with
  | forbidden =>
    cases supplied with
    | some n => cases h
    | none =>
      cases h
      exact ⟨_, hcode, hrule, hnoContent, hcollected.values, hcollected.noLength,
        hcollected.supported, hmembers nofun⟩
  | representation =>
    cases supplied with
    | none =>
      cases h
      exact ⟨_, hset nofun rfl⟩
    | some n =>
      obtain ⟨heq, h⟩ := ite_error_eq_ok.mp h
      cases h
      exact ⟨_, hset (fun m hm => (Option.some.inj hm).symm.trans (not_not.mp heq)) rfl⟩

end Parts

/-! ## What is sent -/

section Sent

variable {encodeBytes : ContentCoding → Buffer → Option Buffer} {rawStatus : ℕ}
  {rawHeaders : List RawHeader} {body : Buffer} {accepted : AcceptedEncodings}
  {request : RequestSemantics} {r : Http.Response Buffer}

/-- The representation that a response carries: the application's body, or the host's encoding of it,
which the response then names. -/
def IsRepresentation (encodeBytes : ContentCoding → Buffer → Option Buffer) (body : Buffer)
    (headers : HeaderMap) (representation : Buffer) : Prop :=
  representation = body ∨
    ∃ coding, encodeBytes coding body = some representation ∧
      headers.getAll HeaderName.contentEncoding = [coding.value]

/-- What is kept from the application's parts until the response is sent. -/
structure Accepted (encodeBytes : ContentCoding → Buffer → Option Buffer) (rawStatus : ℕ)
    (rawHeaders : List RawHeader) (body : Buffer) (request : RequestSemantics)
    (r : Http.Response Buffer) (rule : LengthRule) : Prop where
  code : r.status.code = rawStatus
  supplies : Supplies request r rule (announced rule r.body.length)
  noContent : rule = .forbidden ∨ r.status = StatusCode.resetContent → r.body.length = 0
  representation : IsRepresentation encodeBytes body r.headers r.body
  values : ∀ name ≠ HeaderName.contentLength, fieldValues rawHeaders name <+: r.headers.getAll name

theorem Parts.toAccepted {status : StatusCode} {headers headers' : HeaderMap} {rule : LengthRule}
    {representation : Buffer}
    (h : Parts rawStatus rawHeaders body.length request status headers rule)
    (hrepresentation : IsRepresentation encodeBytes body headers' representation)
    (hlengths : headers'.getAll HeaderName.contentLength =
      (announced rule representation.length).toList.map HeaderValue.ofNat)
    (hcontent : rule = .forbidden ∨ status = StatusCode.resetContent → representation.length = 0)
    (hvalues : ∀ name ≠ HeaderName.contentLength, headers.getAll name <+: headers'.getAll name)
    (hadded : ∀ name, headers'.getAll name ≠ [] → headers.getAll name ≠ [] ∨
      name ∈ [HeaderName.vary, HeaderName.contentEncoding, HeaderName.contentLength]) :
    Accepted encodeBytes rawStatus rawHeaders body request ⟨status, headers', representation⟩
      rule where
  code := h.code
  supplies := {
    permitted := h.permitted
    supported := by
      intro name hname
      rcases hadded name hname with hold | hhost
      · exact h.supported name hold
      · have hall : ∀ host ∈ [HeaderName.vary, HeaderName.contentEncoding,
            HeaderName.contentLength], isUnsupported host = false := by decide
        exact hall name hhost
    lengths := hlengths
    bound := by
      intro n hn
      cases rule with
      | forbidden => cases hn
      | representation =>
        cases hn
        exact representation.bound }
  noContent := hcontent
  representation := hrepresentation
  values := fun name hname => h.values name hname ▸ hvalues name hname

theorem encodedBody_some {coding : ContentCoding} {encoded : Buffer}
    (h : encodedBody encodeBytes accepted body = some (coding, encoded)) :
    encodeBytes coding body = some encoded := by
  unfold encodedBody at h
  obtain ⟨coding', -, h⟩ := Option.bind_eq_some_iff.mp h
  obtain ⟨encoded', hencoded, h⟩ := Option.bind_eq_some_iff.mp h
  split_ifs at h
  cases h
  exact hencoded

theorem getAll_applyContentCoding_ne {headers : HeaderMap} {coding : ContentCoding} {length : ℕ}
    {name : HeaderName} (hencoding : name ≠ HeaderName.contentEncoding)
    (hlength : name ≠ HeaderName.contentLength) :
    (applyContentCoding headers coding (some length)).getAll name =
      (varyOnAcceptEncoding headers).getAll name :=
  (Multimap.getAll_insert_ne hlength).trans (Multimap.getAll_insert_ne hencoding)

theorem Parts.toAccepted_encoded {status : StatusCode} {headers : HeaderMap} {rule : LengthRule}
    {coding : ContentCoding} {encoded : Buffer}
    (h : Parts rawStatus rawHeaders body.length request status headers rule)
    (hcompressible : responseIsCompressible status headers body.length)
    (hencoded : encodeBytes coding body = some encoded) :
    Accepted encodeBytes rawStatus rawHeaders body request
      ⟨status, applyContentCoding (varyOnAcceptEncoding headers) coding (some encoded.length),
        encoded⟩ rule := by
  obtain ⟨-, h204, h205, h304, hunnamed⟩ := of_responseIsCompressible hcompressible
  obtain rfl : rule = .representation :=
    (lengthRule_ok h.permitted).trans (if_neg (not_or.mpr ⟨h204, h304⟩))
  refine h.toAccepted (.inr ⟨coding, hencoded, ?_⟩) Multimap.getAll_insert_self ?_ ?_ ?_
  · exact (Multimap.getAll_insert_ne (by decide)).trans Multimap.getAll_insert_self
  · rintro (hrule | hstatus)
    · cases hrule
    · exact absurd hstatus h205
  · intro name hlength
    by_cases hencoding : name = HeaderName.contentEncoding
    · rw [hencoding, hunnamed]
      exact List.nil_prefix
    · rw [getAll_applyContentCoding_ne hencoding hlength]
      exact prefix_getAll_varyOnAcceptEncoding.trans prefix_getAll_varyOnAcceptEncoding
  · intro name hname
    by_cases hhost : name ∈ [HeaderName.vary, HeaderName.contentEncoding, HeaderName.contentLength]
    · exact .inr hhost
    · simp only [List.mem_cons, List.not_mem_nil, or_false, not_or] at hhost
      obtain ⟨hvary, hencoding, hlength⟩ := hhost
      rw [getAll_applyContentCoding_ne hencoding hlength, getAll_varyOnAcceptEncoding hvary,
        getAll_varyOnAcceptEncoding hvary] at hname
      exact .inl hname

theorem accepted_of_responseToHyper
    (h : responseToHyper encodeBytes rawStatus rawHeaders body accepted request = .ok r) :
    (∃ rule, Accepted encodeBytes rawStatus rawHeaders body request r rule) ∧
      ∀ member ∈ lengthMembers rawHeaders, IsLength member ∧ ofDecimal member = body.length := by
  unfold responseToHyper at h
  obtain ⟨⟨status, headers⟩, hparts, h⟩ := bind_eq_ok.mp h
  obtain ⟨rule, hp⟩ := parts_of_applicationParts hparts
  refine ⟨⟨rule, ?_⟩, hp.members⟩
  dsimp only at h
  have hvary : ∀ name, (varyOnAcceptEncoding headers).getAll name ≠ [] →
      headers.getAll name ≠ [] ∨
        name ∈ [HeaderName.vary, HeaderName.contentEncoding, HeaderName.contentLength] := by
    intro name hname
    by_cases heq : name = HeaderName.vary
    · exact .inr (heq ▸ List.mem_cons_self)
    · exact .inl (getAll_varyOnAcceptEncoding heq ▸ hname)
  have hlengths : (varyOnAcceptEncoding headers).getAll HeaderName.contentLength =
      (announced rule body.length).toList.map HeaderValue.ofNat :=
    (getAll_varyOnAcceptEncoding (by decide)).trans hp.lengths
  split_ifs at h with hcompress
  · split at h
    · rename_i coding encoded hencoded
      cases h
      exact hp.toAccepted_encoded (Bool.and_eq_true _ _ ▸ hcompress).2 (encodedBody_some hencoded)
    · cases h
      exact hp.toAccepted (.inl rfl) hlengths hp.noContent
        (fun _ _ => prefix_getAll_varyOnAcceptEncoding) hvary
  · cases h
    exact hp.toAccepted (.inl rfl) hp.lengths hp.noContent (fun _ _ => List.prefix_rfl)
      fun _ => .inl

structure Sent (encodeBytes : ContentCoding → Buffer → Option Buffer) (rawStatus : ℕ)
    (rawHeaders : List RawHeader) (body : Buffer) (request : RequestSemantics)
    (f : Http.Response Buffer) (representation : Buffer) : Prop where
  code : f.status.code = rawStatus
  carried : IsRepresentation encodeBytes body f.headers representation
  supported : ∀ name ∈ f.headers.keys,
    isConnectionSpecific name = false ∧ name.bytes ≠ unsupportedTrailerField
  length : f.headers.getAll HeaderName.contentLength =
    if rawStatus = 204 ∨ rawStatus = 304 then [] else [HeaderValue.ofNat representation.length]
  body : f.body.bytes = if request.method = .head then [] else representation.bytes
  values : ∀ name ≠ HeaderName.contentLength, fieldValues rawHeaders name <+: f.headers.getAll name

theorem Accepted.finalizeResponse_eq {rule : LengthRule}
    (h : Accepted encodeBytes rawStatus rawHeaders body request r rule) :
    finalizeResponse r request = .ok
      { r with
        headers := announce r.headers (announced rule r.body.length)
        body := if rule = .representation ∧ request.method = .head then Body.empty else r.body } := by
  have hsize : Body.sizeHint r.body = some r.body.length := rfl
  rw [h.supplies.finalizeResponse_eq fun hreset => by rw [hsize, h.noContent (.inr hreset)]]
  cases rule with
  | forbidden =>
    dsimp only
    rw [if_neg (by nofun), if_neg (by rw [hsize, h.noContent (.inl rfl)]; exact not_not.mpr rfl),
      if_neg (by rintro ⟨hrule, -⟩; cases hrule)]
    rfl
  | representation =>
    have hannounced : announced .representation r.body.length = some r.body.length := rfl
    dsimp only
    rw [hannounced, hsize, headLength_self, framedLength_self]
    by_cases hhead : request.method = .head
    · rw [if_pos hhead, if_pos ⟨rfl, hhead⟩]
      rfl
    · rw [if_neg hhead, if_neg fun hrule => hhead hrule.2]
      rfl

theorem Accepted.sent {rule : LengthRule}
    (h : Accepted encodeBytes rawStatus rawHeaders body request r rule) :
    ∃ f, finalizeResponse r request = .ok f ∧
      Sent encodeBytes rawStatus rawHeaders body request f r.body := by
  refine ⟨_, h.finalizeResponse_eq, ?_⟩
  have hfields := getAll_announce_of_eq h.supplies.lengths
  have hcode : r.status = StatusCode.noContent ∨ r.status = StatusCode.notModified ↔
      r.status.code = 204 ∨ r.status.code = 304 :=
    or_congr ⟨congrArg _, fun h => StatusCode.eq_of_code h⟩
      ⟨congrArg _, fun h => StatusCode.eq_of_code h⟩
  have hforbidden := lengthRule_ok h.supplies.permitted
  rw [if_congr hcode rfl rfl] at hforbidden
  refine ⟨h.code, ?_, fun name hname => ?_, ?_, ?_, fun name hname => ?_⟩
  · refine h.representation.imp_right ?_
    rintro ⟨coding, hencoded, hnamed⟩
    exact ⟨coding, hencoded, (hfields _).trans hnamed⟩
  · have hsupported := h.supplies.supported name (hfields name ▸ Multimap.mem_keys.mp hname)
    simpa [isUnsupported] using hsupported
  · show (announce _ _).getAll _ = _
    rw [getAll_announce_self, hforbidden, ← h.code]
    split_ifs <;> rfl
  · dsimp only
    by_cases hhead : request.method = .head
    · rw [if_pos hhead]
      split_ifs with hrule
      · rfl
      · have hrule' : rule = .forbidden := by
          cases rule with
          | forbidden => rfl
          | representation => exact absurd ⟨rfl, hhead⟩ hrule
        exact List.eq_nil_of_length_eq_zero (h.noContent (.inl hrule'))
    · rw [if_neg hhead, if_neg fun hrule => hhead hrule.2]
  · show _ <+: (announce _ _).getAll name
    rw [hfields]
    exact h.values name hname

end Sent

/-- **Application responses are framed.** A response that `responseToHyper` accepts is sent, with the
application's status and fields, one `Content-Length` that is the length of the representation it
carries (none for 204 and 304), and that representation as its body, which `HEAD` drops. A list of
fields whose lengths are malformed, disagree or differ from the body is refused. -/
theorem application_response_framed (encodeBytes : ContentCoding → Buffer → Option Buffer)
    (rawStatus : ℕ) (rawHeaders : List RawHeader) (body : Buffer) (accepted : AcceptedEncodings)
    (request : RequestSemantics) :
    (∀ r, responseToHyper encodeBytes rawStatus rawHeaders body accepted request = .ok r →
      ∃ f, finalizeResponse r request = .ok f ∧
        Sent encodeBytes rawStatus rawHeaders body request f r.body) ∧
    ((∃ member ∈ lengthMembers rawHeaders, ¬ IsLength member) ∨
      (∃ member ∈ lengthMembers rawHeaders, ∃ member' ∈ lengthMembers rawHeaders,
        ofDecimal member ≠ ofDecimal member') ∨
      (∃ member ∈ lengthMembers rawHeaders, ofDecimal member ≠ body.length) →
      ∃ e, responseToHyper encodeBytes rawStatus rawHeaders body accepted request = .error e) := by
  refine ⟨fun r hr => ?_, fun hbad => ?_⟩
  · obtain ⟨⟨rule, haccepted⟩, -⟩ := accepted_of_responseToHyper hr
    exact haccepted.sent
  · cases hr : responseToHyper encodeBytes rawStatus rawHeaders body accepted request with
    | error e => exact ⟨e, rfl⟩
    | ok r =>
      obtain ⟨-, hmembers⟩ := accepted_of_responseToHyper hr
      rcases hbad with ⟨m, hm, hbad⟩ | ⟨m, hm, m', hm', hbad⟩ | ⟨m, hm, hbad⟩
      · exact absurd (hmembers m hm).1 hbad
      · exact absurd ((hmembers m hm).2.trans (hmembers m' hm').2.symm) hbad
      · exact absurd (hmembers m hm).2 hbad

/-- A request to read the page that the next theorem is about. -/
def pageRequest : RequestSemantics := ⟨.get, .http11⟩

def pageHeaders (length : String) : List RawHeader :=
  [⟨ascii "Content-Type", ascii "text/plain"⟩, ⟨ascii "Content-Length", ascii length⟩]

def pageBody : Buffer := ⟨ascii "hi", by decide⟩

def anyEncoding : AcceptedEncodings := ⟨true, 1000, 1000, 1000, 1000, false⟩

theorem application_response_framed_page :
    (∃ r, responseToHyper (fun _ _ => none) 200 (pageHeaders "2") pageBody anyEncoding pageRequest =
      .ok r ∧ ∃ f, finalizeResponse r pageRequest = .ok f ∧
        Sent (fun _ _ => none) 200 (pageHeaders "2") pageBody pageRequest f r.body) ∧
    ∃ e, responseToHyper (fun _ _ => none) 200 (pageHeaders "3") pageBody anyEncoding pageRequest =
      .error e :=
  ⟨⟨_, rfl, (application_response_framed (fun _ _ => none) 200 (pageHeaders "2") pageBody anyEncoding
      pageRequest).1 _ rfl⟩,
    (application_response_framed (fun _ _ => none) 200 (pageHeaders "3") pageBody anyEncoding
      pageRequest).2 (.inr (.inr ⟨ascii "3", by decide, by decide⟩))⟩

end BasicWebserver.Response
