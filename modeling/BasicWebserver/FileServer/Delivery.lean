import BasicWebserver.FileServer.Framing

/-!
# Delivery of file responses

What `prepareAndStream` prepares passes `finalizeResponse` unchanged, and the body that follows has
the bytes that the header fields announce.
-/

namespace BasicWebserver.FileServer

open Ascii Http Compression Response

/-! ## The last check -/

section Finalize

variable {method : Method} {version : Version} {file : RegularFile} {prepared : Prepared}
  {job : Option Job}

theorem lengthRule_of_reads (hmethod : method = .get ∨ method = .head) {status : StatusCode}
    (hstatus : status.isInformational = false) :
    lengthRule status ⟨method, version⟩ =
      .ok (if status = StatusCode.noContent ∨ status = StatusCode.notModified then .forbidden
        else .representation) := by
  have hconnect : method ≠ .connect := by
    rcases hmethod with rfl | rfl <;> nofun
  unfold lengthRule
  simp [hstatus, hconnect]
  split_ifs <;> rfl

theorem isUnsupported_of_hostOnly {headers : HeaderMap} (h : HostOnly headers) (name : HeaderName)
    (hname : headers.getAll name ≠ []) : isUnsupported name = false := by
  have hall : ∀ name ∈ hostNames, isUnsupported name = false := by decide
  exact hall name (h name hname)

theorem finalizeResponse_prepared (hmethod : method = .get ∨ method = .head)
    {status : StatusCode} {headers : HeaderMap} {body : Option FileBody} (supplied : Option ℕ)
    (hhost : HostOnly headers) (hstatus : status.code ∈ [200, 206, 404, 412, 416])
    (hlengths : headers.getAll HeaderName.contentLength = supplied.toList.map HeaderValue.ofNat)
    (hbound : ∀ length ∈ supplied, length < 2 ^ 64)
    (hbody : body = none ∧ (method = .head ∨ supplied = some 0) ∨
      method = .get ∧ body = some ⟨supplied⟩) :
    ∃ f, finalizeResponse (Prepared.intoResponse ⟨status, headers, body⟩) ⟨method, version⟩ =
        .ok f ∧ f.status = status ∧ f.body = body ∧
      ∀ name, f.headers.getAll name = headers.getAll name := by
  simp only [List.mem_cons, List.not_mem_nil, or_false] at hstatus
  have hne : ∀ other : StatusCode, other.code ∈ [204, 205, 304] → status ≠ other := by
    rintro other hother rfl
    simp only [List.mem_cons, List.not_mem_nil, or_false] at hother
    omega
  have hfinal : status.isInformational = false := by
    simp only [StatusCode.isInformational, Bool.and_eq_false_iff, decide_eq_false_iff_not]
    omega
  have hsupplies : Supplies ⟨method, version⟩ (Prepared.intoResponse ⟨status, headers, body⟩)
      .representation supplied := by
    refine ⟨?_, isUnsupported_of_hostOnly hhost, hlengths, hbound⟩
    refine (lengthRule_of_reads hmethod hfinal).trans ?_
    rw [if_neg (not_or.mpr ⟨hne StatusCode.noContent (by decide),
      hne StatusCode.notModified (by decide)⟩)]
  rw [hsupplies.finalizeResponse_eq fun hreset => absurd hreset (hne _ (by decide))]
  dsimp only [Prepared.intoResponse] at hsupplies ⊢
  have hfields := getAll_announce_of_eq hlengths
  rcases hbody with ⟨rfl, hempty⟩ | ⟨rfl, rfl⟩
  · have hsize : Body.sizeHint (none : Option FileBody) = some 0 := rfl
    by_cases hhead : method = .head
    · rw [if_pos hhead, hsize, headLength_zero]
      exact ⟨_, rfl, rfl, rfl, hfields⟩
    · obtain rfl := hempty.resolve_left hhead
      rw [if_neg hhead, hsize, framedLength_self]
      exact ⟨_, rfl, rfl, rfl, hfields⟩
  · have hsize : Body.sizeHint (some (FileBody.mk supplied)) = supplied := rfl
    rw [if_neg (by nofun), hsize, framedLength_self]
    exact ⟨_, rfl, rfl, rfl, hfields⟩

theorem finalizeResponse_notModified (hmethod : method = .get ∨ method = .head)
    {headers : HeaderMap} (hhost : HostOnly headers)
    (hlength : headers.getAll HeaderName.contentLength = []) :
    ∃ f, finalizeResponse (Prepared.intoResponse ⟨StatusCode.notModified, headers, none⟩)
        ⟨method, version⟩ = .ok f ∧ f.status = StatusCode.notModified ∧ f.body = none ∧
      ∀ name, f.headers.getAll name = headers.getAll name := by
  have hsupplies : Supplies ⟨method, version⟩
      (Prepared.intoResponse ⟨StatusCode.notModified, headers, none⟩) .forbidden none := by
    refine ⟨?_, isUnsupported_of_hostOnly hhost, hlength, nofun⟩
    exact (lengthRule_of_reads hmethod (by decide : StatusCode.notModified.isInformational = false))
  have hfields : ∀ name, (announce headers none).getAll name = headers.getAll name :=
    getAll_announce_of_eq hlength
  rw [hsupplies.finalizeResponse_eq fun _ => rfl]
  exact ⟨_, rfl, rfl, rfl, hfields⟩

theorem Framed.finalizeResponse_eq (h : Framed method file prepared job)
    (hmethod : method = .get ∨ method = .head) (version : Version) :
    ∃ f, finalizeResponse prepared.intoResponse ⟨method, version⟩ = .ok f ∧
      f.status = prepared.status ∧ f.body = prepared.body ∧
      ∀ name, f.headers.getAll name = prepared.headers.getAll name := by
  cases h with
  | refused hhost hstatus hlength =>
    refine finalizeResponse_prepared hmethod (some 0) hhost ?_ hlength ?_ (.inl ⟨rfl, .inr rfl⟩)
    · exact List.mem_cons_of_mem _ (List.mem_cons_of_mem _ hstatus)
    · rintro _ ⟨⟩
      decide
  | notModified hhost hlength => exact finalizeResponse_notModified hmethod hhost hlength
  | @slice status headers start length hhost hlength hencoding hslice hstatus body job hbody =>
    refine finalizeResponse_prepared hmethod (some length) hhost ?_ hlength ?_ ?_
    · rcases hstatus with ⟨rfl, -⟩ | ⟨rfl, -⟩ <;> decide
    · rintro _ ⟨⟩
      exact Nat.lt_of_le_of_lt (Nat.le_trans (Nat.le_add_left _ _) hslice) file.bound
    · split_ifs at hbody with hempty
      · obtain ⟨rfl, -⟩ := Prod.mk.inj hbody
        exact .inl ⟨rfl, hempty.imp_right fun hzero => by rw [hzero]⟩
      · obtain ⟨rfl, -⟩ := Prod.mk.inj hbody
        exact .inr ⟨hmethod.resolve_right fun hhead => hempty (.inl hhead), rfl⟩
  | @encoded headers coding hhost hlength _ _ body job hbody =>
    refine finalizeResponse_prepared hmethod none hhost ?_ hlength nofun ?_
    · show 200 ∈ _
      decide
    split_ifs at hbody with hhead
    · obtain ⟨rfl, -⟩ := Prod.mk.inj hbody
      exact .inl ⟨rfl, .inl hhead⟩
    · obtain ⟨rfl, -⟩ := Prod.mk.inj hbody
      exact .inr ⟨hmethod.resolve_right hhead, rfl⟩

end Finalize

/-! ## What is delivered -/

/-- The bytes of a file from `start` to `stop`. -/
def slice (file : RegularFile) (start stop : ℕ) : Bytes :=
  (file.content.drop start).take (stop - start + 1)

/-- The streamed bytes are those of the slice; fewer only if an error ends the body. -/
def Gives (bytes : List Bytes) (ok : Bool) (whole : Bytes) : Prop :=
  bytes.flatten <+: whole ∧ (ok → bytes.flatten = whole)

/-- The header fields and the body of a response that carries the bytes from `start` to `stop`. -/
structure Carries (method : Method) (f : Http.Response (Option FileBody)) (streamed : Streamed)
    (file : RegularFile) (start stop : ℕ) : Prop where
  ordered : start ≤ stop
  within : stop < file.length
  contentLength : f.headers.getAll HeaderName.contentLength =
    [HeaderValue.ofNat (stop - start + 1)]
  partially : f.status.code = 206 → ∃ value : HeaderValue,
    f.headers.getAll HeaderName.contentRange = [value] ∧
      value.bytes = contentRange start stop file.length
  whole : f.status.code = 200 → start = 0 ∧ stop + 1 = file.length ∧
    f.headers.getAll HeaderName.contentRange = []
  body : method = .get → f.body = some ⟨some (stop - start + 1)⟩ ∧
    Gives streamed.chunks streamed.ok (slice file start stop)
  /-- The body reports its end when the last byte was given out, not before. -/
  ends : method = .get → ∀ given, given <+: streamed.chunks →
    ((given.foldl FileBody.pollFrame ⟨some (stop - start + 1)⟩).isEndStream ↔
      given.flatten = slice file start stop)

/-- A file response as it is sent, with the chunks of its body. -/
structure Delivers (root : FileRoot) (plan : FilePlan) (method : Method) (chunkBytes : ChunkBytes)
    (f : Http.Response (Option FileBody)) (streamed : Streamed) : Prop where
  chunks : ∀ chunk ∈ streamed.chunks, IsChunk chunkBytes chunk
  status : f.status.code ∈ [200, 206, 304, 404, 412, 416]
  refused : f.status.code ∈ [304, 404, 412, 416] → f.body = none ∧ streamed.chunks = []
  uncoded : f.status.code = 206 → f.headers.getAll HeaderName.contentEncoding = []
  carries : f.status.code ∈ [200, 206] → f.headers.getAll HeaderName.contentEncoding = [] →
    ∃ file, Serves root plan file ∧
      ((∃ start stop, Carries method f streamed file start stop) ∨
        (f.status.code = 200 ∧ file.length = 0 ∧ streamed.chunks = [] ∧ f.body = none ∧
          f.headers.getAll HeaderName.contentLength = [HeaderValue.ofNat 0]))
  encoded : f.status.code = 200 → f.headers.getAll HeaderName.contentEncoding ≠ [] →
    f.headers.getAll HeaderName.contentLength = [] ∧
      f.headers.getAll HeaderName.acceptRanges = [] ∧
      ∃ file, Serves root plan file ∧
        (method = .get → Gives streamed.input streamed.ok file.content)

section Deliver

variable {root : FileRoot} {plan : FilePlan} {method : Method} {chunkBytes : ChunkBytes}
  {file : RegularFile} {prepared : Prepared} {job : Option Job}
  {f : Http.Response (Option FileBody)} {env : Surroundings}

theorem delivers_refused (hstatus : f.status.code ∈ [304, 404, 412, 416]) (hbody : f.body = none) :
    Delivers root plan method chunkBytes f ⟨[], [], true⟩ := by
  have hne : f.status.code ≠ 200 ∧ f.status.code ≠ 206 := by
    simp only [List.mem_cons, List.not_mem_nil, or_false] at hstatus
    omega
  refine ⟨nofun, ?_, fun _ => ⟨hbody, rfl⟩, fun h => absurd h hne.2, fun h => ?_,
    fun h => absurd h hne.1⟩
  · simp only [List.mem_cons, List.not_mem_nil, or_false] at hstatus ⊢
    omega
  · simp only [List.mem_cons, List.not_mem_nil, or_false] at h
    omega

theorem stream_identity {start length : ℕ} (h : start + length ≤ file.length) :
    (∀ chunk ∈ (stream env chunkBytes (some ⟨file, start, length, none⟩)).chunks,
        IsChunk chunkBytes chunk) ∧
      Gives (stream env chunkBytes (some ⟨file, start, length, none⟩)).chunks
        (stream env chunkBytes (some ⟨file, start, length, none⟩)).ok
        ((file.content.drop start).take length) := by
  unfold stream
  dsimp only
  split_ifs
  · exact streamFile_identity env file.content start length chunkBytes h
  · exact ⟨nofun, List.nil_prefix, nofun⟩

theorem stream_encoded {coding : ContentCoding} :
    (∀ chunk ∈ (stream env chunkBytes (some ⟨file, 0, file.length, some coding⟩)).chunks,
        IsChunk chunkBytes chunk) ∧
      Gives (stream env chunkBytes (some ⟨file, 0, file.length, some coding⟩)).input
        (stream env chunkBytes (some ⟨file, 0, file.length, some coding⟩)).ok file.content := by
  have hwhole : (file.content.drop 0).take file.length = file.content := List.take_length
  unfold stream
  dsimp only
  split_ifs
  · have h := streamFile_encoded env file.content 0 file.length chunkBytes coding
      (Nat.le_of_eq (Nat.zero_add _))
    rw [hwhole] at h
    exact h
  · exact ⟨nofun, List.nil_prefix, nofun⟩

theorem isEndStream_iff {chunks given : List Bytes} {ok : Bool} {whole : Bytes}
    (h : Gives chunks ok whole) (hgiven : given <+: chunks) :
    (given.foldl FileBody.pollFrame ⟨some whole.length⟩).isEndStream ↔ given.flatten = whole := by
  have hprefix : given.flatten <+: whole := by
    obtain ⟨rest, rfl⟩ := hgiven
    have hall := h.1
    rw [List.flatten_append] at hall
    exact (List.prefix_append _ _).trans hall
  rw [FileBody.isEndStream, FileBody.remaining_foldl, decide_eq_true_eq, Option.some.injEq,
    Nat.sub_eq_zero_iff_le]
  exact ⟨fun hle => hprefix.eq_of_length (Nat.le_antisymm hprefix.length_le hle),
    fun heq => Nat.le_of_eq (congrArg List.length heq.symm)⟩

theorem delivers_slice {streamed : Streamed} {start length : ℕ} (hserves : Serves root plan file)
    (hchunks : ∀ chunk ∈ streamed.chunks, IsChunk chunkBytes chunk)
    (hslice : start + length ≤ file.length)
    (hlength : f.headers.getAll HeaderName.contentLength = [HeaderValue.ofNat length])
    (hencoding : f.headers.getAll HeaderName.contentEncoding = [])
    (hstatus : f.status = StatusCode.ok ∧ start = 0 ∧ length = file.length ∧
        f.headers.getAll HeaderName.contentRange = [] ∨
      f.status = StatusCode.partialContent ∧ 0 < length ∧
        ∃ value : HeaderValue, f.headers.getAll HeaderName.contentRange = [value] ∧
          value.bytes = contentRange start (start + length - 1) file.length)
    (hempty : length = 0 → streamed.chunks = [] ∧ f.body = none)
    (hbody : method = .get → 0 < length → f.body = some ⟨some length⟩ ∧
      Gives streamed.chunks streamed.ok ((file.content.drop start).take length)) :
    Delivers root plan method chunkBytes f streamed := by
  have hcode : f.status.code = 200 ∨ f.status.code = 206 :=
    hstatus.imp (fun h => by rw [h.1]; rfl) fun h => by rw [h.1]; rfl
  refine ⟨hchunks, ?_, fun h => ?_, fun _ => hencoding, fun _ _ => ⟨file, hserves, ?_⟩,
    fun _ hne => absurd hencoding hne⟩
  · simp only [List.mem_cons, List.not_mem_nil, or_false]
    omega
  · simp only [List.mem_cons, List.not_mem_nil, or_false] at h
    omega
  rcases Nat.eq_zero_or_pos length with rfl | hpos
  · -- only the whole of an empty file has no bytes
    obtain ⟨hok, -, hfile, -⟩ := hstatus.resolve_right fun h => absurd h.2.1 (Nat.lt_irrefl 0)
    obtain ⟨hchunks, hbody⟩ := hempty rfl
    exact .inr ⟨by rw [hok]; rfl, hfile.symm, hchunks, hbody, hlength⟩
  · have hstop : start + length - 1 - start + 1 = length := by omega
    refine .inl ⟨start, start + length - 1, by omega, by omega, by rw [hstop, hlength], ?_, ?_,
      fun hget => ?_, fun hget given hgiven => ?_⟩
    · intro h206
      rcases hstatus with ⟨hok, -⟩ | ⟨-, -, hrange⟩
      · rw [hok] at h206
        cases h206
      · exact hrange
    · intro h200
      rcases hstatus with ⟨-, hstart, hfile, hrange⟩ | ⟨hranged, -⟩
      · exact ⟨hstart, by omega, hrange⟩
      · rw [hranged] at h200
        cases h200
    · unfold slice
      rw [hstop]
      exact hbody hget hpos
    · have hwhole : ((file.content.drop start).take length).length = length := by
        have : file.length = file.content.length := rfl
        rw [List.length_take, List.length_drop]
        omega
      have hends := isEndStream_iff (hbody hget hpos).2 hgiven
      rw [hwhole] at hends
      unfold slice
      rwa [hstop]

theorem Framed.delivers (h : Framed method file prepared job) (hserves : Serves root plan file)
    (hstatus : f.status = prepared.status) (hbody : f.body = prepared.body)
    (hfields : ∀ name, f.headers.getAll name = prepared.headers.getAll name) :
    Delivers root plan method chunkBytes f (stream env chunkBytes job) := by
  cases h with
  | refused hhost hcode hlength =>
    exact delivers_refused (hstatus ▸ List.mem_cons_of_mem _ hcode) hbody
  | notModified hhost hlength =>
    refine delivers_refused ?_ hbody
    rw [hstatus]
    exact List.mem_cons_self
  | @slice status headers start length hhost hlength hencoding hslice hcode body job hjob =>
    dsimp only at hstatus hbody hfields
    rw [← hstatus, ← hfields] at hcode
    rw [← hfields] at hlength hencoding
    split_ifs at hjob with hempty
    · obtain ⟨rfl, rfl⟩ := Prod.mk.inj hjob
      refine delivers_slice hserves nofun hslice hlength hencoding hcode (fun _ => ⟨rfl, hbody⟩) ?_
      rintro rfl hpos
      rcases hempty with hhead | hzero
      · cases hhead
      · omega
    · obtain ⟨rfl, rfl⟩ := Prod.mk.inj hjob
      obtain ⟨hchunks, hgives⟩ := stream_identity hslice
      exact delivers_slice hserves hchunks hslice hlength hencoding hcode
        (fun hzero => absurd (.inr hzero) hempty) fun _ _ => ⟨hbody, hgives⟩
  | @encoded headers coding hhost hlength hranges hencoding body job hjob =>
    dsimp only at hstatus hbody hfields
    have hcode : f.status.code = 200 := by rw [hstatus]; rfl
    have hnamed : f.headers.getAll HeaderName.contentEncoding ≠ [] := by
      rw [hfields, hencoding]
      nofun
    have hdelivers : ∀ streamed : Streamed,
        (∀ chunk ∈ streamed.chunks, IsChunk chunkBytes chunk) →
        (method = .get → Gives streamed.input streamed.ok file.content) →
        Delivers root plan method chunkBytes f streamed := by
      intro streamed hchunks hinput
      refine ⟨hchunks, ?_, fun h => ?_, fun h => ?_, fun _ h => absurd h hnamed, fun _ _ =>
        ⟨(hfields _).trans hlength, (hfields _).trans hranges, file, hserves, hinput⟩⟩
      · rw [hcode]
        exact List.mem_cons_self
      · rw [hcode] at h
        exact absurd h (by decide)
      · omega
    split_ifs at hjob with hhead
    · obtain ⟨rfl, rfl⟩ := Prod.mk.inj hjob
      exact hdelivers _ nofun fun hget => absurd (hhead.symm.trans hget) (by nofun)
    · obtain ⟨rfl, rfl⟩ := Prod.mk.inj hjob
      obtain ⟨hchunks, hgives⟩ := stream_encoded
      exact hdelivers _ hchunks fun _ => hgives

end Deliver

/-- A root in which every path names the same file. -/
def oneFileRoot (content : Bytes) (h : content.length < 2 ^ 64) : FileRoot :=
  ⟨fun _ => some (.regular ⟨content, none, h⟩), .noStore⟩

def filePlan : FilePlan := FilePlan.authorized (ascii "assets") (ascii "a.txt") .inline none

/-- Nothing fails, and the encoders write nothing. -/
def fairSurroundings : Surroundings where
  seekSucceeds := true
  responseTaken := true
  readSucceeds _ := true
  chunkTaken _ := true
  encoderStarts := true
  encoderWrites _ := ([], true)
  encoderFinishes := ([], true)
  encoderDropped := []

def noDates : HttpDate := ⟨fun _ => [], fun _ => none⟩

def rangeRequest : HeaderMap :=
  Multimap.insert .empty HeaderName.range ⟨ascii "bytes=1-3", by decide⟩

end BasicWebserver.FileServer
