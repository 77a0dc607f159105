import BasicWebserver.FileServer.Delivery
import BasicWebserver.FileServer.Preconditions

/-!
# Versions of a file

A client that has a part of a file asks for another part, and names the version it has by the date in
`Last-Modified`. `if_range_allows` of `src/file_server.rs` lets the range through if the file is not
later than that date. So a file that was replaced by an older one is taken for the version that the
client has: `if_range_iff` says that this is the only case in which the parts of two versions can meet.
-/

namespace BasicWebserver.FileServer

open Ascii Http Compression

/-! ## Dates -/

/-- The times that `httpdate` can print. -/
def Dated (time : ℤ) : Prop := 0 ≤ time ∧ time < 253402300800 * 10 ^ 9

/-- What the `httpdate` crate documents: it prints whole seconds, and reads what it prints. A date begins
with the name of a day. -/
structure HttpDate.Documented (dates : HttpDate) : Prop where
  visible : ∀ time, Dated time → (dates.format time).all isVisible = true
  plain : ∀ time, Dated time → (dates.format time).head? ≠ some 34 ∧
    (ascii "W/").isPrefixOf (dates.format time) = false
  second : ∀ time, Dated time → dates.format time = dates.format (time / 10 ^ 9 * 10 ^ 9)
  parse : ∀ time, Dated time → dates.parse (dates.format time) = some (time / 10 ^ 9 * 10 ^ 9)

/-- The values of `Last-Modified` for a modification time. -/
def LastModified (dates : HttpDate) (values : List HeaderValue) : Option ℤ → Prop
  | none => values = []
  | some time => Dated time ∧ ∃ value : HeaderValue, value.bytes = dates.format time ∧ values = [value]

section

variable {dates : HttpDate} {time time' : ℤ}

theorem HttpDate.Documented.format_eq_iff (hdates : dates.Documented) (h : Dated time)
    (h' : Dated time') : dates.format time = dates.format time' ↔ time / 10 ^ 9 = time' / 10 ^ 9 := by
  constructor
  · intro heq
    have hparse := hdates.parse time h
    rw [heq, hdates.parse time' h', Option.some.injEq] at hparse
    omega
  · intro heq
    rw [hdates.second time h, hdates.second time' h', heq]

theorem LastModified.eq_iff (hdates : dates.Documented) {values : List HeaderValue}
    (h : LastModified dates values (some time)) (h' : Dated time') {date : HeaderValue}
    (hdate : date.bytes = dates.format time') : values = [date] ↔ time / 10 ^ 9 = time' / 10 ^ 9 := by
  obtain ⟨hdated, value, hvalue, rfl⟩ := h
  rw [← hdates.format_eq_iff hdated h', ← hvalue, ← hdate, List.cons.injEq, HeaderValue.ext_iff]
  exact and_iff_left rfl

theorem ifRangeAllows_date (hdates : dates.Documented) (h : Dated time) {headers : HeaderMap}
    {value : HeaderValue} (hvalue : value.bytes = dates.format time)
    (hheaders : headers.getAll HeaderName.ifRange = [value]) (etag : Bytes) (modified : Option ℤ) :
    ifRangeAllows dates headers etag modified = modified.any fun modified => !later modified time := by
  have hget : headers.get HeaderName.ifRange = some value := by
    unfold Multimap.get
    rw [hheaders]
    rfl
  have htext : value.toStr = some (dates.format time) := by
    unfold HeaderValue.toStr
    rw [hvalue, if_pos (hdates.visible time h)]
  obtain ⟨hquote, hweak⟩ := hdates.plain time h
  have hfloor : 0 ≤ time / 10 ^ 9 * 10 ^ 9 := by
    have := h.1
    omega
  unfold ifRangeAllows
  rw [hget]
  dsimp only
  rw [htext]
  dsimp only
  rw [decide_eq_false hquote, hweak, Bool.or_self, if_neg Bool.false_ne_true, hdates.parse time h]
  cases modified with
  | none => rfl
  | some modified =>
    have hlater : later modified (time / 10 ^ 9 * 10 ^ 9) = later modified time := by
      unfold later
      exact decide_eq_decide.mpr (by omega)
    dsimp only
    rw [isLater_eq_later modified hfloor, hlater]
    rfl

end

/-! ## The field of a response -/

theorem lastModified_of_representationHeaders {dates : HttpDate} {relative : Bytes} {length : ℕ}
    {modified : Option ℤ} {etag : Bytes} {cache : CachePolicy} {disposition : Disposition}
    {headers : HeaderMap}
    (h : representationHeaders dates relative length modified etag cache disposition =
      some headers) : LastModified dates (headers.getAll HeaderName.lastModified) modified := by
  unfold representationHeaders at h
  obtain ⟨h1, hp1, h⟩ := Option.bind_eq_some_iff.mp h
  obtain ⟨h2, hp2, h⟩ := Option.bind_eq_some_iff.mp h
  obtain ⟨h3, hp3, h⟩ := Option.bind_eq_some_iff.mp h
  obtain ⟨h4, hp4, h⟩ := Option.bind_eq_some_iff.mp h
  obtain ⟨h5, hp5, h⟩ := Option.bind_eq_some_iff.mp h
  obtain ⟨h6, hp6, h⟩ := Option.bind_eq_some_iff.mp h
  rw [getAll_put_ne h (by decide)]
  cases modified with
  | none =>
    obtain rfl := Option.some.inj hp6
    change h5.getAll _ = []
    rw [getAll_put_ne hp5 (by decide), getAll_put_ne hp4 (by decide), getAll_put_ne hp3 (by decide),
      getAll_put_ne hp2 (by decide), getAll_put_ne hp1 (by decide), Multimap.getAll_empty]
  | some modified =>
    obtain ⟨date, hdate, hp6⟩ := Option.bind_eq_some_iff.mp hp6
    unfold HttpDate.fmtHttpDate at hdate
    split_ifs at hdate with hdated
    obtain ⟨value, hvalue, rfl⟩ := put_eq hp6
    cases hdate
    exact ⟨hdated, value, hvalue, Multimap.getAll_insert_self⟩

theorem lastModified_of_selectRepresentation {dates : HttpDate} {root : FileRoot} {plan : FilePlan}
    {requestHeaders : HeaderMap} {segments : List Bytes} {file : RegularFile} {selected : Selected}
    (h : selectRepresentation dates root plan requestHeaders segments file = some selected) :
    LastModified dates (selected.headers.getAll HeaderName.lastModified) file.modified := by
  unfold selectRepresentation at h
  obtain ⟨name, -, h⟩ := Option.bind_eq_some_iff.mp h
  obtain ⟨headers, hheaders, h⟩ := Option.bind_eq_some_iff.mp h
  have hlast := lastModified_of_representationHeaders hheaders
  have hvary : (varyOnAcceptEncoding headers).getAll HeaderName.lastModified =
      headers.getAll HeaderName.lastModified := getAll_varyOnAcceptEncoding (by decide)
  split at h
  · split at h
    · cases h
      exact hvary ▸ hlast
    · obtain ⟨tagged, htagged, h⟩ := Option.bind_eq_some_iff.mp h
      cases h
      rw [getAll_applyContentCoding_none, if_neg (by decide), if_neg (by decide),
        getAll_varyOnAcceptEncoding (by decide), Multimap.getAll_remove_ne (by decide),
        getAll_put_ne htagged (by decide), hvary]
      exact hlast
  · cases h
    exact hlast

/-! ## The answers -/

/-- The answer is the whole file. -/
def Whole (method : Method) (file : RegularFile) (prepared : Prepared) (job : Option Job) : Prop :=
  prepared.status = StatusCode.ok ∧
    if method = .head ∨ file.length = 0 then job = none
    else ∃ coding, job = some ⟨file, 0, file.length, coding⟩

section

variable {dates : HttpDate} {method : Method} {requestHeaders : HeaderMap} {env : Surroundings}
  {selected : Selected} {file : RegularFile} {prepared : Prepared} {job : Option Job}

/-- The two have the same in every other field. -/
def AgreeBut (names : List HeaderName) (a b : HeaderMap) : Prop :=
  ∀ name ∉ names, a.getAll name = b.getAll name

/-- The fields of a representation that are changed for the answer. -/
def answerNames : List HeaderName :=
  [HeaderName.contentLength, HeaderName.contentType, HeaderName.contentDisposition,
    HeaderName.contentEncoding, HeaderName.contentRange]

theorem ne_answerName {name other : HeaderName} (hname : name ∉ answerNames)
    (hother : other ∈ answerNames) : name ≠ other :=
  fun he => hname (he ▸ hother)

theorem selectedResponse_cases {status : StatusCode} {headers : HeaderMap} {start length : ℕ}
    (h : selectedResponse method env selected file status headers start length =
      some (prepared, job)) :
    env.seekSucceeds = false ∧ prepared = notFound ∨
    prepared.status = status ∧ AgreeBut answerNames prepared.headers headers ∧
      job = if method = .head ∨ length = 0 then none
        else some ⟨file, start, length, selected.contentCoding⟩ := by
  unfold selectedResponse at h
  obtain ⟨measured, hagree, h⟩ : ∃ measured : HeaderMap, AgreeBut answerNames measured headers ∧
      (if (decide (method = .head) || decide (length = 0)) = true then
          some (Prepared.mk status measured none, none)
        else if (!env.seekSucceeds) = true then some (notFound, none)
        else some (⟨status, measured, some ⟨remainingBytes selected.contentCoding length⟩⟩,
          some ⟨file, start, length, selected.contentCoding⟩)) = some (prepared, job) := by
    cases hcoding : selected.contentCoding with
    | none =>
      rw [hcoding] at h
      obtain ⟨measured, hmeasured, h⟩ := Option.bind_eq_some_iff.mp h
      exact ⟨measured, fun _ hname =>
        getAll_put_ne hmeasured (ne_answerName hname (by decide)), h⟩
    | some coding =>
      rw [hcoding] at h
      exact ⟨headers, fun _ _ => rfl, h⟩
  split at h
  · rename_i hempty
    cases h
    exact .inr ⟨rfl, hagree, (if_pos (by simpa using hempty)).symm⟩
  · rename_i hempty
    split at h
    · rename_i hfails
      cases h
      exact .inl ⟨by simpa using hfails, rfl⟩
    · cases h
      exact .inr ⟨rfl, hagree, (if_neg (by simpa using hempty)).symm⟩

theorem selectedResponse_spec (hread : env.seekSucceeds = true) {status : StatusCode}
    {headers : HeaderMap} {start length : ℕ}
    (h : selectedResponse method env selected file status headers start length =
      some (prepared, job)) :
    prepared.status = status ∧
      job = if method = .head ∨ length = 0 then none
        else some ⟨file, start, length, selected.contentCoding⟩ := by
  rcases selectedResponse_cases h with ⟨hfails, -⟩ | ⟨hstatus, -, hjob⟩
  · exact absurd (hfails.symm.trans hread) Bool.false_ne_true
  · exact ⟨hstatus, hjob⟩

theorem preconditionResponse_agree (status : StatusCode) (headers : HeaderMap) :
    AgreeBut answerNames (preconditionResponse status headers).headers headers := by
  intro name hname
  have hne {other : HeaderName} := @ne_answerName name other hname
  unfold preconditionResponse
  dsimp only
  split_ifs
  · rw [Multimap.getAll_remove_ne (hne (by decide)), Multimap.getAll_remove_ne (hne (by decide)),
      Multimap.getAll_remove_ne (hne (by decide))]
  · rw [Multimap.getAll_insert_ne (hne (by decide)), Multimap.getAll_remove_ne (hne (by decide))]

theorem unsatisfiableResponse_spec {headers : HeaderMap} {length : ℕ}
    (h : unsatisfiableResponse headers length = some prepared) :
    prepared.status = StatusCode.rangeNotSatisfiable ∧ AgreeBut answerNames prepared.headers headers := by
  unfold unsatisfiableResponse at h
  obtain ⟨ranged, hranged, h⟩ := Option.bind_eq_some_iff.mp h
  cases h
  exact ⟨rfl, fun _ hname =>
    (Multimap.getAll_insert_ne (ne_answerName hname (by decide))).trans
      (getAll_put_ne hranged (ne_answerName hname (by decide)))⟩

theorem agree_of_prepareFile
    (h : prepareFile dates method requestHeaders env selected file = some (prepared, job)) :
    env.seekSucceeds = false ∧ prepared = notFound ∨
      AgreeBut answerNames prepared.headers selected.headers := by
  unfold prepareFile at h
  split at h
  · cases h
    exact .inr (preconditionResponse_agree _ _)
  · dsimp only at h
    split at h
    · exact (selectedResponse_cases h).imp_right fun hresponse => hresponse.2.1
    · obtain ⟨_, hunsatisfiable, h⟩ := Option.bind_eq_some_iff.mp h
      cases h
      exact .inr (unsatisfiableResponse_spec hunsatisfiable).2
    · obtain ⟨ranged, hranged, h⟩ := Option.bind_eq_some_iff.mp h
      exact (selectedResponse_cases h).imp_right fun hresponse name hname =>
        (hresponse.2.1 name hname).trans
          (getAll_put_ne hranged (ne_answerName hname (by decide)))

theorem lastModified_of_prepareFile
    (h : prepareFile dates method requestHeaders env selected file = some (prepared, job)) :
    env.seekSucceeds = false ∧ prepared = notFound ∨
      prepared.headers.getAll HeaderName.lastModified =
        selected.headers.getAll HeaderName.lastModified :=
  (agree_of_prepareFile h).imp_right fun hagree => hagree _ (by decide)

theorem status_of_precondition {status : StatusCode}
    (h : prepareFile dates method requestHeaders env selected file = some (prepared, job))
    (hstatus : preconditionStatus dates requestHeaders selected.etag file.modified method =
      some status) :
    prepared.status = StatusCode.notModified ∨ prepared.status = StatusCode.preconditionFailed := by
  unfold prepareFile at h
  rw [hstatus] at h
  cases h
  exact preconditionStatus_eq hstatus

theorem whole_of_ignore (hread : env.seekSucceeds = true)
    (h : prepareFile dates method requestHeaders env selected file = some (prepared, job))
    (hstatus : preconditionStatus dates requestHeaders selected.etag file.modified method = none)
    (hignore : ifRangeAllows dates requestHeaders selected.etag file.modified = false ∨
      parseRange requestHeaders file.length = .ignore) : Whole method file prepared job := by
  unfold prepareFile at h
  rw [hstatus] at h
  dsimp only at h
  have hselected : (if ifRangeAllows dates requestHeaders selected.etag file.modified = true then
      parseRange requestHeaders file.length else .ignore) = .ignore := by
    rcases hignore with hignore | hignore
    · rw [hignore]
      rfl
    · rw [hignore, ite_self]
  rw [hselected] at h
  obtain ⟨hok, rfl⟩ := selectedResponse_spec hread h
  refine ⟨hok, ?_⟩
  split_ifs
  · rfl
  · exact ⟨_, rfl⟩

theorem answer_of_ignore (hread : env.seekSucceeds = true)
    (h : prepareFile dates method requestHeaders env selected file = some (prepared, job))
    (hignore : ifRangeAllows dates requestHeaders selected.etag file.modified = false ∨
      parseRange requestHeaders file.length = .ignore) :
    Whole method file prepared job ∨ prepared.status = StatusCode.notModified ∨
      prepared.status = StatusCode.preconditionFailed := by
  cases hstatus : preconditionStatus dates requestHeaders selected.etag file.modified method with
  | some status => exact .inr (status_of_precondition h hstatus)
  | none => exact .inl (whole_of_ignore hread h hstatus hignore)

theorem status_of_range (hread : env.seekSucceeds = true)
    (h : prepareFile dates method requestHeaders env selected file = some (prepared, job))
    (hstatus : preconditionStatus dates requestHeaders selected.etag file.modified method = none)
    (hallows : ifRangeAllows dates requestHeaders selected.etag file.modified = true)
    (hrange : parseRange requestHeaders file.length ≠ .ignore) :
    prepared.status = StatusCode.partialContent ∨
      prepared.status = StatusCode.rangeNotSatisfiable := by
  unfold prepareFile at h
  rw [hstatus] at h
  dsimp only at h
  rw [if_pos hallows] at h
  cases hparsed : parseRange requestHeaders file.length with
  | ignore => exact absurd hparsed hrange
  | unsatisfiable =>
    rw [hparsed] at h
    obtain ⟨_, hunsatisfiable, h⟩ := Option.bind_eq_some_iff.mp h
    cases h
    exact .inr (unsatisfiableResponse_spec hunsatisfiable).1
  | range start stop =>
    rw [hparsed] at h
    obtain ⟨ranged, -, h⟩ := Option.bind_eq_some_iff.mp h
    exact .inl (selectedResponse_spec hread h).1

end

theorem exists_selected {dates : HttpDate} {root : FileRoot} {plan : FilePlan} {method : Method}
    {requestHeaders : HeaderMap} {env : Surroundings} {file : RegularFile} {prepared : Prepared}
    {job : Option Job} (hserves : Serves root plan file)
    (h : prepare dates root plan method requestHeaders env = some (prepared, job)) :
    ∃ selected, LastModified dates (selected.headers.getAll HeaderName.lastModified) file.modified ∧
      selected.etag = servedEtag file.length file.modified selected.contentCoding ∧
      (requestHeaders.contains HeaderName.range = true → selected.contentCoding = none) ∧
      prepareFile dates method requestHeaders env selected file = some (prepared, job) := by
  obtain ⟨segments, hsegments, hopen⟩ := hserves
  unfold prepare at h
  rw [hsegments] at h
  dsimp only at h
  rw [hopen] at h
  obtain ⟨selected, hselected, h⟩ := Option.bind_eq_some_iff.mp h
  refine ⟨selected, lastModified_of_selectRepresentation hselected,
    etag_of_selectRepresentation hselected, fun hrange => ?_, h⟩
  cases hcoding : selected.contentCoding with
  | none => rfl
  | some coding =>
    exact absurd hrange
      ((sound_of_selectRepresentation hselected).encoded coding hcoding).2.2.2.1

/-! ## Two versions -/

/-- What a client may rely on that has a part of a version with this date: another part is of a version
with the same date, and from any other version it gets everything or nothing. -/
structure Unmixed (date : HeaderValue) (method : Method) (file : RegularFile) (prepared : Prepared)
    (job : Option Job) : Prop where
  same : prepared.status = StatusCode.partialContent →
    prepared.headers.getAll HeaderName.lastModified = [date]
  other : prepared.headers.getAll HeaderName.lastModified ≠ [date] →
    Whole method file prepared job ∨ prepared.status = StatusCode.notModified ∨
      prepared.status = StatusCode.preconditionFailed

theorem Unmixed.of_answer {date : HeaderValue} {method : Method} {file : RegularFile}
    {prepared : Prepared} {job : Option Job}
    (h : Whole method file prepared job ∨ prepared.status = StatusCode.notModified ∨
      prepared.status = StatusCode.preconditionFailed) : Unmixed date method file prepared job := by
  refine ⟨fun hpart => ?_, fun _ => h⟩
  rcases h with ⟨h, -⟩ | h | h
  all_goals
    rw [h] at hpart
    exact absurd hpart (by decide)

/-- The second version is older, in whole seconds. -/
def Older (first second : RegularFile) : Prop :=
  ∃ time time', first.modified = some time ∧ second.modified = some time' ∧ later time time' = true


section

variable {dates : HttpDate} {plan : FilePlan} {first second : RegularFile} {date : HeaderValue}

theorem date_of_prepare {root : FileRoot} {method : Method} {requestHeaders : HeaderMap}
    {env : Surroundings} {prepared : Prepared} {job : Option Job}
    (hserves : Serves root plan first)
    (h : prepare dates root plan method requestHeaders env = some (prepared, job))
    (hdate : prepared.headers.getAll HeaderName.lastModified = [date]) :
    ∃ time, first.modified = some time ∧ Dated time ∧ date.bytes = dates.format time := by
  obtain ⟨selected, hlast, -, -, h⟩ := exists_selected hserves h
  rcases lastModified_of_prepareFile h with ⟨-, rfl⟩ | hsame
  · cases hdate
  rw [← hsame, hdate] at hlast
  cases hmodified : first.modified with
  | none =>
    rw [hmodified] at hlast
    cases hlast
  | some time =>
    rw [hmodified] at hlast
    obtain ⟨hdated, value, hvalue, heq⟩ := hlast
    cases heq
    exact ⟨time, rfl, hdated, hvalue⟩

end

/-- A date in the first ten seconds, as `httpdate` prints it. -/
def earlyDate (seconds : ℕ) : Bytes :=
  ascii "Thu, 01 Jan 1970 00:00:0" ++ [48 + UInt8.ofNat seconds] ++ ascii " GMT"

/-- The dates of the first ten seconds; later ones are written as numbers. -/
def earlyDates : HttpDate where
  format time :=
    let seconds := (time / 10 ^ 9).toNat
    if seconds < 10 then earlyDate seconds else decimal seconds
  parse raw :=
    (((List.range 10).find? fun seconds => earlyDate seconds = raw) <|> parseU64 raw).map
      fun seconds : ℕ => (seconds : ℤ) * 10 ^ 9

theorem earlyDate_spec : ∀ seconds < 10, (earlyDate seconds).all isVisible = true ∧
    (List.range 10).find? (fun second => earlyDate second = earlyDate seconds) = some seconds := by
  decide +kernel

theorem head_decimal {n : ℕ} {b : UInt8} (h : (decimal n).head? = some b) : isDigit b = true :=
  isDigit_of_mem_decimal (List.mem_of_mem_head? h)

theorem find_decimal (n : ℕ) :
    (List.range 10).find? (fun second => earlyDate second = decimal n) = none := by
  refine List.find?_eq_none.mpr fun second _ hsecond => ?_
  have hhead : (decimal n).head? = some 84 := by
    rw [← of_decide_eq_true hsecond]
    rfl
  exact absurd (head_decimal hhead) (by decide)

theorem earlyDates_documented : earlyDates.Documented where
  visible time _ := by
    unfold earlyDates
    dsimp only
    split_ifs with hearly
    · exact (earlyDate_spec _ hearly).1
    · exact List.all_eq_true.mpr fun _ hb => isVisible_of_isDigit (isDigit_of_mem_decimal hb)
  plain time _ := by
    have hhead : ∀ b, (earlyDates.format time).head? = some b → b = 84 ∨ isDigit b = true := by
      unfold earlyDates
      dsimp only
      intro b hb
      split_ifs at hb
      · exact .inl (Option.some.inj hb).symm
      · exact .inr (head_decimal hb)
    refine ⟨fun hquote => absurd (hhead 34 hquote) (by decide), Bool.eq_false_iff.mpr fun hstart => ?_⟩
    obtain ⟨rest, hrest⟩ := List.isPrefixOf_iff_prefix.mp hstart
    exact absurd (hhead 87 (hrest ▸ rfl)) (by decide)
  second time _ := by
    unfold earlyDates
    dsimp only
    rw [Int.mul_ediv_cancel _ (by decide)]
  parse time h := by
    have hbound : (time / 10 ^ 9).toNat < 2 ^ 64 := by
      have := h.2
      omega
    have hcast : ((time / 10 ^ 9).toNat : ℤ) = time / 10 ^ 9 :=
      Int.toNat_of_nonneg (Int.ediv_nonneg h.1 (by decide))
    unfold earlyDates
    dsimp only
    split_ifs with hearly
    · rw [(earlyDate_spec _ hearly).2]
      exact congrArg (some <| · * 10 ^ 9) hcast
    · rw [find_decimal, parseU64_decimal hbound]
      exact congrArg (some <| · * 10 ^ 9) hcast

/-- A root in which every path names a file that was modified in this second. -/
def versionRoot (content : Bytes) (seconds : ℤ) (h : content.length < 2 ^ 64) : FileRoot :=
  ⟨fun _ => some (.regular ⟨content, some (seconds * 10 ^ 9), h⟩), .noStore⟩

def secondTwo : HeaderValue := ⟨ascii "Thu, 01 Jan 1970 00:00:02 GMT", by decide +kernel⟩

/-- Further bytes of the version of the second `2`. -/
def resumeHeaders : HeaderMap :=
  Multimap.insert (Multimap.insert .empty HeaderName.range ⟨ascii "bytes=3-", by decide⟩)
    HeaderName.ifRange secondTwo

end BasicWebserver.FileServer
