import Mathlib.Data.Fintype.Option
import BasicWebserver.Foundation.EntityTag
import BasicWebserver.Foundation.Splitting
import BasicWebserver.FileServer.Serve

/-!
# Preconditions

The evaluation of preconditions in RFC 9110, 13.2.2, and `precondition_status` of
`src/file_server.rs`. The file server splits a list of entity tags at its commas, those between
quotes included. A tag of the server has no comma, so this does not hide it; but what stands between
two commas of a tag can be a star (`candidates_element`). Lines that are not ASCII are not read at
all, and of a date that comes twice the first one is taken. These are its only misreadings
(`readFindings_eq`), and `precondition_status_iff` says which of them change the status.
-/

namespace BasicWebserver.FileServer

open Ascii Http Compression EntityTags Splitting

/-! ## The evaluation -/

/-- What is found out about the preconditions of a request: whether `If-Match` or
`If-Unmodified-Since` fails, whether `If-None-Match` matches if it is there, and whether
`If-Modified-Since` says that the client has the current version. -/
structure Findings where
  failed : Bool
  noneMatch : Option Bool
  notModified : Bool
  deriving DecidableEq

def onlyReads (method : Method) : Bool := method = .get || method = .head

def Findings.status (findings : Findings) (method : Method) : Option StatusCode :=
  if findings.failed then some StatusCode.preconditionFailed
  else
    match findings.noneMatch with
    | some true =>
      some (if onlyReads method then StatusCode.notModified else StatusCode.preconditionFailed)
    | some false => none
    | none => if onlyReads method && findings.notModified then some StatusCode.notModified else none

/-- Which of the findings are not what they should be. -/
structure Misreadings where
  failed : Bool
  noneMatch : Bool
  notModified : Bool
  deriving DecidableEq

def Findings.misread (findings : Findings) (misreadings : Misreadings) : Findings where
  failed := findings.failed ^^ misreadings.failed
  noneMatch := findings.noneMatch.map (· ^^ misreadings.noneMatch)
  notModified := findings.notModified ^^ misreadings.notModified

/-- The status is the same: only what comes too late is misread, or what should have failed fails
later with the same status. -/
def Misreadings.harmless (misreadings : Misreadings) (findings : Findings) (method : Method) : Bool :=
  if misreadings.failed then
    !onlyReads method && findings.noneMatch =
      some (if findings.failed then !misreadings.noneMatch else true)
  else findings.failed ||
    if findings.noneMatch.isSome then !misreadings.noneMatch
    else !(onlyReads method && misreadings.notModified)

theorem Findings.status_misread_iff (findings : Findings) (misreadings : Misreadings)
    (method : Method) :
    (findings.misread misreadings).status method = findings.status method ↔
      misreadings.harmless findings method = true := by
  obtain ⟨failed, noneMatch, notModified⟩ := findings
  obtain ⟨failed', noneMatch', notModified'⟩ := misreadings
  unfold Findings.status Findings.misread Misreadings.harmless
  generalize onlyReads method = r
  revert failed noneMatch notModified failed' noneMatch' notModified' r
  decide

/-! ## What RFC 9110 says -/

/-- Dates are in whole seconds. -/
def later (modified date : ℤ) : Bool := date / 10 ^ 9 < modified / 10 ^ 9

/-- The date of a field, which is ignored if there are several. -/
def dateField (dates : HttpDate) (headers : HeaderMap) (name : HeaderName) : Option ℤ :=
  match headers.getAll name with
  | [value] => dates.parseHttpDate value
  | _ => none

section

variable (dates : HttpDate) (headers : HeaderMap) (ifMatch ifNoneMatch : Option TagField)
  (current : EntityTag) (modified : Option ℤ)

/-- A condition on the modification time and the date of a field, if both are known. -/
def compareDate (condition : ℤ → ℤ → Bool) (name : HeaderName) : Bool :=
  match dateField dates headers name, modified with
  | some date, some modified => condition modified date
  | _, _ => false

def meantFindings : Findings where
  failed :=
    match ifMatch with
    | some field => !field.matches current.strongly
    | none => compareDate dates headers modified later HeaderName.ifUnmodifiedSince
  noneMatch := ifNoneMatch.map (·.matches current.weakly)
  notModified :=
    compareDate dates headers modified (fun modified date => !later modified date)
      HeaderName.ifModifiedSince

/-! ## What the file server finds out -/

/-- What stands between the commas of a tag. -/
def betweenCommas (tag : EntityTag) : List Bytes := ((tag.content.splitOn 44).drop 1).dropLast

/-- A tag that passes is on a line of visible ASCII. -/
def seen (test : EntityTag → Bool) (lines : List (List Element)) : Bool :=
  lines.any fun line => (lineText line).all isVisible &&
    line.any fun element => element.tag.any test

/-- What is found in a field: a star, a tag with a star between two commas, or a tag that passes. -/
def found (compare : EntityTag → Bool) : TagField → Bool
  | .any => true
  | .tags lines _ => seen (fun tag => (betweenCommas tag).contains [42] || compare tag) lines

/-- The first of several dates. -/
def compareFirstDate (condition : ℤ → ℤ → Bool) (name : HeaderName) : Bool :=
  match (headers.get name).bind dates.parseHttpDate, modified with
  | some date, some modified => condition modified date
  | _, _ => false

def readFindings : Findings where
  failed :=
    match ifMatch with
    | some field => !found (fun _ => false) field
    | none => compareFirstDate dates headers modified later HeaderName.ifUnmodifiedSince
  noneMatch := ifNoneMatch.map (found current.weakly)
  notModified :=
    compareFirstDate dates headers modified (fun modified date => !later modified date)
      HeaderName.ifModifiedSince

/-! ## The misreadings -/

/-- A tag has a star between two commas. -/
def starred : TagField → Bool
  | .any => false
  | .tags lines _ => seen (fun tag => (betweenCommas tag).contains [42]) lines

/-- A tag that passes is only on lines that are not ASCII. -/
def hidden (compare : EntityTag → Bool) : TagField → Bool
  | .any => false
  | .tags lines nonempty =>
    (TagField.tags lines nonempty).matches compare && !seen compare lines

/-- The date comes twice, and the first one counts. -/
def doubled (condition : ℤ → ℤ → Bool) (name : HeaderName) : Bool :=
  1 < (headers.getAll name).length && compareFirstDate dates headers modified condition name

def misreadings : Misreadings where
  failed :=
    match ifMatch with
    | some field => starred field
    | none => doubled dates headers modified later HeaderName.ifUnmodifiedSince
  noneMatch := ifNoneMatch.any fun field =>
    if starred field then !field.matches current.weakly else hidden current.weakly field
  notModified :=
    doubled dates headers modified (fun modified date => !later modified date)
      HeaderName.ifModifiedSince

end

theorem seen_or (test test' : EntityTag → Bool) (lines : List (List Element)) :
    seen (fun tag => test tag || test' tag) lines = (seen test lines || seen test' lines) := by
  have hiff : ∀ test : EntityTag → Bool, seen test lines = true ↔ ∃ line ∈ lines,
      (lineText line).all isVisible = true ∧ ∃ element ∈ line, ∃ tag, element.tag = some tag ∧
        test tag = true := by
    intro test
    simp only [seen, List.any_eq_true, Bool.and_eq_true, Option.any_eq_true]
  rw [Bool.eq_iff_iff, Bool.or_eq_true, hiff, hiff, hiff]
  simp only [Bool.or_eq_true]
  constructor
  · rintro ⟨line, hline, hvisible, element, helement, tag, htag, htest | htest⟩
    · exact .inl ⟨line, hline, hvisible, element, helement, tag, htag, htest⟩
    · exact .inr ⟨line, hline, hvisible, element, helement, tag, htag, htest⟩
  · rintro (⟨line, hline, hvisible, element, helement, tag, htag, htest⟩ |
      ⟨line, hline, hvisible, element, helement, tag, htag, htest⟩)
    · exact ⟨line, hline, hvisible, element, helement, tag, htag, .inl htest⟩
    · exact ⟨line, hline, hvisible, element, helement, tag, htag, .inr htest⟩

theorem matches_of_seen {compare : EntityTag → Bool} {lines : List (List Element)}
    {nonempty : lines ≠ []} (h : seen compare lines = true) :
    (TagField.tags lines nonempty).matches compare = true := by
  obtain ⟨line, hline, hseen⟩ := List.any_eq_true.mp h
  exact List.any_eq_true.mpr ⟨line, hline, (Bool.and_eq_true_iff.mp hseen).2⟩

theorem found_eq (compare : EntityTag → Bool) (field : TagField) :
    found compare field =
      (field.matches compare ^^ if starred field then !field.matches compare
        else hidden compare field) := by
  cases field with
  | any => rfl
  | tags lines nonempty =>
    have hmatches : seen compare lines = true →
        (TagField.tags lines nonempty).matches compare = true := matches_of_seen
    unfold found starred hidden
    dsimp only
    rw [seen_or]
    by_cases hstar : seen (fun tag => (betweenCommas tag).contains [42]) lines = true
    · rw [if_pos hstar, hstar, Bool.true_or, Bool.xor_not_self]
    · rw [if_neg hstar, Bool.eq_false_iff.mpr hstar, Bool.false_or]
      cases hvisible : seen compare lines with
      | true =>
        rw [hmatches hvisible]
        rfl
      | false => rw [Bool.not_false, Bool.and_true, Bool.xor_self]

theorem found_strongly {current : EntityTag} (hcurrent : current.weak = true) (field : TagField) :
    found (fun _ => false) field = (field.matches current.strongly ^^ starred field) := by
  have hstrongly : current.strongly = fun _ => false := by
    funext tag
    unfold EntityTag.strongly
    rw [hcurrent]
    rfl
  rw [hstrongly]
  cases field with
  | any => rfl
  | tags lines nonempty =>
    have hnone : (TagField.tags lines nonempty).matches (fun _ => false) = false := by
      simp [TagField.matches]
    rw [found_eq, hidden, hnone, Bool.false_xor, Bool.false_xor, Bool.false_and, Bool.not_false]
    cases starred (.tags lines nonempty) <;> rfl

theorem compareFirstDate_eq (dates : HttpDate) (headers : HeaderMap) (modified : Option ℤ)
    (condition : ℤ → ℤ → Bool) (name : HeaderName) :
    compareFirstDate dates headers modified condition name =
      (compareDate dates headers modified condition name ^^
        doubled dates headers modified condition name) := by
  have hget : headers.get name = (headers.getAll name).head? := rfl
  unfold doubled compareFirstDate compareDate dateField
  rw [hget]
  match headers.getAll name with
  | [] => rfl
  | [value] => exact (Bool.xor_false _).symm
  | value :: next :: values => exact (Bool.false_xor _).symm

theorem readFindings_eq (dates : HttpDate) (headers : HeaderMap)
    (ifMatch ifNoneMatch : Option TagField) {current : EntityTag} (hcurrent : current.weak = true)
    (modified : Option ℤ) :
    readFindings dates headers ifMatch ifNoneMatch current modified =
      (meantFindings dates headers ifMatch ifNoneMatch current modified).misread
        (misreadings dates headers ifMatch ifNoneMatch current modified) := by
  unfold readFindings meantFindings misreadings Findings.misread
  rw [Findings.mk.injEq]
  refine ⟨?_, ?_, compareFirstDate_eq dates headers modified _ _⟩
  · cases ifMatch with
    | none => exact compareFirstDate_eq dates headers modified _ _
    | some field =>
      dsimp only
      rw [found_strongly hcurrent, Bool.not_xor]
  · cases ifNoneMatch with
    | none => rfl
    | some field => exact congrArg some (found_eq current.weakly field)

/-- The field is written in the lines of a request; without it there are none. -/
def Written (headers : HeaderMap) (name : HeaderName) (field : Option TagField) : Prop :=
  (headers.getAll name).map HeaderValue.bytes = field.elim [] TagField.texts

instance (headers : HeaderMap) (name : HeaderName) (field : Option TagField) :
    Decidable (Written headers name field) :=
  inferInstanceAs (Decidable (_ = _))

/-! ## Candidates -/

/-- The test of `etag_condition_matches` for what stands between two commas of a line. -/
def candidateMatches (current : Bytes) (weak : Bool) (candidate : Bytes) : Bool :=
  let candidate := trim candidate
  candidate = ascii "*" ||
    if weak then
      stripWeak candidate = stripWeak current && candidate.getLast? = some 34 && candidate.contains 34
    else !(ascii "W/").isPrefixOf candidate && candidate = current

theorem etagConditionMatches_eq (headers : HeaderMap) (name : HeaderName) (current : Bytes)
    (weak : Bool) :
    etagConditionMatches headers name current weak =
      (AcceptedEncodings.texts headers name).any fun raw =>
        (raw.splitOn 44).any (candidateMatches current weak) := rfl

section

variable {current : EntityTag} {weak : Bool}

theorem stripWeak_text (tag : EntityTag) : stripWeak tag.text = [34] ++ tag.content ++ [34] := by
  unfold EntityTag.text EntityTag.mark stripWeak
  cases tag.weak with
  | true =>
    rw [if_pos rfl, List.append_assoc, List.append_assoc (ascii "W/"),
      stripPrefix_eq_some.mpr rfl, Option.getD_some]
    simp
  | false => rfl

theorem candidateMatches_eq (hcurrent : current.weak = true) {candidate core : Bytes}
    (htrim : trim candidate = core) :
    candidateMatches current.text weak candidate = (decide (core = [42]) || (weak &&
      (stripWeak core = [34] ++ current.content ++ [34] && core.getLast? = some 34 &&
        core.contains 34))) := by
  have hweak : (ascii "W/").isPrefixOf current.text = true := by
    unfold EntityTag.text EntityTag.mark
    rw [hcurrent, if_pos rfl, List.append_assoc, List.append_assoc]
    exact List.isPrefixOf_iff_prefix.mpr (List.prefix_append _ _)
  unfold candidateMatches
  rw [htrim, stripWeak_text]
  cases weak with
  | true => rfl
  | false =>
    have hnot : (!(ascii "W/").isPrefixOf core && decide (core = current.text)) = false := by
      by_cases hcore : core = current.text
      · rw [hcore, hweak]
        rfl
      · rw [decide_eq_false hcore, Bool.and_false]
    dsimp only
    rw [if_neg (by decide), hnot, Bool.false_and]
    rfl

theorem exists_stripWeak (core : Bytes) : ∃ start, core = start ++ stripWeak core := by
  unfold stripWeak
  cases h : stripPrefix (ascii "W/") core with
  | none => exact ⟨[], rfl⟩
  | some rest => exact ⟨_, stripPrefix_eq_some.mp h⟩

theorem candidateMatches_of_count (hcurrent : current.weak = true) {candidate core : Bytes}
    (htrim : trim candidate = core) (hcount : core.count 34 ≤ 1) :
    candidateMatches current.text weak candidate = decide (core = [42]) := by
  have hne : stripWeak core ≠ [34] ++ current.content ++ [34] := by
    intro heq
    obtain ⟨start, hstart⟩ := exists_stripWeak core
    rw [heq] at hstart
    rw [hstart] at hcount
    simp only [List.count_append, List.count_cons_self, List.count_nil] at hcount
    omega
  rw [candidateMatches_eq hcurrent htrim, decide_eq_false hne, Bool.false_and, Bool.false_and,
    Bool.and_false, Bool.or_false]

theorem candidateMatches_tag (hcurrent : current.weak = true) {candidate : Bytes} (tag : EntityTag)
    (htrim : trim candidate = tag.text) :
    candidateMatches current.text weak candidate = (weak && current.weakly tag) := by
  have hquote : (34 : UInt8) ∈ tag.text := List.mem_append_right _ (List.mem_singleton_self _)
  have hstar : tag.text ≠ [42] := by
    intro heq
    rw [heq] at hquote
    exact absurd hquote (by decide)
  have hlast : tag.text.getLast? = some 34 := List.getLast?_concat
  have hcontent : [34] ++ tag.content ++ [34] = [34] ++ current.content ++ [34] ↔
      current.content = tag.content := by simp [eq_comm]
  rw [candidateMatches_eq hcurrent htrim, stripWeak_text, decide_eq_false hstar, Bool.false_or, hlast,
    List.contains_iff_mem.mpr hquote, decide_eq_decide.mpr hcontent, decide_eq_true rfl, Bool.and_true,
    Bool.and_true]
  rfl

/-! ## Tags with commas -/

/-- The pieces of a text with a comma; what is put around it goes to the first and the last one. -/
theorem exists_pieces {content : Bytes} (h : (44 : UInt8) ∈ content) :
    ∃ (first last : Bytes) (inner : List Bytes), first ⊆ content ∧ last ⊆ content ∧
      (∀ piece ∈ inner, piece ⊆ content) ∧
      ∀ start rest : Bytes, (44 : UInt8) ∉ start → (44 : UInt8) ∉ rest →
        (start ++ content ++ rest).splitOn 44 = (start ++ first) :: inner ++ [last ++ rest] := by
  obtain ⟨first, tail, rfl, hfirst⟩ := List.eq_append_cons_of_mem h
  by_cases htail : (44 : UInt8) ∈ tail
  · obtain ⟨last, inner, hreverse, hlast⟩ :=
      List.eq_append_cons_of_mem (List.mem_reverse.mpr htail)
    obtain rfl : tail = inner.reverse ++ 44 :: last.reverse := by
      rw [← List.reverse_reverse tail, hreverse]
      simp
    refine ⟨first, last.reverse, inner.reverse.splitOn 44, List.subset_append_left _ _,
      fun b hb => by simp [List.mem_reverse.mp hb], ?_, ?_⟩
    · intro piece hpiece b hb
      have hinner : b ∈ [44].intercalate (inner.reverse.splitOn 44) :=
        mem_intercalate_of_mem hpiece hb
      rw [List.intercalate_splitOn] at hinner
      exact List.mem_append_right _ (.tail _ (List.mem_append_left _ hinner))
    · intro start rest hstart hrest
      have hstart' : (44 : UInt8) ∉ start ++ first := by simp [hstart, hfirst]
      have hrest' : (44 : UInt8) ∉ last.reverse ++ rest := by simp [hlast, hrest]
      have happend : start ++ (first ++ 44 :: (inner.reverse ++ 44 :: last.reverse)) ++ rest =
          (start ++ first) ++ 44 :: (inner.reverse ++ 44 :: (last.reverse ++ rest)) := by simp
      rw [happend, List.splitOn_append_cons_self, List.splitOn_append_cons_self,
        List.splitOn_eq_singleton hstart', List.splitOn_eq_singleton hrest']
      rfl
  · refine ⟨first, tail, [], List.subset_append_left _ _, by simp, nofun, ?_⟩
    intro start rest hstart hrest
    have hstart' : (44 : UInt8) ∉ start ++ first := by simp [hstart, hfirst]
    have hrest' : (44 : UInt8) ∉ tail ++ rest := by simp [htail, hrest]
    have happend : start ++ (first ++ 44 :: tail) ++ rest =
        (start ++ first) ++ 44 :: (tail ++ rest) := by simp
    rw [happend, List.splitOn_append_cons_self, List.splitOn_eq_singleton hstart',
      List.splitOn_eq_singleton hrest']

theorem betweenCommas_of_notMem {tag : EntityTag} (h : (44 : UInt8) ∉ tag.content) :
    betweenCommas tag = [] := by
  unfold betweenCommas
  rw [List.splitOn_eq_singleton h]
  rfl

theorem candidateMatches_tag_element (hcurrent : current.weak = true) (element : Element)
    {tag : EntityTag} (htag : element.tag = some tag) (hcomma : (44 : UInt8) ∉ tag.content) :
    (element.text.splitOn 44).any (candidateMatches current.text weak) =
      (weak && current.weakly tag) := by
  obtain ⟨hbefore, hafter, hblankBefore, hblankAfter⟩ := element.blanks_spec
  obtain ⟨-, hmark, hblankMark⟩ := tag.mark_spec
  obtain ⟨-, hblank⟩ := tag.content_spec
  have hblankTag : ∀ b ∈ tag.text, isWhitespace b = false := by
    intro b hb
    simp only [EntityTag.text, List.mem_append, List.mem_singleton] at hb
    rcases hb with ((hb | rfl) | hb) | rfl
    · exact hblankMark b hb
    · decide
    · exact hblank b hb
    · decide
  have htext : element.text = element.before ++ tag.text ++ element.after := by
    unfold Element.text
    rw [htag]
    rfl
  have hnone : (44 : UInt8) ∉ element.before ++ tag.text ++ element.after := by
    simp [EntityTag.text, hbefore, hafter, hmark, hcomma]
  rw [htext, List.splitOn_eq_singleton hnone, List.any_cons, List.any_nil, Bool.or_false,
    candidateMatches_tag hcurrent tag (trim_append hblankBefore hblankAfter hblankTag)]

theorem candidateMatches_of_quote (hcurrent : current.weak = true) {before core after : Bytes}
    (hbefore : ∀ b ∈ before, isWhitespace b = true) (hafter : ∀ b ∈ after, isWhitespace b = true)
    (hcore : ∀ b ∈ core, isWhitespace b = false) (hcount : core.count 34 = 1) :
    candidateMatches current.text weak (before ++ core ++ after) = false := by
  rw [candidateMatches_of_count hcurrent (trim_append hbefore hafter hcore) hcount.le]
  refine decide_eq_false ?_
  rintro rfl
  exact absurd hcount (by decide)

theorem candidateMatches_comma_element (hcurrent : current.weak = true) (element : Element)
    {tag : EntityTag} (htag : element.tag = some tag) (hcomma : (44 : UInt8) ∈ tag.content) :
    (element.text.splitOn 44).any (candidateMatches current.text weak) =
      (betweenCommas tag).contains [42] := by
  obtain ⟨hbefore, hafter, hblankBefore, hblankAfter⟩ := element.blanks_spec
  obtain ⟨hquoteMark, hmark, hblankMark⟩ := tag.mark_spec
  obtain ⟨hquote, hblank⟩ := tag.content_spec
  obtain ⟨first, last, inner, hfirst, hlast, hinner, hsplit⟩ := exists_pieces hcomma
  have hbetween : betweenCommas tag = inner := by
    have h := hsplit [] [] nofun nofun
    rw [List.nil_append, List.append_nil, List.append_nil] at h
    unfold betweenCommas
    rw [h, List.cons_append, List.drop_one, List.tail_cons, List.dropLast_concat]
  have htext : element.text =
      (element.before ++ (tag.mark ++ [34])) ++ tag.content ++ ([34] ++ element.after) := by
    unfold Element.text
    rw [htag]
    simp [EntityTag.text]
  have hopening : candidateMatches current.text weak
      (element.before ++ (tag.mark ++ [34] ++ first) ++ []) = false := by
    refine candidateMatches_of_quote hcurrent hblankBefore nofun ?_ ?_
    · simp only [List.mem_append, List.mem_singleton]
      rintro b ((hb | rfl) | hb)
      · exact hblankMark b hb
      · decide
      · exact hblank b (hfirst hb)
    · rw [List.count_append, List.count_append, List.count_eq_zero_of_not_mem hquoteMark,
        List.count_eq_zero_of_not_mem fun h => hquote (hfirst h)]
      rfl
  have hclosing : candidateMatches current.text weak ([] ++ (last ++ [34]) ++ element.after) =
      false := by
    refine candidateMatches_of_quote hcurrent nofun hblankAfter ?_ ?_
    · simp only [List.mem_append, List.mem_singleton]
      rintro b (hb | rfl)
      · exact hblank b (hlast hb)
      · decide
    · rw [List.count_append, List.count_eq_zero_of_not_mem fun h => hquote (hlast h)]
      rfl
  have hstar : ∀ piece ∈ inner, candidateMatches current.text weak piece = ([42] == piece) := by
    intro piece hpiece
    have htrim : trim piece = piece :=
      trimMatches_eq_self fun b hb => hblank b (hinner piece hpiece hb)
    have hcount := List.count_eq_zero_of_not_mem fun h => hquote (hinner piece hpiece h)
    rw [candidateMatches_of_count hcurrent htrim (by omega), beq_eq_decide,
      decide_eq_decide.mpr eq_comm]
  rw [List.append_nil, ← List.append_assoc] at hopening
  rw [List.nil_append, List.append_assoc] at hclosing
  rw [hbetween, htext, hsplit _ _ (by simp [hbefore, hmark]) (by simp [hafter]), List.cons_append,
    List.any_cons, List.any_append, List.any_cons, List.any_nil, hopening, hclosing, Bool.false_or,
    Bool.or_false, Bool.or_false, List.contains_eq_any_beq]
  rw [Bool.eq_iff_iff, List.any_eq_true, List.any_eq_true]
  exact exists_congr fun piece => and_congr_right fun hpiece => by rw [hstar piece hpiece]

/-- What the candidates of an element come to. -/
theorem candidates_element (hcurrent : current.weak = true) (hcontent : (44 : UInt8) ∉ current.content)
    (element : Element) :
    (element.text.splitOn 44).any (candidateMatches current.text weak) =
      element.tag.any fun tag =>
        (betweenCommas tag).contains [42] || (weak && current.weakly tag) := by
  cases htag : element.tag with
  | none =>
    obtain ⟨hbefore, hafter, hblankBefore, hblankAfter⟩ := element.blanks_spec
    have htext : element.text = element.before ++ [] ++ element.after := by
      unfold Element.text
      rw [htag]
      rfl
    rw [htext, List.splitOn_eq_singleton (by simp [hbefore, hafter]), List.any_cons, List.any_nil,
      candidateMatches_of_count hcurrent (trim_append hblankBefore hblankAfter (by simp)) (by simp)]
    rfl
  | some tag =>
    rw [Option.any_some]
    by_cases hcomma : (44 : UInt8) ∈ tag.content
    · have hdifferent : current.weakly tag = false := by
        refine decide_eq_false ?_
        rintro heq
        exact hcontent (heq ▸ hcomma)
      rw [candidateMatches_comma_element hcurrent element htag hcomma, hdifferent, Bool.and_false,
        Bool.or_false]
    · rw [candidateMatches_tag_element hcurrent element htag hcomma, betweenCommas_of_notMem hcomma]
      rfl

theorem candidates_line (hcurrent : current.weak = true) (hcontent : (44 : UInt8) ∉ current.content)
    (line : List Element) :
    ((lineText line).splitOn 44).any (candidateMatches current.text weak) =
      line.any fun element => element.tag.any fun tag =>
        (betweenCommas tag).contains [42] || (weak && current.weakly tag) := by
  unfold lineText
  induction line with
  | nil =>
    rw [List.map_nil, List.intercalate_nil, List.splitOn_nil, List.any_cons, List.any_nil,
      candidateMatches_of_count hcurrent (show trim [] = [] from rfl) (by simp)]
    rfl
  | cons element line ih =>
    rw [List.any_cons, ← candidates_element hcurrent hcontent]
    cases line with
    | nil => simp
    | cons next line =>
      rw [← ih, List.map_cons, intercalate_cons _ (by simp), List.singleton_append,
        List.splitOn_append_cons_self, List.any_append]


/-! ## Fields -/

theorem texts_eq_filter (headers : HeaderMap) (name : HeaderName) :
    AcceptedEncodings.texts headers name =
      ((headers.getAll name).map HeaderValue.bytes).filter (·.all isVisible) := by
  unfold AcceptedEncodings.texts
  induction headers.getAll name with
  | nil => rfl
  | cons value values ih =>
    rw [List.map_cons, List.filter_cons, List.filterMap_cons, ← ih]
    unfold HeaderValue.toStr
    cases value.bytes.all isVisible <;> rfl

theorem etagConditionMatches_written (hcurrent : current.weak = true)
    (hcontent : (44 : UInt8) ∉ current.content) {headers : HeaderMap} {name : HeaderName}
    {field : TagField} (hwritten : Written headers name (some field)) :
    etagConditionMatches headers name current.text weak =
      found (fun tag => weak && current.weakly tag) field := by
  unfold Written at hwritten
  rw [etagConditionMatches_eq, texts_eq_filter, hwritten, List.any_filter]
  cases field with
  | any =>
    have hstar : candidateMatches current.text weak [42] = true :=
      candidateMatches_of_count hcurrent rfl (by decide)
    change (_ && ((ascii "*").splitOn 44).any _ || false) = true
    rw [Bool.or_false, List.splitOn_eq_singleton (by decide), List.any_cons]
    exact Bool.and_eq_true_iff.mpr ⟨rfl, by rw [show ascii "*" = [42] from rfl, hstar]; rfl⟩
  | tags lines nonempty =>
    change (lines.map lineText).any _ = _
    rw [List.any_map]
    refine congrArg lines.any (funext fun line => ?_)
    exact congrArg _ (candidates_line hcurrent hcontent line)

theorem contains_written {headers : HeaderMap} {name : HeaderName} {field : Option TagField}
    (hwritten : Written headers name field) : headers.contains name = field.isSome := by
  unfold Written at hwritten
  have hiff : headers.contains name = true ↔ field.isSome = true := by
    rw [Multimap.contains_iff, ne_eq, ← List.map_eq_nil_iff (f := HeaderValue.bytes), hwritten]
    match field with
    | none => simp
    | some .any => simp [TagField.texts]
    | some (.tags lines nonempty) => simpa [TagField.texts] using nonempty
  exact Bool.eq_iff_iff.mpr hiff

/-! ## Dates -/

theorem isLater_eq_later (modified : ℤ) {date : ℤ} (h : 0 ≤ date) :
    isLater modified date = later modified date := by
  unfold isLater later unixSeconds
  exact decide_eq_decide.mpr (by omega)

theorem dateCondition_eq_compareFirstDate {dates : HttpDate} {condition condition' : ℤ → ℤ → Bool}
    (h : ∀ raw date, dates.parse raw = some date → ∀ modified,
      condition modified date = condition' modified date)
    (headers : HeaderMap) (name : HeaderName) (modified : Option ℤ) :
    dateCondition dates headers name modified condition =
      compareFirstDate dates headers modified condition' name := by
  unfold dateCondition compareFirstDate
  cases headers.get name with
  | none => rfl
  | some value =>
    cases modified with
    | none =>
      rw [Option.bind_some]
      cases dates.parseHttpDate value <;> rfl
    | some modified =>
      dsimp only [Option.bind_some]
      cases hparse : dates.parseHttpDate value with
      | none => rfl
      | some date =>
        obtain ⟨raw, -, hraw⟩ := Option.bind_eq_some_iff.mp hparse
        exact h raw date hraw modified

/-! ## The status -/

/-- The file server evaluates what it finds out in the order of RFC 9110. -/
theorem preconditionStatus_eq_status {dates : HttpDate}
    (hdates : ∀ raw date, dates.parse raw = some date → 0 ≤ date)
    (hcurrent : current.weak = true) (hcontent : (44 : UInt8) ∉ current.content)
    {headers : HeaderMap} {ifMatch ifNoneMatch : Option TagField}
    (hmatch : Written headers HeaderName.ifMatch ifMatch)
    (hnoneMatch : Written headers HeaderName.ifNoneMatch ifNoneMatch) (modified : Option ℤ)
    (method : Method) :
    preconditionStatus dates headers current.text modified method =
      (readFindings dates headers ifMatch ifNoneMatch current modified).status method := by
  have hlater : dateCondition dates headers HeaderName.ifUnmodifiedSince modified isLater =
      compareFirstDate dates headers modified later HeaderName.ifUnmodifiedSince :=
    dateCondition_eq_compareFirstDate
      (fun raw date hraw modified => isLater_eq_later modified (hdates raw date hraw)) _ _ _
  have hnotLater : dateCondition dates headers HeaderName.ifModifiedSince modified
      (fun modified date => !isLater modified date) =
        compareFirstDate dates headers modified (fun modified date => !later modified date)
          HeaderName.ifModifiedSince :=
    dateCondition_eq_compareFirstDate
      (fun raw date hraw modified => by rw [isLater_eq_later modified (hdates raw date hraw)]) _ _ _
  have hfailed : (if ifMatch.isSome = true then
      !etagConditionMatches headers HeaderName.ifMatch current.text false
      else compareFirstDate dates headers modified later HeaderName.ifUnmodifiedSince) =
        (readFindings dates headers ifMatch ifNoneMatch current modified).failed := by
    cases ifMatch with
    | none => rfl
    | some field =>
      rw [etagConditionMatches_written hcurrent hcontent hmatch]
      rfl
  unfold preconditionStatus
  rw [contains_written hmatch, contains_written hnoneMatch, hlater, hnotLater]
  dsimp only
  rw [hfailed]
  unfold Findings.status
  refine if_congr Iff.rfl rfl ?_
  cases ifNoneMatch with
  | none => rfl
  | some field =>
    rw [Option.isSome_some, if_pos rfl, etagConditionMatches_written hcurrent hcontent hnoneMatch]
    change (if found current.weakly field = true then _ else _) =
      match some (found current.weakly field) with
      | some true => _
      | some false => _
      | none => _
    cases found current.weakly field <;> rfl

end

/-! ## The tags of the file server -/

/-- The tag of a file in a coding. -/
def servedEtag (length : ℕ) (modified : Option ℤ) (coding : Option ContentCoding) : Bytes :=
  coding.elim (weakEtag length modified) (encodedEtag (weakEtag length modified))

theorem etag_of_selectRepresentation {dates : HttpDate} {root : FileRoot} {plan : FilePlan}
    {requestHeaders : HeaderMap} {segments : List Bytes} {file : RegularFile} {selected : Selected}
    (h : selectRepresentation dates root plan requestHeaders segments file = some selected) :
    selected.etag = servedEtag file.length file.modified selected.contentCoding := by
  unfold selectRepresentation at h
  obtain ⟨name, -, h⟩ := Option.bind_eq_some_iff.mp h
  obtain ⟨headers, -, h⟩ := Option.bind_eq_some_iff.mp h
  split_ifs at h
  · cases hpreferred : (AcceptedEncodings.fromHeaders requestHeaders).preferred with
    | none =>
      rw [hpreferred] at h
      cases h
      rfl
    | some coding =>
      rw [hpreferred] at h
      obtain ⟨_, -, h⟩ := Option.bind_eq_some_iff.mp h
      cases h
      rfl
  · cases h
    rfl

def servedContent (length : ℕ) (modified : Option ℤ) (coding : Option ContentCoding) : Bytes :=
  hex length ++ ascii "-" ++ hex ((modified.map Int.toNat).getD 0) ++
    coding.elim [] fun coding => ascii "-" ++ coding.asStr

theorem servedContent_bytes {length : ℕ} {modified : Option ℤ} {coding : Option ContentCoding}
    {b : UInt8} (h : b ∈ servedContent length modified coding) : isAlphanumeric b = true ∨ b = 45 := by
  unfold servedContent at h
  simp only [List.mem_append] at h
  rcases h with ((h | h) | h) | h
  · exact .inl (isAlphanumeric_of_mem_hex h)
  · exact .inr (List.mem_singleton.mp h)
  · exact .inl (isAlphanumeric_of_mem_hex h)
  · match coding with
    | none => cases h
    | some coding =>
      revert b
      cases coding <;> decide +kernel

theorem tag_byte {b : UInt8} (h : isAlphanumeric b = true ∨ b = 45) : isTagByte b = true ∧ b ≠ 44 := by
  unfold isAlphanumeric isDigit isUpper isLower at h
  unfold isTagByte
  simp only [Bool.or_eq_true, Bool.and_eq_true, decide_eq_true_eq, ne_eq, ← UInt8.toNat_inj,
    UInt8.le_iff_toNat_le, UInt8.reduceToNat, decide_not, Bool.not_eq_true', decide_eq_false_iff_not]
    at h ⊢
  omega

/-- The tag that the file server gives out. -/
def servedTag (length : ℕ) (modified : Option ℤ) (coding : Option ContentCoding) : EntityTag where
  weak := true
  content := servedContent length modified coding
  bytes _ hb := (tag_byte (servedContent_bytes hb)).1

theorem weakEtag_eq (length : ℕ) (modified : Option ℤ) :
    weakEtag length modified = ascii "W/" ++ [34] ++ servedContent length modified none ++ [34] := by
  unfold weakEtag servedContent
  rw [show ascii "W/\"" = ascii "W/" ++ [34] by decide, show ascii "\"" = [34] from rfl,
    Option.elim_none, List.append_nil]
  simp only [List.append_assoc]

theorem servedTag_text (length : ℕ) (modified : Option ℤ) (coding : Option ContentCoding) :
    (servedTag length modified coding).text = servedEtag length modified coding := by
  unfold servedEtag
  cases coding with
  | none => exact (weakEtag_eq length modified).symm
  | some coding =>
    have hcontent : servedContent length modified (some coding) =
        servedContent length modified none ++ (ascii "-" ++ coding.asStr) := by
      unfold servedContent
      rw [Option.elim_none, Option.elim_some, List.append_nil]
    change ascii "W/" ++ [34] ++ servedContent length modified (some coding) ++ [34] =
      encodedEtag (weakEtag length modified) coding
    unfold encodedEtag
    rw [weakEtag_eq, if_pos List.getLast?_concat, List.dropLast_concat, hcontent,
      show ascii "\"" = [34] from rfl]
    simp only [List.append_assoc]

/-- **Preconditions.** A request whose entity tags are well formed is answered as RFC 9110 says if and
only if its misreadings are harmless. There are none if no tag has a star between two commas, every line
is ASCII and no date comes twice. -/
theorem precondition_status_iff {dates : HttpDate}
    (hdates : ∀ raw date, dates.parse raw = some date → 0 ≤ date) {headers : HeaderMap}
    {ifMatch ifNoneMatch : Option TagField} (hmatch : Written headers HeaderName.ifMatch ifMatch)
    (hnoneMatch : Written headers HeaderName.ifNoneMatch ifNoneMatch) (length : ℕ)
    (time : Option ℤ) (coding : Option ContentCoding) (modified : Option ℤ) (method : Method) :
    preconditionStatus dates headers (servedEtag length time coding) modified method =
      (meantFindings dates headers ifMatch ifNoneMatch (servedTag length time coding)
        modified).status method ↔
    (misreadings dates headers ifMatch ifNoneMatch (servedTag length time coding)
      modified).harmless
        (meantFindings dates headers ifMatch ifNoneMatch (servedTag length time coding) modified)
        method = true := by
  have hcontent : (44 : UInt8) ∉ (servedTag length time coding).content :=
    fun h => (tag_byte (servedContent_bytes h)).2 rfl
  rw [← servedTag_text, preconditionStatus_eq_status hdates rfl hcontent hmatch hnoneMatch,
    readFindings_eq _ _ _ _ rfl]
  exact Findings.status_misread_iff _ _ method

/-- Only the first second has a date. -/
def epochDates : HttpDate where
  format _ := ascii "Thu, 01 Jan 1970 00:00:00 GMT"
  parse raw := if raw = ascii "Thu, 01 Jan 1970 00:00:00 GMT" then some 0 else none

theorem epochDates_nonneg : ∀ raw date, epochDates.parse raw = some date → 0 ≤ date := by
  intro raw date h
  unfold epochDates at h
  dsimp only at h
  split_ifs at h
  cases h
  rfl

def oneTag (tag : EntityTag) : TagField := .tags [[⟨[], some tag, [], nofun⟩]] (List.cons_ne_nil _ _)

/-- The tag of a file of five bytes, and a date. -/
def currentHeaders : HeaderMap :=
  Multimap.insert
    (Multimap.insert .empty HeaderName.ifNoneMatch ⟨ascii "W/\"5-0\"", by decide⟩)
    HeaderName.ifUnmodifiedSince ⟨ascii "Thu, 01 Jan 1970 00:00:00 GMT", by decide⟩

theorem precondition_status_current :
    preconditionStatus epochDates currentHeaders (servedEtag 5 none none) (some 7) .get =
      (meantFindings epochDates currentHeaders none (some (oneTag (servedTag 5 none none)))
        (servedTag 5 none none) (some 7)).status .get ∧
    preconditionStatus epochDates currentHeaders (servedEtag 5 none none) (some 7) .get =
      some StatusCode.notModified :=
  ⟨(precondition_status_iff epochDates_nonneg (by decide) (by decide) 5 none none
    (some 7) .get).mpr (by decide), by decide⟩

/-- A tag with a star between two commas. -/
def starTag : EntityTag := ⟨false, ascii "a,*,b", by decide +kernel⟩

def starHeaders (name : HeaderName) : HeaderMap :=
  Multimap.insert .empty name ⟨ascii "\"a,*,b\"", by decide⟩

/-- The star makes the client believe that it has the file, and lets a request pass for another version. -/
theorem precondition_status_star :
    Written (starHeaders HeaderName.ifNoneMatch) HeaderName.ifNoneMatch (some (oneTag starTag)) ∧
    preconditionStatus epochDates (starHeaders HeaderName.ifNoneMatch) (servedEtag 5 none none) none
      .get = some StatusCode.notModified ∧
    (meantFindings epochDates (starHeaders HeaderName.ifNoneMatch) none (some (oneTag starTag))
      (servedTag 5 none none) none).status .get = none ∧
    Written (starHeaders HeaderName.ifMatch) HeaderName.ifMatch (some (oneTag starTag)) ∧
    preconditionStatus epochDates (starHeaders HeaderName.ifMatch) (servedEtag 5 none none) none
      .get = none ∧
    (meantFindings epochDates (starHeaders HeaderName.ifMatch) (some (oneTag starTag)) none
      (servedTag 5 none none) none).status .get = some StatusCode.preconditionFailed := by
  decide

end BasicWebserver.FileServer
