import BasicWebserver.FileServer.Representation

/-!
# Byte ranges

The single ranges of RFC 9110 and what `parse_range` of `src/file_server.rs` makes of a range field. A
field is read as it should be whenever it is a range (`parseRange_of_byteRange`). A field that is none
should be ignored, but a plus sign is accepted in front of a number, and a first position past the end
of the file is answered before the last position is looked at. `parse_range_iff` says that nothing
else goes wrong.
-/

namespace BasicWebserver.FileServer

open Ascii Http

/-! ## Ranges -/

/-- One or more digits of a number with 64 bits. -/
def number (text : Bytes) : Option ℕ :=
  if text ≠ [] ∧ text.all isDigit ∧ ofDecimal text < 2 ^ 64 then some (ofDecimal text) else none

inductive ByteRange
  | int (first : ℕ) (last : Option ℕ)
  | suffix (length : ℕ)
  deriving DecidableEq

/-- `first-pos "-" [ last-pos ]` or `"-" suffix-length`. -/
def intOrSuffix (first last : Bytes) : Option ByteRange :=
  if first = [] then (number last).map .suffix
  else
    match number first with
    | none => none
    | some start =>
      if last = [] then some (.int start none)
      else
        match number last with
        | none => none
        | some stop => if stop < start then none else some (.int start (some stop))

/-- The range that a field asks for, if it is a valid one. -/
def byteRange (raw : Bytes) : Option ByteRange :=
  match (stripPrefix (ascii "bytes=") raw).bind (splitOnce 45) with
  | none => none
  | some (first, last) => intOrSuffix first last

/-- The positions of a file that a range selects. -/
def ByteRange.Selects (length : ℕ) : ByteRange → ℕ → Prop
  | .int first last, i => i < length ∧ first ≤ i ∧ ∀ stop ∈ last, i ≤ stop
  | .suffix n, i => i < length ∧ length ≤ i + n

/-- The outcome for a range field of a file with `length` bytes. -/
def Answers (length : ℕ) (raw : Bytes) (selection : RangeSelection) : Prop :=
  match byteRange raw with
  | none => selection = .ignore
  | some range =>
    selection = .unsatisfiable ∧ (∀ i, ¬ range.Selects length i) ∨
    ∃ start stop, selection = .range start stop ∧ start ≤ stop ∧ stop < length ∧
      ∀ i, range.Selects length i ↔ start ≤ i ∧ i ≤ stop

/-! ## Numbers -/

/-- A plus sign in front of a number. -/
def Signed (text : Bytes) (n : ℕ) : Prop := ∃ digits, text = 43 :: digits ∧ number digits = some n

theorem parseU64_eq (text : Bytes) :
    parseU64 text = number (if text.head? = some 43 then text.tail else text) := rfl

theorem number_eq_some {text : Bytes} {n : ℕ} (h : number text = some n) :
    text ≠ [] ∧ ∀ b ∈ text, isDigit b = true := by
  unfold number at h
  split_ifs at h with hnumber
  exact ⟨hnumber.1, List.all_eq_true.mp hnumber.2.1⟩

theorem number_of_signed {text : Bytes} {n : ℕ} (h : Signed text n) : number text = none := by
  obtain ⟨digits, rfl, -⟩ := h
  by_contra hne
  obtain ⟨m, hm⟩ := Option.ne_none_iff_exists'.mp hne
  exact absurd ((number_eq_some hm).2 43 List.mem_cons_self) (by decide)

theorem parseU64_eq_some {text : Bytes} {n : ℕ} :
    parseU64 text = some n ↔ number text = some n ∨ Signed text n := by
  rw [parseU64_eq]
  split_ifs with hplus
  · obtain ⟨digits, rfl⟩ : ∃ digits, text = 43 :: digits := by
      cases text with
      | nil => cases hplus
      | cons b digits => exact ⟨digits, congrArg (· :: digits) (Option.some.inj hplus)⟩
    constructor
    · exact fun h => .inr ⟨digits, rfl, h⟩
    · rintro (h | ⟨digits', heq, h⟩)
      · exact absurd ((number_eq_some h).2 43 List.mem_cons_self) (by decide)
      · cases heq
        exact h
  · refine ⟨.inl, fun h => h.resolve_right ?_⟩
    rintro ⟨digits, rfl, -⟩
    exact hplus rfl

/-! ## The two positions -/

/-- What `parse_range` does with the texts on both sides of the hyphen. -/
def selectPair (length : ℕ) (first last : Bytes) : RangeSelection :=
  if first = [] then
    match parseU64 last with
    | none => .ignore
    | some suffix =>
      if suffix = 0 || length = 0 then .unsatisfiable else .range (length - suffix) (length - 1)
  else
    match parseU64 first with
    | none => .ignore
    | some start =>
      if start ≥ length then .unsatisfiable
      else if last = [] then .range start (length - 1)
      else
        match parseU64 last with
        | none => .ignore
        | some stop => if start > stop then .ignore else .range start (min stop (length - 1))

theorem parseRange_eq (headers : HeaderMap) (length : ℕ) :
    parseRange headers length =
      match (rangeSpec headers).bind (splitOnce 45) with
      | none => .ignore
      | some (first, last) => selectPair length first last := by
  unfold parseRange selectPair
  cases (rangeSpec headers).bind (splitOnce 45) <;> rfl

/-- A text that is no range and is not ignored. -/
def Deviates (length : ℕ) (first last : Bytes) : Prop :=
  if first = [] then ∃ n, Signed last n
  else
    ∃ start, parseU64 first = some start ∧
      if length ≤ start then
        (∃ n, Signed first n) ∨ last ≠ [] ∧ ∀ stop, number last = some stop → stop < start
      else
        ((∃ n, Signed first n) ∨ ∃ n, Signed last n) ∧
          (last = [] ∨ ∃ stop, parseU64 last = some stop ∧ start ≤ stop)

section

variable {length : ℕ} {first last : Bytes} {range : ByteRange}

theorem intOrSuffix_eq_some :
    intOrSuffix first last = some range ↔
      (first = [] ∧ ∃ n, number last = some n ∧ range = .suffix n) ∨
      ∃ start, number first = some start ∧
        (last = [] ∧ range = .int start none ∨
          ∃ stop, number last = some stop ∧ start ≤ stop ∧ range = .int start (some stop)) := by
  have hempty : number [] = none := rfl
  unfold intOrSuffix
  by_cases hfirst : first = []
  · subst hfirst
    cases number last with
    | none => simp [hempty]
    | some n => simp [hempty, eq_comm]
  · rw [if_neg hfirst]
    cases hstart : number first with
    | none => simp [hfirst]
    | some start =>
      by_cases hlast : last = []
      · subst hlast
        simp [hfirst, hempty, eq_comm]
      · cases hstop : number last with
        | none => simp [hfirst, hlast]
        | some stop =>
          by_cases hlt : stop < start
          · simp [hfirst, hlast, hlt, Nat.not_le.mpr hlt]
          · simp [hfirst, hlast, hlt, Nat.not_lt.mp hlt, eq_comm]

theorem isDigit_of_intOrSuffix (h : intOrSuffix first last = some range) :
    ∀ b ∈ first ++ last, isDigit b = true := by
  intro b hb
  rcases intOrSuffix_eq_some.mp h with ⟨rfl, n, hn, -⟩ | ⟨start, hstart, ⟨rfl, -⟩ | ⟨stop, hstop, -⟩⟩
  · exact (number_eq_some hn).2 b hb
  · rw [List.append_nil] at hb
    exact (number_eq_some hstart).2 b hb
  · exact (List.mem_append.mp hb).elim ((number_eq_some hstart).2 b) ((number_eq_some hstop).2 b)

theorem selectPair_answers (h : intOrSuffix first last = some range) :
    selectPair length first last = .unsatisfiable ∧ (∀ i, ¬ range.Selects length i) ∨
    ∃ start stop, selectPair length first last = .range start stop ∧ start ≤ stop ∧ stop < length ∧
      ∀ i, range.Selects length i ↔ start ≤ i ∧ i ≤ stop := by
  rcases intOrSuffix_eq_some.mp h with ⟨rfl, n, hn, rfl⟩ | ⟨start, hstart, hrest⟩
  · have hparse := parseU64_eq_some.mpr (.inl hn)
    rw [selectPair, if_pos rfl, hparse]
    dsimp only
    by_cases hempty : n = 0 ∨ length = 0
    · rw [if_pos (by simpa using hempty)]
      refine .inl ⟨rfl, fun i hi => ?_⟩
      have := hi.1
      have := hi.2
      omega
    · rw [if_neg (by simpa using hempty)]
      refine .inr ⟨length - n, length - 1, rfl, by omega, by omega, fun i => ?_⟩
      show i < length ∧ length ≤ i + n ↔ _
      omega
  · have hfirst := (number_eq_some hstart).1
    have hparse := parseU64_eq_some.mpr (.inl hstart)
    rw [selectPair, if_neg hfirst, hparse]
    dsimp only
    by_cases hpast : start ≥ length
    · rw [if_pos hpast]
      refine .inl ⟨rfl, fun i hi => ?_⟩
      rcases hrest with ⟨-, rfl⟩ | ⟨stop, -, -, rfl⟩
      all_goals
        have := hi.1
        have := hi.2.1
        omega
    · rw [if_neg hpast]
      rcases hrest with ⟨rfl, rfl⟩ | ⟨stop, hstop, hle, rfl⟩
      · refine .inr ⟨start, length - 1, if_pos rfl, by omega, by omega, fun i => ?_⟩
        show i < length ∧ start ≤ i ∧ (∀ stop ∈ none, i ≤ stop) ↔ _
        simp only [Option.not_mem_none, false_implies, implies_true, and_true]
        omega
      · have hlast := (number_eq_some hstop).1
        rw [if_neg hlast, parseU64_eq_some.mpr (.inl hstop)]
        dsimp only
        rw [if_neg (Nat.not_lt.mpr hle)]
        refine .inr ⟨start, min stop (length - 1), rfl, by omega, by omega, fun i => ?_⟩
        show i < length ∧ start ≤ i ∧ (∀ stop' ∈ some stop, i ≤ stop') ↔ _
        simp only [Option.mem_some_iff, forall_eq']
        omega

theorem not_deviates (h : intOrSuffix first last = some range) : ¬ Deviates length first last := by
  have hsigned : ∀ {text : Bytes} {n m : ℕ}, number text = some n → ¬ Signed text m := by
    intro text n m hn hm
    rw [number_of_signed hm] at hn
    cases hn
  unfold Deviates
  rcases intOrSuffix_eq_some.mp h with ⟨rfl, n, hn, -⟩ | ⟨start, hstart, hrest⟩
  · rw [if_pos rfl]
    rintro ⟨m, hm⟩
    exact hsigned hn hm
  · rw [if_neg (number_eq_some hstart).1]
    rintro ⟨start', hparse, hdeviates⟩
    rw [parseU64_eq_some.mpr (.inl hstart)] at hparse
    cases hparse
    split_ifs at hdeviates with hpast
    · rcases hdeviates with ⟨m, hm⟩ | ⟨hlast, hsmall⟩
      · exact hsigned hstart hm
      · rcases hrest with ⟨hnil, -⟩ | ⟨stop, hstop, hle, -⟩
        · exact hlast hnil
        · exact absurd (hsmall stop hstop) (Nat.not_lt.mpr hle)
    · rcases hdeviates.1 with ⟨m, hm⟩ | ⟨m, hm⟩
      · exact hsigned hstart hm
      · rcases hrest with ⟨rfl, -⟩ | ⟨stop, hstop, -⟩
        · obtain ⟨digits, hnil, -⟩ := hm
          cases hnil
        · exact hsigned hstop hm

/-- A text that is no range is ignored unless it deviates. -/
theorem selectPair_eq_ignore (h : intOrSuffix first last = none) :
    selectPair length first last = .ignore ↔ ¬ Deviates length first last := by
  have hnone : ∀ range, intOrSuffix first last ≠ some range := fun range hrange =>
    nomatch h.symm.trans hrange
  unfold selectPair Deviates
  by_cases hfirst : first = []
  · rw [if_pos hfirst, if_pos hfirst]
    cases hparse : parseU64 last with
    | none =>
      refine iff_of_true rfl ?_
      rintro ⟨n, hn⟩
      rw [parseU64_eq_some.mpr (.inr hn)] at hparse
      cases hparse
    | some n =>
      refine iff_of_false ?_ (not_not_intro ⟨n, (parseU64_eq_some.mp hparse).resolve_left ?_⟩)
      · dsimp only
        split_ifs <;> exact nofun
      · exact fun hn => hnone _ (intOrSuffix_eq_some.mpr (.inl ⟨hfirst, n, hn, rfl⟩))
  · rw [if_neg hfirst, if_neg hfirst]
    cases hparse : parseU64 first with
    | none => exact iff_of_true rfl fun ⟨start, hstart, _⟩ => nomatch hstart
    | some start =>
      simp only [Option.some.injEq, exists_eq_left']
      have hstart := parseU64_eq_some.mp hparse
      by_cases hpast : length ≤ start
      · rw [if_pos hpast, if_pos hpast]
        refine iff_of_false nofun (not_not_intro ?_)
        rcases hstart with hstart | hsigned
        · refine .inr ⟨fun hlast => ?_, fun stop hstop => Nat.lt_of_not_le fun hle => ?_⟩
          · exact hnone _ (intOrSuffix_eq_some.mpr (.inr ⟨start, hstart, .inl ⟨hlast, rfl⟩⟩))
          · exact hnone _ (intOrSuffix_eq_some.mpr
              (.inr ⟨start, hstart, .inr ⟨stop, hstop, hle, rfl⟩⟩))
        · exact .inl ⟨start, hsigned⟩
      · rw [if_neg hpast, if_neg hpast]
        by_cases hlast : last = []
        · rw [if_pos hlast]
          refine iff_of_false nofun (not_not_intro ⟨.inl ⟨start, hstart.resolve_left fun hnumber => ?_⟩,
            .inl hlast⟩)
          exact hnone _ (intOrSuffix_eq_some.mpr (.inr ⟨start, hnumber, .inl ⟨hlast, rfl⟩⟩))
        · rw [if_neg hlast]
          cases hparse' : parseU64 last with
          | none =>
            refine iff_of_true rfl ?_
            rintro ⟨-, hnil | ⟨stop, hstop, -⟩⟩
            · exact hlast hnil
            · cases hstop
          | some stop =>
            dsimp only
            by_cases hlt : start > stop
            · rw [if_pos hlt]
              refine iff_of_true rfl ?_
              rintro ⟨-, hnil | ⟨stop', hstop, hle⟩⟩
              · exact hlast hnil
              · cases hstop
                exact absurd hle (Nat.not_le.mpr hlt)
            · rw [if_neg hlt]
              have hle := Nat.le_of_not_lt hlt
              refine iff_of_false nofun (not_not_intro ⟨?_, .inr ⟨stop, rfl, hle⟩⟩)
              rcases hstart with hstart | hsigned
              · refine .inr ⟨stop, (parseU64_eq_some.mp hparse').resolve_left fun hstop => ?_⟩
                exact hnone _ (intOrSuffix_eq_some.mpr
                  (.inr ⟨start, hstart, .inr ⟨stop, hstop, hle, rfl⟩⟩))
              · exact .inl ⟨start, hsigned⟩

end

/-! ## Fields -/

section

variable {headers : HeaderMap} {value : HeaderValue} {first last : Bytes}

theorem strip_bind_splitOnce (raw : Bytes) :
    (stripPrefix (ascii "bytes=") raw).bind (splitOnce 45) = some (first, last) ↔
      raw = ascii "bytes=" ++ first ++ 45 :: last ∧ (45 : UInt8) ∉ first := by
  rw [Option.bind_eq_some_iff]
  constructor
  · rintro ⟨spec, hspec, hsplit⟩
    obtain ⟨rfl, hfirst⟩ := splitOnce_eq_some.mp hsplit
    exact ⟨by rw [stripPrefix_eq_some.mp hspec, List.append_assoc], hfirst⟩
  · rintro ⟨rfl, hfirst⟩
    exact ⟨first ++ 45 :: last, stripPrefix_eq_some.mpr (List.append_assoc _ _ _),
      splitOnce_eq_some.mpr ⟨rfl, hfirst⟩⟩

theorem rangeSpec_bind_splitOnce (h : headers.getAll HeaderName.range = [value]) :
    (rangeSpec headers).bind (splitOnce 45) = some (first, last) ↔
      value.toStr = some (ascii "bytes=" ++ first ++ 45 :: last) ∧ (45 : UInt8) ∉ first ∧
        (44 : UInt8) ∉ first ++ last := by
  have hcomma : (44 : UInt8) ∉ first ++ 45 :: last ↔ (44 : UInt8) ∉ first ++ last := by simp
  unfold rangeSpec
  rw [h, Option.bind_eq_some_iff]
  constructor
  · rintro ⟨spec, hspec, hsplit⟩
    obtain ⟨raw, hraw, hspec⟩ := Option.bind_eq_some_iff.mp hspec
    obtain ⟨spec', hstrip, hspec⟩ := Option.bind_eq_some_iff.mp hspec
    split_ifs at hspec with hcontains
    cases hspec
    obtain ⟨rfl, hfirst⟩ := splitOnce_eq_some.mp hsplit
    rw [List.contains_iff_mem] at hcontains
    rw [stripPrefix_eq_some.mp hstrip, ← List.append_assoc] at hraw
    exact ⟨hraw, hfirst, hcomma.mp hcontains⟩
  · rintro ⟨hraw, hfirst, hno⟩
    refine ⟨first ++ 45 :: last, ?_, splitOnce_eq_some.mpr ⟨rfl, hfirst⟩⟩
    refine Option.bind_eq_some_iff.mpr ⟨_, hraw, Option.bind_eq_some_iff.mpr
      ⟨_, stripPrefix_eq_some.mpr (List.append_assoc _ _ _), if_neg ?_⟩⟩
    rw [List.contains_iff_mem]
    exact hcomma.mpr hno

theorem exists_of_byteRange {raw : Bytes} (h : byteRange raw ≠ none) :
    ∃ first last range, raw = ascii "bytes=" ++ first ++ 45 :: last ∧ (45 : UInt8) ∉ first ∧
      intOrSuffix first last = some range := by
  unfold byteRange at h
  cases hsplit : (stripPrefix (ascii "bytes=") raw).bind (splitOnce 45) with
  | none =>
    rw [hsplit] at h
    exact absurd rfl h
  | some pair =>
    obtain ⟨first, last⟩ := pair
    rw [hsplit] at h
    obtain ⟨range, hrange⟩ := Option.ne_none_iff_exists'.mp h
    obtain ⟨hraw, hfirst⟩ := (strip_bind_splitOnce raw).mp hsplit
    exact ⟨first, last, range, hraw, hfirst, hrange⟩

/-- **Byte ranges.** A range field is answered as it should be exactly if it does not deviate. -/
theorem parse_range_iff (h : headers.getAll HeaderName.range = [value]) (length : ℕ) :
    Answers length value.bytes (parseRange headers length) ↔
      ∀ first last, value.toStr = some (ascii "bytes=" ++ first ++ 45 :: last) →
        (45 : UInt8) ∉ first → (44 : UInt8) ∉ first ++ last → ¬ Deviates length first last := by
  have hbytes : ∀ {raw : Bytes}, value.toStr = some raw → value.bytes = raw := by
    intro raw hraw
    unfold HeaderValue.toStr at hraw
    split_ifs at hraw
    exact Option.some.inj hraw
  rw [parseRange_eq]
  cases hread : (rangeSpec headers).bind (splitOnce 45) with
  | some pair =>
    -- the texts are those of the field
    obtain ⟨first, last⟩ := pair
    obtain ⟨hraw, hfirst, hcomma⟩ := (rangeSpec_bind_splitOnce h).mp hread
    have hrange : byteRange value.bytes = intOrSuffix first last := by
      unfold byteRange
      rw [(strip_bind_splitOnce _).mpr ⟨hbytes hraw, hfirst⟩]
    have honly : (∀ first' last', value.toStr = some (ascii "bytes=" ++ first' ++ 45 :: last') →
        (45 : UInt8) ∉ first' → (44 : UInt8) ∉ first' ++ last' → ¬ Deviates length first' last') ↔
        ¬ Deviates length first last := by
      refine ⟨fun hall => hall first last hraw hfirst hcomma, fun hone first' last' hraw' hf hc => ?_⟩
      have hsame := hread.symm.trans ((rangeSpec_bind_splitOnce h).mpr ⟨hraw', hf, hc⟩)
      cases hsame
      exact hone
    rw [honly]
    unfold Answers
    rw [hrange]
    cases hpair : intOrSuffix first last with
    | none => exact selectPair_eq_ignore hpair
    | some range => exact iff_of_true (selectPair_answers hpair) (not_deviates hpair)
  | none =>
    have hnone : byteRange value.bytes = none := by
      by_contra hne
      obtain ⟨first, last, range, hraw, hfirst, hpair⟩ := exists_of_byteRange hne
      have hdigits := isDigit_of_intOrSuffix hpair
      have hcomma : (44 : UInt8) ∉ first ++ last := fun hmem => absurd (hdigits 44 hmem) (by decide)
      have hvisible : ∀ b ∈ ascii "bytes=" ++ first ++ 45 :: last, isVisible b = true := by
        simp only [List.mem_append, List.mem_cons]
        rintro b ((hb | hb) | rfl | hb)
        · exact (show ∀ b ∈ ascii "bytes=", isVisible b = true by decide +kernel) b hb
        · exact isVisible_of_isDigit (hdigits b (List.mem_append_left _ hb))
        · rfl
        · exact isVisible_of_isDigit (hdigits b (List.mem_append_right _ hb))
      have htext : value.toStr = some (ascii "bytes=" ++ first ++ 45 :: last) := by
        rw [HeaderValue.toStr, hraw, if_pos (List.all_eq_true.mpr hvisible)]
      rw [(rangeSpec_bind_splitOnce h).mpr ⟨htext, hfirst, hcomma⟩] at hread
      cases hread
    unfold Answers
    rw [hnone]
    refine iff_of_true rfl fun first last hraw hf hc => ?_
    rw [(rangeSpec_bind_splitOnce h).mpr ⟨hraw, hf, hc⟩] at hread
    cases hread

end

/-- The header fields of a request with a range. -/
def rangeHeaders (value : HeaderValue) : HeaderMap := Multimap.insert .empty HeaderName.range value

theorem getAll_rangeHeaders (value : HeaderValue) :
    (rangeHeaders value).getAll HeaderName.range = [value] := Multimap.getAll_insert_self

def lastThree : HeaderValue := ⟨ascii "bytes=-3", by decide⟩

theorem parse_range_sample :
    Answers 10 lastThree.bytes (parseRange (rangeHeaders lastThree) 10) := by
  have hget := getAll_rangeHeaders lastThree
  refine (parse_range_iff hget 10).mpr fun first last htext hfirst hcomma => ?_
  have hsplit : (rangeSpec (rangeHeaders lastThree)).bind (splitOnce 45) = some ([], ascii "3") := by
    decide
  rw [(rangeSpec_bind_splitOnce hget).mpr ⟨htext, hfirst, hcomma⟩] at hsplit
  obtain ⟨rfl, rfl⟩ := Prod.mk.inj (Option.some.inj hsplit)
  exact not_deviates (show _ = some (.suffix 3) by decide)

/-- An interval that ends before it begins, past the end of the file, and a number with a sign. -/
theorem parse_range_past_end :
    byteRange (ascii "bytes=7-3") = none ∧
    parseRange (rangeHeaders ⟨ascii "bytes=7-3", by decide⟩) 5 = .unsatisfiable ∧
    byteRange (ascii "bytes=+1-2") = none ∧
    parseRange (rangeHeaders ⟨ascii "bytes=+1-2", by decide⟩) 5 = .range 1 2 := by
  decide

end BasicWebserver.FileServer
