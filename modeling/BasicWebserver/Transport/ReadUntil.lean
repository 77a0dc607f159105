import BasicWebserver.Foundation.Input

/-!
# Delimited reads

`read_until_from_bufread` of `src/tcp.rs`: it collects what is buffered up to a delimiter, fill after
fill, and stops at a limit. What it returns and what it leaves for the next call depend on the bytes
of the stream only, not on how they are divided into fills (`readUntilFromBufread_spec`); successive
calls return the lines of the stream (`readLines_eq`).
-/

namespace BasicWebserver.Transport

open Input

abbrev Bytes := List UInt8

inductive ReadUntilError (ε : Type)
  | io (error : ε)
  | tooLarge
  deriving DecidableEq

variable {ε : Type}

/-- The stream with so many of the buffered bytes taken. -/
def consume (count : ℕ) : Source ε UInt8 → Source ε UInt8
  | .chunk first rest :: source => put ((first :: rest).drop count) source
  | source => source

/-- What a turn of the loop does with the bytes that are buffered. -/
inductive Turn
  | tooLarge (used : ℕ)
  | again (buffer : Bytes) (used : ℕ)
  | done (buffer : Bytes) (used : ℕ)

def turn (delim : UInt8) (maxBytes : ℕ) (available buffer : Bytes) : Turn :=
  let wanted := (available.findIdx? (· = delim)).elim available.length (· + 1)
  let remaining := maxBytes - buffer.length
  if wanted > remaining then .tooLarge remaining
  else
    let buffer := buffer ++ available.take wanted
    if wanted ≠ available.length ∨ available.getLast? = some delim ∨ wanted = 0 then .done buffer wanted
    else .again buffer wanted

/-- The loop. A turn that goes on has taken all that was buffered. -/
def readUntilLoop (delim : UInt8) (maxBytes : ℕ) :
    Source ε UInt8 → Bytes → Except (ReadUntilError ε) Bytes × Source ε UInt8
  | .pause :: source, buffer => readUntilLoop delim maxBytes source buffer
  | .failed error :: source, _ => (.error (.io error), source)
  | .chunk first rest :: source, buffer =>
    match turn delim maxBytes (first :: rest) buffer with
    | .tooLarge used => (.error .tooLarge, consume used (.chunk first rest :: source))
    | .done buffer used => (.ok buffer, consume used (.chunk first rest :: source))
    | .again buffer _ => readUntilLoop delim maxBytes source buffer
  | [], buffer =>
    -- at the end of the stream nothing is buffered
    match turn delim maxBytes [] buffer with
    | .tooLarge _ => (.error .tooLarge, [])
    | .done buffer _ | .again buffer _ => (.ok buffer, [])

def readUntilFromBufread (delim : UInt8) (maxBytes : ℕ) (stream : Source ε UInt8) :
    Except (ReadUntilError ε) Bytes × Source ε UInt8 :=
  readUntilLoop delim maxBytes stream []

/-! ## One line -/

/-- The bytes up to and including the first delimiter, or all of them. -/
def line (delim : UInt8) : Bytes → Bytes
  | [] => []
  | byte :: bytes => if byte = delim then [byte] else byte :: line delim bytes

variable {delim : UInt8} {maxBytes : ℕ} {available buffer : Bytes}

@[simp] theorem line_nil (delim : UInt8) : line delim [] = [] := rfl

theorem line_append_of_mem (h : delim ∈ available) (bytes : Bytes) :
    line delim (available ++ bytes) = line delim available := by
  induction available with
  | nil => cases h
  | cons byte available ih =>
    rw [List.cons_append, line, line]
    split_ifs with hbyte
    · rfl
    · rw [ih ((List.mem_cons.mp h).resolve_left (Ne.symm hbyte))]

theorem line_append_of_notMem (h : delim ∉ available) (bytes : Bytes) :
    line delim (available ++ bytes) = available ++ line delim bytes := by
  induction available with
  | nil => rfl
  | cons byte available ih =>
    obtain ⟨hbyte, h⟩ := not_or.mp (mt List.mem_cons.mpr h)
    rw [List.cons_append, line, if_neg (Ne.symm hbyte), ih h, List.cons_append]

theorem line_of_notMem (h : delim ∉ available) : line delim available = available := by
  have happend := line_append_of_notMem h []
  rwa [List.append_nil, line, List.append_nil] at happend

theorem line_prefix (delim : UInt8) (bytes : Bytes) : ∃ rest, bytes = line delim bytes ++ rest := by
  induction bytes with
  | nil => exact ⟨[], rfl⟩
  | cons byte bytes ih =>
    obtain ⟨rest, hrest⟩ := ih
    rw [line]
    split_ifs with hbyte
    · exact ⟨bytes, rfl⟩
    · exact ⟨rest, by rw [List.cons_append, ← hrest]⟩

theorem wanted_eq (delim : UInt8) (available : Bytes) :
    (available.findIdx? (· = delim)).elim available.length (· + 1) = (line delim available).length := by
  induction available with
  | nil => rfl
  | cons byte available ih =>
    rw [List.findIdx?_cons, line]
    split_ifs with hbyte hbyte' hbyte'
    · rfl
    · exact absurd (of_decide_eq_true hbyte) hbyte'
    · exact absurd (decide_eq_true hbyte') hbyte
    · refine Eq.trans ?_ (congrArg (· + 1) ih)
      cases available.findIdx? (· = delim) <;> rfl

theorem take_line (delim : UInt8) (available : Bytes) :
    available.take (line delim available).length = line delim available := by
  obtain ⟨rest, hrest⟩ := line_prefix delim available
  have htake : (line delim available ++ rest).take (line delim available).length = line delim available :=
    List.take_left
  rwa [← hrest] at htake

theorem getLast?_line (h : delim ∈ available) : (line delim available).getLast? = some delim := by
  induction available with
  | nil => cases h
  | cons byte available ih =>
    rw [line]
    split_ifs with hbyte
    · rw [hbyte]
      rfl
    · rw [List.getLast?_cons, ih ((List.mem_cons.mp h).resolve_left (Ne.symm hbyte))]
      rfl

theorem length_line_le (delim : UInt8) (bytes : Bytes) : (line delim bytes).length ≤ bytes.length := by
  rw [← take_line, List.length_take]
  exact Nat.min_le_right _ _

theorem done_iff (hne : available ≠ []) :
    ((line delim available).length ≠ available.length ∨ available.getLast? = some delim ∨
      (line delim available).length = 0) ↔ delim ∈ available := by
  constructor
  · rintro (hlength | hlast | hzero)
    · by_contra hmem
      exact hlength (by rw [line_of_notMem hmem])
    · exact List.mem_of_getLast? hlast
    · by_contra hmem
      rw [line_of_notMem hmem, List.length_eq_zero_iff] at hzero
      exact hne hzero
  · intro hmem
    by_cases hlength : (line delim available).length = available.length
    · refine .inr (.inl ?_)
      have htake := take_line delim available
      rw [hlength, List.take_length] at htake
      rw [htake]
      exact getLast?_line hmem
    · exact .inl hlength

theorem turn_eq (delim : UInt8) (maxBytes : ℕ) (available buffer : Bytes) :
    turn delim maxBytes available buffer =
      if maxBytes - buffer.length < (line delim available).length then .tooLarge (maxBytes - buffer.length)
      else if (line delim available).length ≠ available.length ∨ available.getLast? = some delim ∨
          (line delim available).length = 0 then
        .done (buffer ++ line delim available) (line delim available).length
      else .again (buffer ++ line delim available) (line delim available).length := by
  unfold turn
  rw [wanted_eq]
  dsimp only
  rw [take_line]

theorem turn_done (h : (line delim available).length ≤ maxBytes - buffer.length)
    (hmem : delim ∈ available) :
    turn delim maxBytes available buffer =
      .done (buffer ++ line delim available) (line delim available).length := by
  rw [turn_eq, if_neg (Nat.not_lt.mpr h), if_pos ((done_iff (List.ne_nil_of_mem hmem)).mpr hmem)]

theorem turn_again (h : (line delim available).length ≤ maxBytes - buffer.length) (hne : available ≠ [])
    (hmem : delim ∉ available) :
    turn delim maxBytes available buffer = .again (buffer ++ available) available.length := by
  rw [turn_eq, if_neg (Nat.not_lt.mpr h), if_neg (mt (done_iff hne).mp hmem), line_of_notMem hmem]

theorem turn_nil (delim : UInt8) (maxBytes : ℕ) (buffer : Bytes) :
    turn delim maxBytes [] buffer = .done buffer 0 := by
  rw [turn_eq, line_nil, List.length_nil, if_neg (Nat.not_lt_zero _), if_pos (.inr (.inr rfl)),
    List.append_nil]

/-! ## The loop -/

theorem contents_consume (count : ℕ) (first : UInt8) (rest : Bytes) (source : Source ε UInt8) :
    contents (consume count (.chunk first rest :: source)) =
      (first :: rest).drop count ++ contents source := contents_put _

/-- The loop, once the given bytes are collected: with `p` the line that is to come, it returns them
and `p` if they are within the limit, and it takes `p` or what is left of the limit. -/
theorem readUntilLoop_spec {source : Source ε UInt8} (hclean : Clean source)
    (hbuffer : buffer.length ≤ maxBytes) :
    (readUntilLoop delim maxBytes source buffer).1 =
        (if buffer.length + (line delim (contents source)).length ≤ maxBytes then
          .ok (buffer ++ line delim (contents source))
        else .error .tooLarge) ∧
      contents (readUntilLoop delim maxBytes source buffer).2 = (contents source).drop
        (min (line delim (contents source)).length (maxBytes - buffer.length)) ∧
      Clean (readUntilLoop delim maxBytes source buffer).2 := by
  induction source generalizing buffer with
  | nil =>
    have hnil : readUntilLoop delim maxBytes ([] : Source ε UInt8) buffer = (.ok buffer, []) := by
      rw [readUntilLoop, turn_nil]
    rw [hnil]
    refine ⟨?_, rfl, clean_nil⟩
    rw [contents_nil, line_nil, List.append_nil, List.length_nil, Nat.add_zero, if_pos hbuffer]
  | cons event source ih =>
    cases event with
    | pause => exact ih hclean.tail hbuffer
    | failed error => exact absurd List.mem_cons_self (hclean error)
    | chunk first rest =>
      rw [readUntilLoop.eq_def]
      dsimp only
      rw [contents_chunk]
      have hne : first :: rest ≠ [] := List.cons_ne_nil first rest
      generalize hchunk : first :: rest = available at hne
      have hconsume : ∀ count ≤ available.length, contents (consume count (.chunk first rest :: source)) =
          (available ++ contents source).drop count := by
        intro count hcount
        rw [contents_consume, hchunk, List.drop_append_of_le_length hcount]
      have hclean' : ∀ count, Clean (consume count (.chunk first rest :: source)) :=
        fun count => hclean.tail.put
      have hle := length_line_le delim available
      by_cases hlarge : maxBytes - buffer.length < (line delim available).length
      · -- the limit is in this chunk
        have hlonger : (line delim available).length ≤ (line delim (available ++ contents source)).length := by
          by_cases hmem : delim ∈ available
          · exact Nat.le_of_eq (by rw [line_append_of_mem hmem])
          · rw [line_append_of_notMem hmem, line_of_notMem hmem, List.length_append]
            omega
        rw [turn_eq, if_pos hlarge]
        refine ⟨(if_neg (by omega)).symm, ?_, hclean' _⟩
        rw [hconsume _ (by omega), Nat.min_eq_right (by omega)]
      have hlarge := Nat.le_of_not_lt hlarge
      by_cases hmem : delim ∈ available
      · rw [turn_done hlarge hmem, line_append_of_mem hmem]
        refine ⟨(if_pos (by omega)).symm, ?_, hclean' _⟩
        rw [hconsume _ hle, Nat.min_eq_left hlarge]
      · -- the chunk is taken whole, and the line goes on
        rw [turn_again hlarge hne hmem]
        rw [line_of_notMem hmem] at hlarge
        have hlength : (buffer ++ available).length = buffer.length + available.length := List.length_append
        obtain ⟨hresult, hrest, hclean''⟩ := @ih (buffer ++ available) hclean.tail (by omega)
        rw [line_append_of_notMem hmem, List.length_append]
        refine ⟨?_, ?_, hclean''⟩
        · rw [hresult, hlength, List.append_assoc, Nat.add_assoc]
        · rw [hrest, hlength]
          have hmin : min (available.length + (line delim (contents source)).length)
              (maxBytes - buffer.length) = available.length +
                min (line delim (contents source)).length (maxBytes - (buffer.length + available.length)) := by
            omega
          rw [hmin, ← List.drop_drop, List.drop_left]

/-! ## Successive calls -/

def readLines (delim : UInt8) (maxBytes : ℕ) :
    ℕ → Source ε UInt8 → List (Except (ReadUntilError ε) Bytes)
  | 0, _ => []
  | n + 1, stream =>
    (readUntilFromBufread delim maxBytes stream).1 ::
      readLines delim maxBytes n (readUntilFromBufread delim maxBytes stream).2

/-- The stream, split after its delimiters. -/
def splitLines (delim : UInt8) : Bytes → List Bytes
  | [] => []
  | byte :: bytes =>
    if byte = delim then [byte] :: splitLines delim bytes
    else match splitLines delim bytes with
      | [] => [[byte]]
      | first :: lines => (byte :: first) :: lines

theorem splitLines_eq {bytes : Bytes} (hne : bytes ≠ []) :
    splitLines delim bytes =
      line delim bytes :: splitLines delim (bytes.drop (line delim bytes).length) := by
  induction bytes with
  | nil => exact absurd rfl hne
  | cons byte bytes ih =>
    rw [splitLines, line]
    split_ifs with hbyte
    · rfl
    · rw [List.length_cons, List.drop_succ_cons]
      by_cases hnil : bytes = []
      · rw [hnil]
        rfl
      · rw [ih hnil]

theorem readUntilFromBufread_spec {stream : Source ε UInt8} (hclean : Clean stream) :
    (readUntilFromBufread delim maxBytes stream).1 =
        (if (line delim (contents stream)).length ≤ maxBytes then .ok (line delim (contents stream))
        else .error .tooLarge) ∧
      contents (readUntilFromBufread delim maxBytes stream).2 =
        (contents stream).drop (min (line delim (contents stream)).length maxBytes) ∧
      Clean (readUntilFromBufread delim maxBytes stream).2 := by
  have hspec := @readUntilLoop_spec ε delim maxBytes [] stream hclean (Nat.zero_le maxBytes)
  rwa [List.length_nil, Nat.zero_add, List.nil_append, Nat.sub_zero] at hspec

theorem readLines_eq {stream : Source ε UInt8} (hclean : Clean stream)
    (hlines : ∀ l ∈ splitLines delim (contents stream), l.length ≤ maxBytes) :
    readLines delim maxBytes (splitLines delim (contents stream)).length stream =
      (splitLines delim (contents stream)).map .ok := by
  generalize hn : (splitLines delim (contents stream)).length = n
  induction n generalizing stream with
  | zero => rw [List.length_eq_zero_iff.mp hn]; rfl
  | succ n ih =>
    have hne : contents stream ≠ [] := by
      intro hnil
      rw [hnil] at hn
      cases hn
    obtain ⟨hresult, hrest, hclean'⟩ := @readUntilFromBufread_spec ε delim maxBytes stream hclean
    rw [splitLines_eq hne] at hn hlines ⊢
    obtain ⟨hfirst, hlines⟩ := List.forall_mem_cons.mp hlines
    rw [Nat.min_eq_left hfirst] at hrest
    rw [← hrest] at hn hlines ⊢
    rw [readLines, hresult, if_pos hfirst, List.map_cons, ih hclean' hlines (Nat.succ.inj hn)]

/-- **Delimited reads.** A call returns the line that the stream begins with if it is within the limit,
and takes exactly it; otherwise it takes exactly the limit. Neither depends on the chunks, and
successive calls return the lines of the stream. -/
theorem read_until_delimited {stream : Source ε UInt8} (hclean : Clean stream) (delim : UInt8)
    (maxBytes : ℕ) :
    ((line delim (contents stream)).length ≤ maxBytes →
      (readUntilFromBufread delim maxBytes stream).1 = .ok (line delim (contents stream)) ∧
      contents stream =
        line delim (contents stream) ++ contents (readUntilFromBufread delim maxBytes stream).2) ∧
    (maxBytes < (line delim (contents stream)).length →
      (readUntilFromBufread delim maxBytes stream).1 = .error .tooLarge ∧
      contents (readUntilFromBufread delim maxBytes stream).2 = (contents stream).drop maxBytes) ∧
    (∀ stream' : Source ε UInt8, Clean stream' → contents stream' = contents stream →
      (readUntilFromBufread delim maxBytes stream').1 = (readUntilFromBufread delim maxBytes stream).1 ∧
      contents (readUntilFromBufread delim maxBytes stream').2 =
        contents (readUntilFromBufread delim maxBytes stream).2) ∧
    ((∀ l ∈ splitLines delim (contents stream), l.length ≤ maxBytes) →
      readLines delim maxBytes (splitLines delim (contents stream)).length stream =
        (splitLines delim (contents stream)).map .ok) := by
  obtain ⟨hresult, hrest, -⟩ := @readUntilFromBufread_spec ε delim maxBytes stream hclean
  refine ⟨fun hle => ⟨?_, ?_⟩, fun hlt => ⟨?_, ?_⟩, fun stream' hclean' hcontents => ?_, readLines_eq hclean⟩
  · rw [hresult, if_pos hle]
  · rw [hrest, Nat.min_eq_left hle]
    conv_lhs => rw [← List.take_append_drop (line delim (contents stream)).length (contents stream)]
    rw [take_line]
  · rw [hresult, if_neg (Nat.not_le.mpr hlt)]
  · rw [hrest, Nat.min_eq_right (Nat.le_of_lt hlt)]
  · obtain ⟨hresult', hrest', -⟩ :=
      @readUntilFromBufread_spec ε delim maxBytes stream' hclean'
    rw [hresult, hrest, hresult', hrest', hcontents]
    exact ⟨rfl, rfl⟩

/-- Two lines, in two chunks with an interrupted fill between them. -/
theorem read_until_delimited_chunks :
    readLines 10 3 2 [.chunk 97 [], .pause, .chunk 10 [98], (.chunk 10 [] : Event Empty UInt8)] =
      [.ok [97, 10], .ok [98, 10]] := by
  have hclean : Clean [.chunk 97 [], .pause, .chunk 10 [98], (.chunk 10 [] : Event Empty UInt8)] :=
    fun error => error.elim
  exact (read_until_delimited hclean 10 3).2.2.2 (by decide)

end BasicWebserver.Transport
