import BasicWebserver.Platform.Path.Conversion

/-!
# UTF-8 and UTF-16 in `platform/OsStr.roc`

The module has its own copy of the conversions of `platform/Path.roc`. The two agree on every input,
also on bytes that are no text (`utf8ToUtf16_eq`), so what holds for one holds for the other
(`conversions_faithful`).
-/

namespace BasicWebserver.Platform.OsStr

open Ascii Builtin Fallible

abbrev Str := List UInt8

/-! ## The conversions -/

def isHighSurrogate (unit : UInt16) : Bool := 0xD800 ≤ unit && unit ≤ 0xDBFF

def isLowSurrogate (unit : UInt16) : Bool := 0xDC00 ≤ unit && unit ≤ 0xDFFF

def isSurrogate (unit : UInt16) : Bool := 0xD800 ≤ unit && unit ≤ 0xDFFF

section

variable (trap : Bool)

/-- The unit of two bytes, in `utf8_to_utf16`. -/
def twoByteUnit (byte1 byte2 : UInt8) : Except Fault UInt16 := do
  let top ← shlWrap trap (byte1 &&& 0x1F).toNat 6
  let bottom := (byte2 &&& 0x3F).toNat
  toU16Wrap trap (top ||| bottom)

/-- The unit of three bytes, in `utf8_to_utf16`. -/
def threeByteUnit (byte1 byte2 byte3 : UInt8) : Except Fault UInt16 := do
  let top ← shlWrap trap (byte1 &&& 0x0F).toNat 12
  let middle ← shlWrap trap (byte2 &&& 0x3F).toNat 6
  let bottom := (byte3 &&& 0x3F).toNat
  let codePoint := top ||| middle ||| bottom
  toU16Wrap trap codePoint

/-- The pair of surrogates of four bytes, in `utf8_to_utf16`. -/
def fourByteUnits (byte1 byte2 byte3 byte4 : UInt8) : Except Fault (UInt16 × UInt16) := do
  let top ← shlWrap trap (byte1 &&& 0x07).toNat 18
  let middle1 ← shlWrap trap (byte2 &&& 0x3F).toNat 12
  let middle2 ← shlWrap trap (byte3 &&& 0x3F).toNat 6
  let bottom := (byte4 &&& 0x3F).toNat
  let codePoint := top ||| middle1 ||| middle2 ||| bottom
  let offset ← sub codePoint 0x10000
  let high ← toU16Wrap trap (← add 0xD800 (offset >>> 10))
  let low ← toU16Wrap trap (← add 0xDC00 (offset &&& 0x3FF))
  return (high, low)

/-- The bytes are read by the length that the first one announces. -/
def utf8ToUtf16 : List UInt8 → List UInt16 → Except Fault (List UInt16)
  | [], out => .ok out
  | byte1 :: rest, out =>
    if byte1 < 0x80 then utf8ToUtf16 rest (out ++ [byte1.toUInt16])
    else match rest with
    | [] => .error (.crash "A Str contained invalid UTF-8. This should never happen.")
    | byte2 :: rest =>
      if byte1 < 0xE0 then
        twoByteUnit trap byte1 byte2 >>= fun unit => utf8ToUtf16 rest (out ++ [unit])
      else match rest with
      | [] => .error (.crash "A Str contained invalid UTF-8. This should never happen.")
      | byte3 :: rest =>
        if byte1 < 0xF0 then
          threeByteUnit trap byte1 byte2 byte3 >>= fun unit => utf8ToUtf16 rest (out ++ [unit])
        else match rest with
        | [] => .error (.crash "A Str contained invalid UTF-8. This should never happen.")
        | byte4 :: rest =>
          fourByteUnits trap byte1 byte2 byte3 byte4 >>= fun units =>
            utf8ToUtf16 rest (out ++ [units.1] ++ [units.2])

def strToUtf16 (str : Str) : Except Fault (List UInt16) := utf8ToUtf16 trap str []

def appendCodePointUtf8 (out : List UInt8) (codePoint : ℕ) : Except Fault (List UInt8) :=
  if codePoint < 0x80 then do
    return out ++ [← toU8Wrap trap codePoint]
  else if codePoint < 0x800 then do
    let byte1 ← toU8Wrap trap (← add 0xC0 (codePoint >>> 6))
    let byte2 ← toU8Wrap trap (← add 0x80 (codePoint &&& 0x3F))
    return out ++ [byte1] ++ [byte2]
  else if codePoint < 0x10000 then do
    let byte1 ← toU8Wrap trap (← add 0xE0 (codePoint >>> 12))
    let byte2 ← toU8Wrap trap (← add 0x80 ((codePoint >>> 6) &&& 0x3F))
    let byte3 ← toU8Wrap trap (← add 0x80 (codePoint &&& 0x3F))
    return out ++ [byte1] ++ [byte2] ++ [byte3]
  else do
    let byte1 ← toU8Wrap trap (← add 0xF0 (codePoint >>> 18))
    let byte2 ← toU8Wrap trap (← add 0x80 ((codePoint >>> 12) &&& 0x3F))
    let byte3 ← toU8Wrap trap (← add 0x80 ((codePoint >>> 6) &&& 0x3F))
    let byte4 ← toU8Wrap trap (← add 0x80 (codePoint &&& 0x3F))
    return out ++ [byte1] ++ [byte2] ++ [byte3] ++ [byte4]

/-- The code point of a pair of surrogates. -/
def pairCodePoint (high low : UInt16) : Except Fault ℕ := do
  let highBits ← shlWrap trap (← sub high.toNat 0xD800) 10
  let lowBits ← sub low.toNat 0xDC00
  add (← add 0x10000 highBits) lowBits

/-- The error is `InvalidUtf16`, with the index of the unit. -/
def utf16ToUtf8 : List UInt16 → List UInt8 → ℕ → Except Fault (Except ℕ (List UInt8))
  | [], out, _ => .ok (.ok out)
  | unit :: rest, out, index =>
    let single :=
      if isSurrogate unit then .ok (.error index)
      else appendCodePointUtf8 trap out unit.toNat >>= fun out => utf16ToUtf8 rest out (index + 1)
    match rest with
    | [] => single
    | low :: rest =>
      if isHighSurrogate unit && isLowSurrogate low then
        pairCodePoint trap unit low >>= fun codePoint =>
          appendCodePointUtf8 trap out codePoint >>= fun out => utf16ToUtf8 rest out (index + 2)
      else single

def utf16ToUtf8LossyHelp : List UInt16 → List UInt8 → Except Fault (List UInt8)
  | [], out => .ok out
  | unit :: rest, out =>
    let single :=
      if isSurrogate unit then
        appendCodePointUtf8 trap out 0xFFFD >>= fun out => utf16ToUtf8LossyHelp rest out
      else appendCodePointUtf8 trap out unit.toNat >>= fun out => utf16ToUtf8LossyHelp rest out
    match rest with
    | [] => single
    | low :: rest =>
      if isHighSurrogate unit && isLowSurrogate low then
        pairCodePoint trap unit low >>= fun codePoint =>
          appendCodePointUtf8 trap out codePoint >>= fun out => utf16ToUtf8LossyHelp rest out
      else single

def utf16ToUtf8Lossy (u16s : List UInt16) : Except Fault (List UInt8) :=
  utf16ToUtf8LossyHelp trap u16s []

/-- The error is `InvalidStr`, with the index of the unit, or of the problem that `from_utf8` finds. -/
def utf16ToStr (badIndex : List UInt8 → ℕ) (u16s : List UInt16) : Except Fault (Except ℕ Str) :=
  (utf16ToUtf8 trap u16s [] 0).map fun result =>
    match result with
    | .ok bytes => fromUtf8 badIndex bytes
    | .error index => .error index

end

/-! ## The two copies -/

section

variable {trap : Bool}

theorem utf8ToUtf16_eq (bytes : List UInt8) (out : List UInt16) :
    utf8ToUtf16 trap bytes out = Path.utf8ToUtf16 trap bytes out := by
  fun_induction Path.utf8ToUtf16 trap bytes out with
  | case1 => rfl
  | case2 byte1 rest out h ih =>
    rw [utf8ToUtf16.eq_def]
    exact (if_pos h).trans ih
  | case3 byte1 out h =>
    rw [utf8ToUtf16.eq_def]
    exact if_neg h
  | case4 byte1 out h byte2 rest h' ih =>
    rw [utf8ToUtf16.eq_def]
    exact (if_neg h).trans ((if_pos h').trans (bind_congr ih))
  | case5 byte1 out h byte2 h' =>
    rw [utf8ToUtf16.eq_def]
    exact (if_neg h).trans (if_neg h')
  | case6 byte1 out h byte2 h' byte3 rest h'' ih =>
    rw [utf8ToUtf16.eq_def]
    exact (if_neg h).trans ((if_neg h').trans ((if_pos h'').trans (bind_congr ih)))
  | case7 byte1 out h byte2 h' byte3 h'' =>
    rw [utf8ToUtf16.eq_def]
    exact (if_neg h).trans ((if_neg h').trans (if_neg h''))
  | case8 byte1 out h byte2 h' byte3 h'' byte4 rest ih =>
    rw [utf8ToUtf16.eq_def]
    exact (if_neg h).trans ((if_neg h').trans ((if_neg h'').trans (bind_congr ih)))

theorem utf16ToUtf8_eq (u16s : List UInt16) (out : List UInt8) (index : ℕ) :
    utf16ToUtf8 trap u16s out index = Path.utf16ToUtf8 trap u16s out index := by
  fun_induction Path.utf16ToUtf8 trap u16s out index with
  | case1 => rfl
  | case2 unit out index single ih =>
    rw [utf16ToUtf8.eq_def]
    exact congrArg (ite _ _) (bind_congr ih)
  | case3 high out index low rest h _ ih =>
    rw [utf16ToUtf8.eq_def]
    exact (if_pos h).trans (bind_congr fun _ => bind_congr ih)
  | case4 unit out index low rest h single ih =>
    rw [utf16ToUtf8.eq_def]
    exact (if_neg h).trans (congrArg (ite _ _) (bind_congr ih))

theorem strToUtf16_eq (str : Str) : strToUtf16 trap str = Path.strToUtf16 trap str :=
  utf8ToUtf16_eq str []

theorem utf16ToStr_eq (badIndex : List UInt8 → ℕ) (u16s : List UInt16) :
    utf16ToStr trap badIndex u16s = Path.utf16ToStr trap badIndex u16s :=
  congrArg (Except.map _) (utf16ToUtf8_eq u16s [] 0)

theorem utf16ToUtf8LossyHelp_eq (u16s : List UInt16) (out : List UInt8) :
    utf16ToUtf8LossyHelp trap u16s out = Path.utf16ToUtf8LossyHelp trap u16s out := by
  fun_induction Path.utf16ToUtf8LossyHelp trap u16s out with
  | case1 => rfl
  | case2 unit out single ih =>
    rw [utf16ToUtf8LossyHelp.eq_def]
    exact congrArg₂ (ite _) (bind_congr ih) (bind_congr ih)
  | case3 high out low rest h _ ih =>
    rw [utf16ToUtf8LossyHelp.eq_def]
    exact (if_pos h).trans (bind_congr fun _ => bind_congr ih)
  | case4 unit out low rest h single ih =>
    rw [utf16ToUtf8LossyHelp.eq_def]
    exact (if_neg h).trans (congrArg₂ (ite _) (bind_congr ih) (bind_congr ih))

end

/-- **UTF-8 and UTF-16.** Both copies of the conversions take texts to units and back, refuse units
at the first unpaired surrogate, and replace the unpaired ones in the lossy conversion. They agree on
every input. None of this changes when a wrap-around is a fault, so there is none, and no other one. -/
theorem conversions_faithful (trap : Bool) (badIndex : List UInt8 → ℕ) :
    Path.Faithful (Path.strToUtf16 trap) (fun u16s => Path.utf16ToUtf8 trap u16s [] 0)
        (Path.utf16ToStr trap badIndex) (Path.utf16ToUtf8Lossy trap) ∧
      Path.Faithful (strToUtf16 trap) (fun u16s => utf16ToUtf8 trap u16s [] 0)
        (utf16ToStr trap badIndex) (utf16ToUtf8Lossy trap) ∧
      (∀ bytes, strToUtf16 trap bytes = Path.strToUtf16 trap bytes) ∧
      ∀ u16s, utf16ToStr trap badIndex u16s = Path.utf16ToStr trap badIndex u16s ∧
        utf16ToUtf8Lossy trap u16s = Path.utf16ToUtf8Lossy trap u16s := by
  have hunits : strToUtf16 trap = Path.strToUtf16 trap := funext strToUtf16_eq
  have hbytes : (fun u16s => utf16ToUtf8 trap u16s [] 0) = fun u16s =>
      Path.utf16ToUtf8 trap u16s [] 0 := funext fun u16s => utf16ToUtf8_eq u16s [] 0
  have hstr : utf16ToStr trap badIndex = Path.utf16ToStr trap badIndex :=
    funext (utf16ToStr_eq badIndex)
  have hlossy : utf16ToUtf8Lossy trap = Path.utf16ToUtf8Lossy trap :=
    funext fun u16s => utf16ToUtf8LossyHelp_eq u16s []
  rw [hunits, hbytes, hstr, hlossy]
  exact ⟨Path.faithful trap badIndex, Path.faithful trap badIndex, fun _ => rfl, fun _ => ⟨rfl, rfl⟩⟩

end BasicWebserver.Platform.OsStr
