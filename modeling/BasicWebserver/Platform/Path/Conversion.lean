import BasicWebserver.Foundation.Utf16
import BasicWebserver.Foundation.Utf8
import BasicWebserver.Platform.Builtins

/-!
# UTF-8 and UTF-16 in `platform/Path.roc`

The conversions go byte by byte and unit by unit, with the shifts and masks of each length written
out. On the bytes of a character they read exactly its units (`utf8ToUtf16_char`), on its units
exactly its bytes (`utf16ToUtf8_char`), and at a surrogate that is in no pair the strict one stops and
the lossy one goes on with U+FFFD. What the conversions do on whole texts follows from that
(`faithful`), without a fault in any case.
-/

namespace BasicWebserver.Platform.Path

open Ascii Builtin Fallible

abbrev Str := List UInt8

/-! ## The conversions -/

def isHighSurrogate (unit : UInt16) : Bool := 0xD800 ≤ unit && unit ≤ 0xDBFF

def isLowSurrogate (unit : UInt16) : Bool := 0xDC00 ≤ unit && unit ≤ 0xDFFF

def isSurrogate (unit : UInt16) : Bool := 0xD800 ≤ unit && unit ≤ 0xDFFF

section

variable (trap : Bool)

/-- The unit of two bytes, in `utf8_to_utf16`. -/
def twoByteUnit (byte1 byte2 : UInt8) : Except Fault UInt16 := do
  let top ← shlWrap trap (byte1 &&& 0x1F).toNat 6
  let bottom := (byte2 &&& 0x3F).toNat
  let codePoint := top ||| bottom
  toU16Wrap trap codePoint

/-- The unit of three bytes, in `utf8_to_utf16`. -/
def threeByteUnit (byte1 byte2 byte3 : UInt8) : Except Fault UInt16 := do
  let top ← shlWrap trap (byte1 &&& 0x0F).toNat 12
  let middle ← shlWrap trap (byte2 &&& 0x3F).toNat 6
  let bottom := (byte3 &&& 0x3F).toNat
  let codePoint := top ||| middle ||| bottom
  toU16Wrap trap codePoint

/-- The pair of surrogates of four bytes, in `utf8_to_utf16`. -/
def fourByteUnits (byte1 byte2 byte3 byte4 : UInt8) : Except Fault (UInt16 × UInt16) := do
  let top ← shlWrap trap (byte1 &&& 0x07).toNat 18
  let middle1 ← shlWrap trap (byte2 &&& 0x3F).toNat 12
  let middle2 ← shlWrap trap (byte3 &&& 0x3F).toNat 6
  let bottom := (byte4 &&& 0x3F).toNat
  let upper := top ||| middle1 ||| middle2
  let codePoint := upper ||| bottom
  let offset ← sub codePoint 0x10000
  let high ← toU16Wrap trap (← add 0xD800 (offset >>> 10))
  let low ← toU16Wrap trap (← add 0xDC00 (offset &&& 0x3FF))
  return (high, low)

/-- The bytes are read by the length that the first one announces. -/
def utf8ToUtf16 : List UInt8 → List UInt16 → Except Fault (List UInt16)
  | [], out => .ok out
  | byte1 :: rest, out =>
    if byte1 < 0x80 then utf8ToUtf16 rest (out ++ [byte1.toUInt16])
    else match rest with
    | [] => .error (.crash "A Str contained invalid UTF-8. This should never happen.")
    | byte2 :: rest =>
      if byte1 < 0xE0 then
        twoByteUnit trap byte1 byte2 >>= fun unit => utf8ToUtf16 rest (out ++ [unit])
      else match rest with
      | [] => .error (.crash "A Str contained invalid UTF-8. This should never happen.")
      | byte3 :: rest =>
        if byte1 < 0xF0 then
          threeByteUnit trap byte1 byte2 byte3 >>= fun unit => utf8ToUtf16 rest (out ++ [unit])
        else match rest with
        | [] => .error (.crash "A Str contained invalid UTF-8. This should never happen.")
        | byte4 :: rest =>
          fourByteUnits trap byte1 byte2 byte3 byte4 >>= fun units =>
            utf8ToUtf16 rest (out ++ [units.1] ++ [units.2])

def strToUtf16 (str : Str) : Except Fault (List UInt16) := utf8ToUtf16 trap str []

def appendCodePointUtf8 (out : List UInt8) (codePoint : ℕ) : Except Fault (List UInt8) :=
  if codePoint < 0x80 then do
    return out ++ [← toU8Wrap trap codePoint]
  else if codePoint < 0x800 then do
    let byte1 ← toU8Wrap trap (← add 0xC0 (codePoint >>> 6))
    let byte2 ← toU8Wrap trap (← add 0x80 (codePoint &&& 0x3F))
    return out ++ [byte1] ++ [byte2]
  else if codePoint < 0x10000 then do
    let byte1 ← toU8Wrap trap (← add 0xE0 (codePoint >>> 12))
    let byte2 ← toU8Wrap trap (← add 0x80 ((codePoint >>> 6) &&& 0x3F))
    let byte3 ← toU8Wrap trap (← add 0x80 (codePoint &&& 0x3F))
    return out ++ [byte1] ++ [byte2] ++ [byte3]
  else do
    let byte1 ← toU8Wrap trap (← add 0xF0 (codePoint >>> 18))
    let byte2 ← toU8Wrap trap (← add 0x80 ((codePoint >>> 12) &&& 0x3F))
    let byte3 ← toU8Wrap trap (← add 0x80 ((codePoint >>> 6) &&& 0x3F))
    let byte4 ← toU8Wrap trap (← add 0x80 (codePoint &&& 0x3F))
    return out ++ [byte1] ++ [byte2] ++ [byte3] ++ [byte4]

/-- The code point of a pair of surrogates. -/
def pairCodePoint (high low : UInt16) : Except Fault ℕ := do
  let highBits ← shlWrap trap (← sub high.toNat 0xD800) 10
  let lowBits ← sub low.toNat 0xDC00
  add (← add 0x10000 highBits) lowBits

/-- The error is `InvalidUtf16`, with the index of the unit. -/
def utf16ToUtf8 : List UInt16 → List UInt8 → ℕ → Except Fault (Except ℕ (List UInt8))
  | [], out, _ => .ok (.ok out)
  | unit :: rest, out, index =>
    let single :=
      if isSurrogate unit then .ok (.error index)
      else appendCodePointUtf8 trap out unit.toNat >>= fun out => utf16ToUtf8 rest out (index + 1)
    match rest with
    | [] => single
    | low :: rest =>
      if isHighSurrogate unit && isLowSurrogate low then
        pairCodePoint trap unit low >>= fun codePoint =>
          appendCodePointUtf8 trap out codePoint >>= fun out => utf16ToUtf8 rest out (index + 2)
      else single

def utf16ToUtf8LossyHelp : List UInt16 → List UInt8 → Except Fault (List UInt8)
  | [], out => .ok out
  | unit :: rest, out =>
    let single :=
      if isSurrogate unit then
        appendCodePointUtf8 trap out 0xFFFD >>= fun out => utf16ToUtf8LossyHelp rest out
      else appendCodePointUtf8 trap out unit.toNat >>= fun out => utf16ToUtf8LossyHelp rest out
    match rest with
    | [] => single
    | low :: rest =>
      if isHighSurrogate unit && isLowSurrogate low then
        pairCodePoint trap unit low >>= fun codePoint =>
          appendCodePointUtf8 trap out codePoint >>= fun out => utf16ToUtf8LossyHelp rest out
      else single

def utf16ToUtf8Lossy (u16s : List UInt16) : Except Fault (List UInt8) :=
  utf16ToUtf8LossyHelp trap u16s []

/-- The error is `InvalidStr`, with the index of the unit, or of the problem that `from_utf8` finds. -/
def utf16ToStr (badIndex : List UInt8 → ℕ) (u16s : List UInt16) : Except Fault (Except ℕ Str) :=
  (utf16ToUtf8 trap u16s [] 0).map fun result =>
    match result with
    | .ok bytes => fromUtf8 badIndex bytes
    | .error index => .error index

end

/-! ## Bits -/

private theorem and_mask (n k : ℕ) : n &&& (2 ^ k - 1) = n % 2 ^ k := Nat.and_two_pow_sub_one_eq_mod n k

private theorem or_low {a b : ℕ} (k : ℕ) (ha : a % 2 ^ k = 0) (hb : b < 2 ^ k) :
    a ||| b = a + b := by
  have hshift : (a / 2 ^ k) <<< k = a := by
    rw [Nat.shiftLeft_eq, Nat.div_mul_cancel (Nat.dvd_of_mod_eq_zero ha)]
  rw [← hshift, Nat.shiftLeft_add_eq_or_of_lt hb]

private theorem or_three {b c : ℕ} (a : ℕ) (hb : b < 64) (hc : c < 64) :
    a * 2 ^ 12 ||| b * 2 ^ 6 ||| c = a * 4096 + b * 64 + c := by
  have htop : a * 2 ^ 12 ||| b * 2 ^ 6 = a * 2 ^ 12 + b * 2 ^ 6 := or_low 12 (by omega) (by omega)
  rw [htop, or_low 6 (by omega) hc]
  omega

private theorem or_four {b c d : ℕ} (a : ℕ) (hb : b < 64) (hc : c < 64) (hd : d < 64) :
    a * 2 ^ 18 ||| b * 2 ^ 12 ||| c * 2 ^ 6 ||| d = a * 262144 + b * 4096 + c * 64 + d := by
  have htop : a * 2 ^ 18 ||| b * 2 ^ 12 = a * 2 ^ 18 + b * 2 ^ 12 := or_low 18 (by omega) (by omega)
  have hupper : a * 2 ^ 18 + b * 2 ^ 12 ||| c * 2 ^ 6 = a * 2 ^ 18 + b * 2 ^ 12 + c * 2 ^ 6 :=
    or_low 12 (by omega) (by omega)
  rw [htop, hupper, or_low 6 (by omega) hd]
  omega

private theorem shlWrap_eq (trap : Bool) {value : ℕ} (shift : ℕ) (h : value * 2 ^ shift < 2 ^ 32) :
    shlWrap trap value shift = .ok (value * 2 ^ shift) := by
  rw [← Nat.shiftLeft_eq] at h ⊢
  exact shlWrap_of_lt h

section

variable {trap : Bool}

theorem twoByteUnit_eq (byte1 byte2 : UInt8) :
    twoByteUnit trap byte1 byte2 =
      .ok (UInt16.ofNat (byte1.toNat % 32 * 64 + byte2.toNat % 64)) := by
  have h1 : (byte1 &&& 0x1F).toNat = byte1.toNat % 32 := and_mask byte1.toNat 5
  have h2 : (byte2 &&& 0x3F).toNat = byte2.toNat % 64 := and_mask byte2.toNat 6
  unfold twoByteUnit
  rw [h1, h2, shlWrap_eq trap 6 (by omega)]
  show toU16Wrap trap (_ ||| _) = _
  rw [or_low 6 (by omega) (by omega), toU16Wrap_of_lt (by omega)]
  rfl

theorem threeByteUnit_eq (byte1 byte2 byte3 : UInt8) :
    threeByteUnit trap byte1 byte2 byte3 =
      .ok (UInt16.ofNat (byte1.toNat % 16 * 4096 + byte2.toNat % 64 * 64 + byte3.toNat % 64)) := by
  have h1 : (byte1 &&& 0x0F).toNat = byte1.toNat % 16 := and_mask byte1.toNat 4
  have h2 : (byte2 &&& 0x3F).toNat = byte2.toNat % 64 := and_mask byte2.toNat 6
  have h3 : (byte3 &&& 0x3F).toNat = byte3.toNat % 64 := and_mask byte3.toNat 6
  unfold threeByteUnit
  rw [h1, h2, h3, shlWrap_eq trap 12 (by omega), shlWrap_eq trap 6 (by omega)]
  show toU16Wrap trap (_ ||| _ ||| _) = _
  rw [or_three _ (by omega) (by omega), toU16Wrap_of_lt (by omega)]

theorem fourByteUnits_eq (byte1 byte2 byte3 byte4 : UInt8) {offset : ℕ}
    (h : byte1.toNat % 8 * 262144 + byte2.toNat % 64 * 4096 + byte3.toNat % 64 * 64 +
      byte4.toNat % 64 = 0x10000 + offset) :
    fourByteUnits trap byte1 byte2 byte3 byte4 =
      .ok (UInt16.ofNat (0xD800 + offset / 1024), UInt16.ofNat (0xDC00 + offset % 1024)) := by
  have h1 : (byte1 &&& 0x07).toNat = byte1.toNat % 8 := and_mask byte1.toNat 3
  have h2 : (byte2 &&& 0x3F).toNat = byte2.toNat % 64 := and_mask byte2.toNat 6
  have h3 : (byte3 &&& 0x3F).toNat = byte3.toNat % 64 := and_mask byte3.toNat 6
  have h4 : (byte4 &&& 0x3F).toNat = byte4.toNat % 64 := and_mask byte4.toNat 6
  have hhigh : offset >>> 10 = offset / 1024 := Nat.shiftRight_eq_div_pow offset 10
  have hlow : offset &&& 0x3FF = offset % 1024 := and_mask offset 10
  unfold fourByteUnits
  rw [h1, h2, h3, h4, shlWrap_eq trap 18 (by omega), ok_bind, shlWrap_eq trap 12 (by omega), ok_bind,
    shlWrap_eq trap 6 (by omega), ok_bind]
  dsimp only
  rw [or_four _ (by omega) (by omega) (by omega), h, sub_of_le (Nat.le_add_right ..), ok_bind,
    Nat.add_sub_cancel_left, hhigh, hlow, add_of_lt (by omega), ok_bind, toU16Wrap_of_lt (by omega),
    ok_bind, add_of_lt (by omega), ok_bind, toU16Wrap_of_lt (by omega), ok_bind]
  rfl

theorem appendCodePointUtf8_char (out : List UInt8) (c : Char) :
    appendCodePointUtf8 trap out c.toNat = .ok (out ++ String.utf8EncodeChar c) := by
  have hc := Utf16.toNat_char c
  have hand (n : ℕ) : n &&& 0x3F = n % 64 := and_mask n 6
  unfold appendCodePointUtf8 String.utf8EncodeChar
  simp only [show c.val.toNat = c.toNat from rfl, hand, Nat.shiftRight_eq_div_pow]
  generalize c.toNat = n at hc
  by_cases h1 : n < 0x80
  · simp (disch := omega) only [if_pos h1, if_pos, toU8Wrap_of_lt, ok_bind]
    rfl
  by_cases h2 : n < 0x800
  · simp (disch := omega) only [if_neg h1, if_pos h2, if_neg, if_pos, toU8Wrap_of_lt, add_of_lt,
      ok_bind]
    rw [show 0xC0 + n / 2 ^ 6 = n / 64 % 32 + 192 by omega, Nat.add_comm 0x80, List.append_assoc]
    rfl
  by_cases h3 : n < 0x10000
  · simp (disch := omega) only [if_neg h1, if_neg h2, if_pos h3, if_neg, if_pos, toU8Wrap_of_lt,
      add_of_lt, ok_bind]
    rw [show 0xE0 + n / 2 ^ 12 = n / 4096 % 16 + 224 by omega, Nat.add_comm 0x80,
      Nat.add_comm 0x80, List.append_assoc, List.append_assoc]
    rfl
  · simp (disch := omega) only [if_neg h1, if_neg h2, if_neg h3, if_neg, toU8Wrap_of_lt,
      add_of_lt, ok_bind]
    rw [show 0xF0 + n / 2 ^ 18 = n / 262144 % 8 + 240 by omega, Nat.add_comm 0x80,
      Nat.add_comm 0x80, Nat.add_comm 0x80, List.append_assoc, List.append_assoc, List.append_assoc]
    rfl

theorem utf8ToUtf16_one {byte1 : UInt8} (h : byte1.toNat < 0x80) (rest : List UInt8)
    (out : List UInt16) :
    utf8ToUtf16 trap (byte1 :: rest) out = utf8ToUtf16 trap rest (out ++ [byte1.toUInt16]) := by
  rw [utf8ToUtf16.eq_def]
  exact if_pos h

theorem utf8ToUtf16_two {byte1 : UInt8} (h : 0x80 ≤ byte1.toNat ∧ byte1.toNat < 0xE0)
    (byte2 : UInt8) (rest : List UInt8) (out : List UInt16) :
    utf8ToUtf16 trap (byte1 :: byte2 :: rest) out = utf8ToUtf16 trap rest
      (out ++ [UInt16.ofNat (byte1.toNat % 32 * 64 + byte2.toNat % 64)]) := by
  have h80 : ¬byte1 < 0x80 := Nat.not_lt.mpr h.1
  have hE0 : byte1 < 0xE0 := h.2
  rw [utf8ToUtf16.eq_def]
  dsimp only
  rw [if_neg h80, if_pos hE0, twoByteUnit_eq, ok_bind]

theorem utf8ToUtf16_three {byte1 : UInt8} (h : 0xE0 ≤ byte1.toNat ∧ byte1.toNat < 0xF0)
    (byte2 byte3 : UInt8) (rest : List UInt8) (out : List UInt16) :
    utf8ToUtf16 trap (byte1 :: byte2 :: byte3 :: rest) out = utf8ToUtf16 trap rest
      (out ++ [UInt16.ofNat
        (byte1.toNat % 16 * 4096 + byte2.toNat % 64 * 64 + byte3.toNat % 64)]) := by
  have h80 : ¬byte1 < 0x80 := Nat.not_lt.mpr (Nat.le_trans (by decide) h.1)
  have hE0 : ¬byte1 < 0xE0 := Nat.not_lt.mpr h.1
  have hF0 : byte1 < 0xF0 := h.2
  rw [utf8ToUtf16.eq_def]
  dsimp only
  rw [if_neg h80, if_neg hE0, if_pos hF0, threeByteUnit_eq, ok_bind]

theorem utf8ToUtf16_four {byte1 byte2 byte3 byte4 : UInt8} {offset : ℕ} (h : 0xF0 ≤ byte1.toNat)
    (hoffset : byte1.toNat % 8 * 262144 + byte2.toNat % 64 * 4096 + byte3.toNat % 64 * 64 +
      byte4.toNat % 64 = 0x10000 + offset) (rest : List UInt8) (out : List UInt16) :
    utf8ToUtf16 trap (byte1 :: byte2 :: byte3 :: byte4 :: rest) out = utf8ToUtf16 trap rest
      (out ++ [UInt16.ofNat (0xD800 + offset / 1024), UInt16.ofNat (0xDC00 + offset % 1024)]) := by
  have h80 : ¬byte1 < 0x80 := Nat.not_lt.mpr (Nat.le_trans (by decide) h)
  have hE0 : ¬byte1 < 0xE0 := Nat.not_lt.mpr (Nat.le_trans (by decide) h)
  have hF0 : ¬byte1 < 0xF0 := Nat.not_lt.mpr h
  rw [utf8ToUtf16.eq_def]
  dsimp only
  rw [if_neg h80, if_neg hE0, if_neg hF0, fourByteUnits_eq _ _ _ _ hoffset, ok_bind,
    List.append_assoc]
  rfl

private theorem toNat_byte {n : ℕ} (h : n < 256) : (UInt8.ofNat n).toNat = n :=
  UInt8.toNat_ofNat_of_lt' h

theorem utf8ToUtf16_char (c : Char) (rest : List UInt8) (out : List UInt16) :
    utf8ToUtf16 trap (String.utf8EncodeChar c ++ rest) out =
      utf8ToUtf16 trap rest (out ++ Utf16.encodeChar c) := by
  have hc := Utf16.toNat_char c
  unfold String.utf8EncodeChar Utf16.encodeChar
  simp only [show c.val.toNat = c.toNat from rfl]
  generalize c.toNat = n at hc
  by_cases h1 : n < 0x80
  · have hbyte : (UInt8.ofNat n).toNat = n := toNat_byte (by omega)
    have hunit : (UInt8.ofNat n).toUInt16 = UInt16.ofNat n := by
      refine UInt16.toNat_inj.mp ?_
      rw [UInt8.toNat_toUInt16, hbyte]
      exact (UInt16.toNat_ofNat_of_lt' (show n < 65536 by omega)).symm
    rw [if_pos (by omega), if_pos (by omega), List.singleton_append,
      utf8ToUtf16_one (by rw [hbyte]; exact h1), hunit]
  rw [if_neg (show ¬n ≤ 127 by omega)]
  by_cases h2 : n < 0x800
  · rw [if_pos (by omega), if_pos (by omega), List.cons_append, List.singleton_append,
      utf8ToUtf16_two (by rw [toNat_byte (by omega)]; omega), toNat_byte (by omega),
      toNat_byte (by omega), show (n / 64 % 32 + 192) % 32 * 64 + (n % 64 + 128) % 64 = n by omega]
  rw [if_neg (show ¬n ≤ 2047 by omega)]
  by_cases h3 : n < 0x10000
  · rw [if_pos (by omega), if_pos (by omega), List.cons_append, List.cons_append,
      List.singleton_append, utf8ToUtf16_three (by rw [toNat_byte (by omega)]; omega),
      toNat_byte (by omega), toNat_byte (by omega), toNat_byte (by omega),
      show (n / 4096 % 16 + 224) % 16 * 4096 + (n / 64 % 64 + 128) % 64 * 64 +
        (n % 64 + 128) % 64 = n by omega]
  · rw [if_neg (by omega), if_neg (by omega), List.cons_append, List.cons_append,
      List.cons_append, List.singleton_append]
    refine utf8ToUtf16_four (by rw [toNat_byte (by omega)]; omega) ?_ rest out
    rw [toNat_byte (by omega), toNat_byte (by omega), toNat_byte (by omega), toNat_byte (by omega)]
    omega

theorem strToUtf16_encode (chars : List Char) :
    strToUtf16 trap (Utf8.encode chars) = .ok (Utf16.encode chars) := by
  have hgen (out : List UInt16) :
      utf8ToUtf16 trap (Utf8.encode chars) out = .ok (out ++ Utf16.encode chars) := by
    induction chars generalizing out with
    | nil => rw [Utf16.encode_nil, List.append_nil]; rfl
    | cons c chars ih =>
      rw [Utf8.encode_cons, utf8ToUtf16_char, ih, Utf16.encode_cons, List.append_assoc]
  exact hgen []

theorem pairCodePoint_eq {high low : UInt16} (hhigh : Utf16.isHighSurrogate high = true)
    (hlow : Utf16.isLowSurrogate low = true) :
    pairCodePoint trap high low =
      .ok (0x10000 + (high.toNat - 0xD800) * 0x400 + (low.toNat - 0xDC00)) := by
  rw [Utf16.isHighSurrogate_iff] at hhigh
  rw [Utf16.isLowSurrogate_iff] at hlow
  unfold pairCodePoint
  rw [sub_of_le hhigh.1, sub_of_le hlow.1, ok_bind, shlWrap_eq trap 10 (by omega), ok_bind, ok_bind,
    add_of_lt (by omega), ok_bind, add_of_lt (by omega)]
  rfl

theorem isSurrogate_eq (unit : UInt16) :
    isSurrogate unit = (Utf16.isHighSurrogate unit || Utf16.isLowSurrogate unit) := by
  rw [Bool.eq_iff_iff, Bool.or_eq_true, Utf16.isHighSurrogate_iff, Utf16.isLowSurrogate_iff]
  simp only [isSurrogate, Bool.and_eq_true, decide_eq_true_eq, UInt16.le_iff_toNat_le]
  show _ ≤ _ ∧ _ ≤ _ ↔ _
  simp only [UInt16.reduceToNat]
  omega

theorem utf16ToUtf8_cons {unit : UInt16} {rest : List UInt16}
    (h : ¬(Utf16.isHighSurrogate unit = true ∧ rest.head?.any Utf16.isLowSurrogate = true))
    (out : List UInt8) (index : ℕ) :
    utf16ToUtf8 trap (unit :: rest) out index =
      if isSurrogate unit then .ok (.error index)
      else appendCodePointUtf8 trap out unit.toNat >>= fun out =>
        utf16ToUtf8 trap rest out (index + 1) := by
  rw [utf16ToUtf8.eq_def]
  cases rest with
  | nil => rfl
  | cons low rest => exact if_neg fun hpair => h (Bool.and_eq_true_iff.mp hpair)

theorem utf16ToUtf8_pair {high low : UInt16} (hhigh : Utf16.isHighSurrogate high = true)
    (hlow : Utf16.isLowSurrogate low = true) (rest : List UInt16) (out : List UInt8) (index : ℕ) :
    utf16ToUtf8 trap (high :: low :: rest) out index =
      pairCodePoint trap high low >>= fun codePoint =>
        appendCodePointUtf8 trap out codePoint >>= fun out =>
          utf16ToUtf8 trap rest out (index + 2) := by
  rw [utf16ToUtf8.eq_def]
  exact if_pos (Bool.and_eq_true_iff.mpr ⟨hhigh, hlow⟩)

theorem utf16ToUtf8_char (c : Char) (rest : List UInt16) (out : List UInt8) (index : ℕ) :
    utf16ToUtf8 trap (Utf16.encodeChar c ++ rest) out index =
      utf16ToUtf8 trap rest (out ++ String.utf8EncodeChar c)
        (index + (Utf16.encodeChar c).length) := by
  rcases Utf16.encodeChar_cases c with
    ⟨-, unit, hunit, he, hhigh, hlow⟩ | ⟨-, high, low, he, hhigh, hlow, hc⟩
  · have hsurrogate : isSurrogate unit = false := by rw [isSurrogate_eq, hhigh, hlow]; rfl
    rw [he, List.singleton_append, utf16ToUtf8_cons (fun h => absurd h.1 (by simp [hhigh])),
      hsurrogate, if_neg Bool.false_ne_true, hunit, appendCodePointUtf8_char, ok_bind]
    rfl
  · rw [he, List.cons_append, List.singleton_append, utf16ToUtf8_pair hhigh hlow,
      pairCodePoint_eq hhigh hlow, ok_bind, ← hc, appendCodePointUtf8_char, ok_bind]
    rfl

theorem utf16ToUtf8_encode (chars : List Char) (rest : List UInt16) (out : List UInt8)
    (index : ℕ) :
    utf16ToUtf8 trap (Utf16.encode chars ++ rest) out index =
      utf16ToUtf8 trap rest (out ++ Utf8.encode chars)
        (index + (Utf16.encode chars).length) := by
  induction chars generalizing out index with
  | nil => rw [Utf8.encode_nil, List.append_nil]; rfl
  | cons c chars ih =>
    rw [Utf16.encode_cons, List.append_assoc, utf16ToUtf8_char, ih, Utf8.encode_cons,
      List.append_assoc, List.length_append, Nat.add_assoc]

theorem utf16ToUtf8_lone {unit : UInt16} {rest : List UInt16} (h : Utf16.Lone unit rest)
    (out : List UInt8) (index : ℕ) :
    utf16ToUtf8 trap (unit :: rest) out index = .ok (.error index) := by
  have hsurrogate : isSurrogate unit = true := by rw [isSurrogate_eq, Bool.or_eq_true]; exact h.1
  rw [utf16ToUtf8_cons h.2, if_pos hsurrogate]

theorem utf16ToStr_encode (badIndex : List UInt8 → ℕ) (chars : List Char) :
    utf16ToStr trap badIndex (Utf16.encode chars) = .ok (.ok (Utf8.encode chars)) := by
  have h : utf16ToUtf8 trap (Utf16.encode chars ++ []) [] 0 = _ := utf16ToUtf8_encode chars [] [] 0
  rw [List.append_nil, List.nil_append] at h
  unfold utf16ToStr
  rw [h]
  show Except.ok (fromUtf8 badIndex _) = _
  rw [fromUtf8_of_isUtf8 (Utf8.isUtf8_encode chars)]

/-! ## The lossy conversion -/

theorem utf16ToUtf8LossyHelp_cons {unit : UInt16} {rest : List UInt16}
    (h : ¬(Utf16.isHighSurrogate unit = true ∧ rest.head?.any Utf16.isLowSurrogate = true))
    (out : List UInt8) :
    utf16ToUtf8LossyHelp trap (unit :: rest) out =
      if isSurrogate unit then
        appendCodePointUtf8 trap out 0xFFFD >>= fun out => utf16ToUtf8LossyHelp trap rest out
      else
        appendCodePointUtf8 trap out unit.toNat >>= fun out => utf16ToUtf8LossyHelp trap rest out := by
  rw [utf16ToUtf8LossyHelp.eq_def]
  cases rest with
  | nil => rfl
  | cons low rest => exact if_neg fun hpair => h (Bool.and_eq_true_iff.mp hpair)

theorem utf16ToUtf8LossyHelp_pair {high low : UInt16} (hhigh : Utf16.isHighSurrogate high = true)
    (hlow : Utf16.isLowSurrogate low = true) (rest : List UInt16) (out : List UInt8) :
    utf16ToUtf8LossyHelp trap (high :: low :: rest) out =
      pairCodePoint trap high low >>= fun codePoint =>
        appendCodePointUtf8 trap out codePoint >>= fun out =>
          utf16ToUtf8LossyHelp trap rest out := by
  rw [utf16ToUtf8LossyHelp.eq_def]
  exact if_pos (Bool.and_eq_true_iff.mpr ⟨hhigh, hlow⟩)

theorem utf16ToUtf8LossyHelp_char (c : Char) (rest : List UInt16) (out : List UInt8) :
    utf16ToUtf8LossyHelp trap (Utf16.encodeChar c ++ rest) out =
      utf16ToUtf8LossyHelp trap rest (out ++ String.utf8EncodeChar c) := by
  rcases Utf16.encodeChar_cases c with
    ⟨-, unit, hunit, he, hhigh, hlow⟩ | ⟨-, high, low, he, hhigh, hlow, hc⟩
  · have hsurrogate : isSurrogate unit = false := by rw [isSurrogate_eq, hhigh, hlow]; rfl
    rw [he, List.singleton_append, utf16ToUtf8LossyHelp_cons (fun h => absurd h.1 (by simp [hhigh])),
      hsurrogate, if_neg Bool.false_ne_true, hunit, appendCodePointUtf8_char, ok_bind]
  · rw [he, List.cons_append, List.singleton_append, utf16ToUtf8LossyHelp_pair hhigh hlow,
      pairCodePoint_eq hhigh hlow, ok_bind, ← hc, appendCodePointUtf8_char, ok_bind]

theorem utf16ToUtf8LossyHelp_lone {unit : UInt16} {rest : List UInt16} (h : Utf16.Lone unit rest)
    (out : List UInt8) :
    utf16ToUtf8LossyHelp trap (unit :: rest) out =
      utf16ToUtf8LossyHelp trap rest (out ++ String.utf8EncodeChar '\uFFFD') := by
  have hsurrogate : isSurrogate unit = true := by rw [isSurrogate_eq, Bool.or_eq_true]; exact h.1
  rw [utf16ToUtf8LossyHelp_cons h.2, if_pos hsurrogate]
  show (appendCodePointUtf8 trap out (Char.toNat '\uFFFD') >>= _) = _
  rw [appendCodePointUtf8_char, ok_bind]

/-- The lossy conversion is that of the text with U+FFFD in the place of each unpaired surrogate. -/
theorem utf16ToUtf8Lossy_eq (u16s : List UInt16) :
    ∃ chars, Utf16.replaceUnpaired u16s = Utf16.encode chars ∧
      utf16ToUtf8Lossy trap u16s = .ok (Utf8.encode chars) := by
  have hgen : ∃ chars, Utf16.replaceUnpaired u16s = Utf16.encode chars ∧
      ∀ out, utf16ToUtf8LossyHelp trap u16s out = .ok (out ++ Utf8.encode chars) := by
    induction u16s using Utf16.scan with
    | nil => exact ⟨[], rfl, fun out => by rw [Utf8.encode_nil, List.append_nil]; rfl⟩
    | char c rest ih =>
      obtain ⟨chars, hunits, hbytes⟩ := ih
      refine ⟨c :: chars, ?_, fun out => ?_⟩
      · rw [Utf16.replaceUnpaired_encodeChar, hunits, Utf16.encode_cons]
      · rw [utf16ToUtf8LossyHelp_char, hbytes, Utf8.encode_cons, List.append_assoc]
    | lone unit rest h ih =>
      obtain ⟨chars, hunits, hbytes⟩ := ih
      refine ⟨'\uFFFD' :: chars, ?_, fun out => ?_⟩
      · rw [Utf16.replaceUnpaired_lone h, hunits, Utf16.encode_cons]
        rfl
      · rw [utf16ToUtf8LossyHelp_lone h, hbytes, Utf8.encode_cons, List.append_assoc]
  obtain ⟨chars, hunits, hbytes⟩ := hgen
  exact ⟨chars, hunits, hbytes []⟩

end

/-! ## The conversions together -/

/-- What a pair of conversions between UTF-8 texts and UTF-16 units is for. None of them stops. -/
structure Faithful (strToUtf16 : Str → Except Fault (List UInt16))
    (utf16ToUtf8 : List UInt16 → Except Fault (Except ℕ (List UInt8)))
    (utf16ToStr : List UInt16 → Except Fault (Except ℕ Str))
    (utf16ToUtf8Lossy : List UInt16 → Except Fault (List UInt8)) : Prop where
  /-- A text has units without unpaired surrogates, which are taken back to it. -/
  toUtf16 : ∀ s, isUtf8 s → ∃ u16s, strToUtf16 s = .ok u16s ∧
    (∀ i, Utf16.isUnpaired u16s i = false) ∧ utf16ToStr u16s = .ok (.ok s)
  /-- Units without unpaired surrogates have a text, which is taken back to them; for other units
  the error is the index of the first unpaired surrogate. -/
  toStr : ∀ u16s,
    ((∀ i, Utf16.isUnpaired u16s i = false) ∧
      ∃ s, utf16ToStr u16s = .ok (.ok s) ∧ isUtf8 s ∧ strToUtf16 s = .ok u16s) ∨
    ∃ i, Utf16.isUnpaired u16s i = true ∧ (∀ j < i, Utf16.isUnpaired u16s j = false) ∧
      utf16ToStr u16s = .ok (.error i)
  /-- The bytes are a text whenever there are any, so `Str.from_utf8` does not fail. -/
  bytes : ∀ u16s bytes, utf16ToUtf8 u16s = .ok (.ok bytes) → isUtf8 bytes
  /-- The lossy conversion is the strict one of the units with U+FFFD for each unpaired surrogate,
  so of the units themselves if there is none. -/
  lossy : ∀ u16s, ∃ s, utf16ToUtf8Lossy u16s = .ok s ∧
    utf16ToStr (Utf16.replaceUnpaired u16s) = .ok (.ok s) ∧
    ((∀ i, Utf16.isUnpaired u16s i = false) → utf16ToStr u16s = .ok (.ok s))

theorem faithful (trap : Bool) (badIndex : List UInt8 → ℕ) :
    Faithful (strToUtf16 trap) (fun u16s => utf16ToUtf8 trap u16s [] 0)
      (utf16ToStr trap badIndex) (utf16ToUtf8Lossy trap) := by
  have hlone {chars : List Char} {unit : UInt16} {rest : List UInt16} (h : Utf16.Lone unit rest) :
      utf16ToUtf8 trap (Utf16.encode chars ++ unit :: rest) [] 0 =
        .ok (.error (Utf16.encode chars).length) := by
    rw [utf16ToUtf8_encode, utf16ToUtf8_lone h, Nat.zero_add]
  refine ⟨fun s hs => ?_, fun u16s => ?_, fun u16s bytes h => ?_, fun u16s => ?_⟩
  · obtain ⟨chars, rfl⟩ := Utf8.isUtf8_iff.mp hs
    exact ⟨_, strToUtf16_encode chars, Utf16.isUnpaired_encode_eq_false chars,
      utf16ToStr_encode badIndex chars⟩
  · rcases Utf16.encode_or_lone u16s with ⟨chars, rfl⟩ | ⟨chars, unit, rest, rfl, h⟩
    · exact .inl ⟨Utf16.isUnpaired_encode_eq_false chars, _, utf16ToStr_encode badIndex chars,
        Utf8.isUtf8_encode chars, strToUtf16_encode chars⟩
    · obtain ⟨hbefore, hat⟩ := Utf16.isUnpaired_encode chars (unit :: rest)
      refine .inr ⟨(Utf16.encode chars).length, ?_, hbefore, ?_⟩
      · rw [← Nat.add_zero (Utf16.encode chars).length, hat]
        exact (Utf16.isUnpaired_lone h).1
      · unfold utf16ToStr
        rw [hlone h]
        rfl
  · rcases Utf16.encode_or_lone u16s with ⟨chars, rfl⟩ | ⟨chars, unit, rest, rfl, hrest⟩
    · have hchars : utf16ToUtf8 trap (Utf16.encode chars ++ []) [] 0 = _ :=
        utf16ToUtf8_encode chars [] [] 0
      rw [List.append_nil, List.nil_append, h] at hchars
      obtain rfl := Except.ok.inj (Except.ok.inj hchars)
      exact Utf8.isUtf8_encode chars
    · rw [hlone hrest] at h
      cases h
  · obtain ⟨chars, hunits, hbytes⟩ := utf16ToUtf8Lossy_eq u16s
    refine ⟨_, hbytes, ?_, fun hnone => ?_⟩
    · rw [hunits, utf16ToStr_encode]
    · rw [Utf16.replaceUnpaired_eq_self hnone] at hunits
      rw [hunits, utf16ToStr_encode]

end BasicWebserver.Platform.Path
