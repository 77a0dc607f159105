import BasicWebserver.Foundation.Marks
import Mathlib.Data.Nat.Notation

/-!
# UTF-16 texts

A character is one unit or a pair of surrogates. In a list of units a surrogate is unpaired if it
is not half of such a pair, which can be seen from its neighbours (`isUnpaired`). Every list of units
is a sequence of characters and unpaired surrogates (`scan`), and the unpaired ones are those at the
places the neighbours tell (`isUnpaired_encodeChar`, `isUnpaired_lone`). Up to the first one the
units are a text (`encode_or_lone`).
-/

namespace Utf16

def isHighSurrogate (unit : UInt16) : Bool := 0xD800 ≤ unit && unit ≤ 0xDBFF

def isLowSurrogate (unit : UInt16) : Bool := 0xDC00 ≤ unit && unit ≤ 0xDFFF

theorem isHighSurrogate_iff {unit : UInt16} :
    isHighSurrogate unit = true ↔ 0xD800 ≤ unit.toNat ∧ unit.toNat ≤ 0xDBFF := by
  simp [isHighSurrogate, UInt16.le_iff_toNat_le]

theorem isLowSurrogate_iff {unit : UInt16} :
    isLowSurrogate unit = true ↔ 0xDC00 ≤ unit.toNat ∧ unit.toNat ≤ 0xDFFF := by
  simp [isLowSurrogate, UInt16.le_iff_toNat_le]

/-! ## Characters -/

def encodeChar (c : Char) : List UInt16 :=
  if c.toNat < 0x10000 then [UInt16.ofNat c.toNat]
  else
    [UInt16.ofNat (0xD800 + (c.toNat - 0x10000) / 0x400),
      UInt16.ofNat (0xDC00 + (c.toNat - 0x10000) % 0x400)]

/-- The units of a text of characters. -/
def encode (chars : List Char) : List UInt16 := chars.flatMap encodeChar

@[simp] theorem encode_nil : encode [] = [] := rfl

@[simp] theorem encode_cons (c : Char) (chars : List Char) :
    encode (c :: chars) = encodeChar c ++ encode chars := List.flatMap_cons

theorem toNat_char (c : Char) : c.toNat < 0xD800 ∨ 0xDFFF < c.toNat ∧ c.toNat < 0x110000 := c.valid

theorem encodeChar_cases (c : Char) :
    (c.toNat < 0x10000 ∧ ∃ unit : UInt16, unit.toNat = c.toNat ∧ encodeChar c = [unit] ∧
        isHighSurrogate unit = false ∧ isLowSurrogate unit = false) ∨
      (0x10000 ≤ c.toNat ∧ ∃ high low : UInt16, encodeChar c = [high, low] ∧
        isHighSurrogate high = true ∧ isLowSurrogate low = true ∧
        c.toNat = 0x10000 + (high.toNat - 0xD800) * 0x400 + (low.toNat - 0xDC00)) := by
  have hc := toNat_char c
  by_cases h : c.toNat < 0x10000
  · have hunit : (UInt16.ofNat c.toNat).toNat = c.toNat := UInt16.toNat_ofNat_of_lt' h
    refine .inl ⟨h, _, hunit, if_pos h, ?_, ?_⟩
    · rw [← Bool.not_eq_true, isHighSurrogate_iff, hunit]
      omega
    · rw [← Bool.not_eq_true, isLowSurrogate_iff, hunit]
      omega
  · have hhigh := @UInt16.toNat_ofNat_of_lt' (0xD800 + (c.toNat - 0x10000) / 0x400)
      (show _ < 65536 by omega)
    have hlow := @UInt16.toNat_ofNat_of_lt' (0xDC00 + (c.toNat - 0x10000) % 0x400)
      (show _ < 65536 by omega)
    refine .inr ⟨Nat.le_of_not_lt h, _, _, if_neg h, ?_, ?_, ?_⟩
    · rw [isHighSurrogate_iff, hhigh]
      omega
    · rw [isLowSurrogate_iff, hlow]
      omega
    · rw [hhigh, hlow]
      omega

theorem marks {p : ℕ → Bool} (hp : ∀ n, p n = true → n < 128) :
    Marks encodeChar (fun c => p c.toNat) fun unit => p unit.toNat where
  mark c hc := by
    have hlt := hp _ hc
    rcases encodeChar_cases c with ⟨-, unit, hunit, he, -⟩ | ⟨hle, -⟩
    · exact ⟨unit, he, by rw [hunit, hc]⟩
    · omega
  other c hc := by
    rcases encodeChar_cases c with ⟨-, unit, hunit, he, -⟩ | ⟨-, high, low, he, hhigh, hlow, -⟩
    · refine ⟨by rw [he]; exact List.cons_ne_nil _ _, fun b hb => ?_⟩
      rw [he, List.mem_singleton] at hb
      rw [hb, hunit, hc]
    · refine ⟨by rw [he]; exact List.cons_ne_nil _ _, fun b hb => ?_⟩
      rw [isHighSurrogate_iff] at hhigh
      rw [isLowSurrogate_iff] at hlow
      rw [← Bool.not_eq_true]
      intro hb'
      have hlt := hp _ hb'
      rw [he, List.mem_cons, List.mem_singleton] at hb
      rcases hb with rfl | rfl <;> omega

theorem toNat_ofNat {n : ℕ} (h : n.isValidChar) : (Char.ofNat n).toNat = n := by
  unfold Char.ofNat
  rw [dif_pos h]
  rfl

theorem exists_encodeChar_pair {high low : UInt16} (hhigh : isHighSurrogate high = true)
    (hlow : isLowSurrogate low = true) : ∃ c, encodeChar c = [high, low] := by
  rw [isHighSurrogate_iff] at hhigh
  rw [isLowSurrogate_iff] at hlow
  let n := 0x10000 + (high.toNat - 0xD800) * 0x400 + (low.toNat - 0xDC00)
  have hn : (Char.ofNat n).toNat = n := toNat_ofNat (.inr (by omega))
  refine ⟨Char.ofNat n, ?_⟩
  unfold encodeChar
  rw [hn, if_neg (by omega),
    show 0xD800 + (n - 0x10000) / 0x400 = high.toNat by omega,
    show 0xDC00 + (n - 0x10000) % 0x400 = low.toNat by omega,
    UInt16.ofNat_toNat, UInt16.ofNat_toNat]

theorem exists_encodeChar_unit {unit : UInt16} (hhigh : isHighSurrogate unit = false)
    (hlow : isLowSurrogate unit = false) : ∃ c, encodeChar c = [unit] := by
  rw [← Bool.not_eq_true, isHighSurrogate_iff] at hhigh
  rw [← Bool.not_eq_true, isLowSurrogate_iff] at hlow
  have hlt := unit.toNat_lt
  have hn : (Char.ofNat unit.toNat).toNat = unit.toNat := toNat_ofNat (by
    show _ < 0xD800 ∨ _
    omega)
  refine ⟨Char.ofNat unit.toNat, ?_⟩
  unfold encodeChar
  rw [hn, if_pos hlt, UInt16.ofNat_toNat]

/-! ## Unpaired surrogates -/

/-- The unit at a place is a high surrogate with no low one after it, or a low surrogate with no high
one before it. -/
def isUnpaired (units : List UInt16) (i : ℕ) : Bool :=
  match units[i]? with
  | none => false
  | some unit =>
    (isHighSurrogate unit && !units[i + 1]?.any isLowSurrogate) ||
      (isLowSurrogate unit && !(0 < i && units[i - 1]?.any isHighSurrogate))

/-- A surrogate that is not the first half of a pair with the unit after it. -/
def Lone (unit : UInt16) (rest : List UInt16) : Prop :=
  (isHighSurrogate unit = true ∨ isLowSurrogate unit = true) ∧
    ¬(isHighSurrogate unit = true ∧ rest.head?.any isLowSurrogate = true)

/-- The units with U+FFFD in the place of each unpaired surrogate. -/
def replaceUnpaired (units : List UInt16) : List UInt16 :=
  units.mapIdx fun i unit => if isUnpaired units i then 0xFFFD else unit

theorem not_low_of_high {unit : UInt16} (h : isHighSurrogate unit = true) :
    isLowSurrogate unit = false := by
  rw [isHighSurrogate_iff] at h
  rw [← Bool.not_eq_true, isLowSurrogate_iff]
  omega

/-- A unit does not change what is after it, unless it makes a pair with the next one. -/
theorem isUnpaired_cons {unit : UInt16} {rest : List UInt16} {i : ℕ}
    (h : i = 0 → ¬(isHighSurrogate unit = true ∧ rest.head?.any isLowSurrogate = true)) :
    isUnpaired (unit :: rest) (i + 1) = isUnpaired rest i := by
  unfold isUnpaired
  rw [List.getElem?_cons_succ, List.getElem?_cons_succ]
  cases hi : rest[i]? with
  | none => rfl
  | some u =>
    cases i with
    | zero =>
      have hhead : rest.head? = some u := by rw [List.head?_eq_getElem?, hi]
      have h := h rfl
      rw [hhead] at h
      by_cases hu : isLowSurrogate u = true
      · have hunit : isHighSurrogate unit = false := by
          rw [← Bool.not_eq_true]
          exact fun hunit => h ⟨hunit, hu⟩
        simp [hunit]
      · simp [hu]
    | succ i => simp

theorem isUnpaired_lone {unit : UInt16} {rest : List UInt16} (h : Lone unit rest) :
    isUnpaired (unit :: rest) 0 = true ∧
      ∀ i, isUnpaired (unit :: rest) (i + 1) = isUnpaired rest i := by
  refine ⟨?_, fun i => isUnpaired_cons fun _ => h.2⟩
  obtain ⟨hsurrogate, hpair⟩ := h
  unfold isUnpaired
  rcases hsurrogate with hhigh | hlow
  · have hnext : rest[0]?.any isLowSurrogate = false := by
      rw [← List.head?_eq_getElem?, ← Bool.not_eq_true]
      exact fun hlow => hpair ⟨hhigh, hlow⟩
    simp [hhigh, hnext]
  · simp [hlow]

theorem isUnpaired_encodeChar (c : Char) (rest : List UInt16) :
    (∀ i < (encodeChar c).length, isUnpaired (encodeChar c ++ rest) i = false) ∧
      ∀ i, isUnpaired (encodeChar c ++ rest) ((encodeChar c).length + i) = isUnpaired rest i := by
  rcases encodeChar_cases c with ⟨-, unit, -, he, hhigh, hlow⟩ | ⟨-, high, low, he, hhigh, hlow, -⟩
  · rw [he, List.singleton_append]
    refine ⟨fun i hi => ?_, fun i => ?_⟩
    · obtain rfl : i = 0 := by simpa using hi
      simp [isUnpaired, hhigh, hlow]
    · rw [List.length_singleton, Nat.add_comm]
      exact isUnpaired_cons fun _ hpair => absurd hpair.1 (by simp [hhigh])
  · rw [he]
    refine ⟨fun i hi => ?_, fun i => ?_⟩
    · have hlow' : isHighSurrogate low = false := by
        rw [← Bool.not_eq_true]
        exact fun h => absurd hlow (by simp [not_low_of_high h])
      obtain rfl | rfl : i = 0 ∨ i = 1 := by
        simp only [List.length_cons, List.length_nil] at hi
        omega
      · simp [isUnpaired, hhigh, hlow, not_low_of_high hhigh]
      · simp [isUnpaired, hhigh, hlow']
    · show isUnpaired (high :: low :: rest) (2 + i) = _
      rw [Nat.add_comm, isUnpaired_cons (by omega)]
      refine isUnpaired_cons fun _ hpair => ?_
      exact absurd hlow (by simp [not_low_of_high hpair.1])

theorem replaceUnpaired_encodeChar (c : Char) (rest : List UInt16) :
    replaceUnpaired (encodeChar c ++ rest) = encodeChar c ++ replaceUnpaired rest := by
  obtain ⟨hchar, hrest⟩ := isUnpaired_encodeChar c rest
  unfold replaceUnpaired
  rw [List.mapIdx_append]
  congr 1
  · refine List.ext_getElem? fun i => ?_
    rw [List.getElem?_mapIdx]
    by_cases hi : i < (encodeChar c).length
    · simp [hchar i hi]
    · simp [List.getElem?_eq_none (Nat.le_of_not_lt hi)]
  · simp only [Nat.add_comm _ (encodeChar c).length, hrest]

theorem replaceUnpaired_lone {unit : UInt16} {rest : List UInt16} (h : Lone unit rest) :
    replaceUnpaired (unit :: rest) = 0xFFFD :: replaceUnpaired rest := by
  obtain ⟨hfirst, hrest⟩ := isUnpaired_lone h
  unfold replaceUnpaired
  rw [List.mapIdx_cons, if_pos hfirst]
  simp only [hrest]

theorem replaceUnpaired_eq_self {units : List UInt16} (h : ∀ i, isUnpaired units i = false) :
    replaceUnpaired units = units := by
  refine List.ext_getElem? fun i => ?_
  simp [replaceUnpaired, h]

/-! ## Characters and unpaired surrogates -/

/-- **Scanning.** Any list of units is a sequence of characters and lone surrogates. -/
theorem scan {motive : List UInt16 → Prop} (nil : motive [])
    (char : ∀ c rest, motive rest → motive (encodeChar c ++ rest))
    (lone : ∀ unit rest, Lone unit rest → motive rest → motive (unit :: rest)) :
    ∀ units, motive units := by
  intro units
  induction hn : units.length using Nat.strongRecOn generalizing units with
  | _ n ih =>
    match units with
    | [] => exact nil
    | unit :: rest =>
      rw [List.length_cons] at hn
      by_cases hpair : isHighSurrogate unit = true ∧ rest.head?.any isLowSurrogate = true
      · -- the pair is one character
        obtain ⟨hhigh, hhead⟩ := hpair
        match rest with
        | [] => cases hhead
        | low :: rest =>
          obtain ⟨c, hc⟩ := exists_encodeChar_pair hhigh hhead
          have := char c rest (ih rest.length (by rw [List.length_cons] at hn; omega) rest rfl)
          rwa [hc] at this
      · have hrest := ih rest.length (by omega) rest rfl
        by_cases hsurrogate : isHighSurrogate unit = true ∨ isLowSurrogate unit = true
        · exact lone unit rest ⟨hsurrogate, hpair⟩ hrest
        · rw [not_or, Bool.not_eq_true, Bool.not_eq_true] at hsurrogate
          obtain ⟨c, hc⟩ := exists_encodeChar_unit hsurrogate.1 hsurrogate.2
          have := char c rest hrest
          rwa [hc] at this

theorem isUnpaired_encode (chars : List Char) (rest : List UInt16) :
    (∀ i < (encode chars).length, isUnpaired (encode chars ++ rest) i = false) ∧
      ∀ i, isUnpaired (encode chars ++ rest) ((encode chars).length + i) = isUnpaired rest i := by
  induction chars with
  | nil => exact ⟨nofun, fun i => by rw [encode_nil, List.nil_append, List.length_nil, Nat.zero_add]⟩
  | cons c chars ih =>
    obtain ⟨hchar, hafter⟩ := isUnpaired_encodeChar c (encode chars ++ rest)
    rw [encode_cons, List.append_assoc, List.length_append]
    refine ⟨fun i hi => ?_, fun i => ?_⟩
    · by_cases hc : i < (encodeChar c).length
      · exact hchar i hc
      · obtain ⟨j, rfl⟩ := Nat.exists_eq_add_of_le (Nat.le_of_not_lt hc)
        rw [hafter]
        exact ih.1 j (by omega)
    · rw [Nat.add_assoc, hafter, ih.2]

theorem isUnpaired_encode_eq_false (chars : List Char) (i : ℕ) :
    isUnpaired (encode chars) i = false := by
  have h := (isUnpaired_encode chars []).1
  rw [List.append_nil] at h
  by_cases hi : i < (encode chars).length
  · exact h i hi
  · unfold isUnpaired
    rw [List.getElem?_eq_none (Nat.le_of_not_lt hi)]

/-- **The first unpaired surrogate.** A list of units is a text, or a text followed by an unpaired
surrogate. -/
theorem encode_or_lone (units : List UInt16) :
    (∃ chars, units = encode chars) ∨
      ∃ chars unit rest, units = encode chars ++ unit :: rest ∧ Lone unit rest := by
  induction units using scan with
  | nil => exact .inl ⟨[], rfl⟩
  | char c rest ih =>
    rcases ih with ⟨chars, rfl⟩ | ⟨chars, unit, rest, rfl, h⟩
    · exact .inl ⟨c :: chars, (encode_cons c chars).symm⟩
    · exact .inr ⟨c :: chars, unit, rest, by rw [encode_cons, List.append_assoc], h⟩
  | lone unit rest h _ => exact .inr ⟨[], unit, rest, rfl, h⟩

end Utf16
