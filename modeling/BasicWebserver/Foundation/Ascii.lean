import Mathlib.Algebra.Group.Nat.Defs
import Mathlib.Data.List.Basic

/-!
# Byte strings

Texts as lists of bytes: ASCII classes and case, trimming, and numerals. `decimal` prints a number
as Rust's `to_string` does, `parseU64` reads one as `str::parse::<u64>`; reading back a printed
number that fits returns it (`parseU64_decimal`).
-/

namespace Ascii

def ascii (s : String) : List UInt8 := s.toList.map fun c => UInt8.ofNat c.toNat

/-! ## Classes and case -/

def isDigit (b : UInt8) : Bool := 48 ≤ b && b ≤ 57

def isUpper (b : UInt8) : Bool := 65 ≤ b && b ≤ 90

def isLower (b : UInt8) : Bool := 97 ≤ b && b ≤ 122

def isAlphanumeric (b : UInt8) : Bool := isDigit b || isUpper b || isLower b

/-- Tab, line feed, vertical tab, form feed, carriage return and space. -/
def isWhitespace (b : UInt8) : Bool := (9 ≤ b && b ≤ 13) || b = 32

/-- Printable ASCII, the space and the tab. -/
def isVisible (b : UInt8) : Bool := (32 ≤ b && b < 127) || b = 9

def toLower (b : UInt8) : UInt8 := if isUpper b then b + 32 else b

def lower (l : List UInt8) : List UInt8 := l.map toLower

def eqIgnoreCase (l l' : List UInt8) : Bool := lower l = lower l'

theorem forall_byte {P : UInt8 → Prop} (h : ∀ n < 256, P (UInt8.ofNat n)) (byte : UInt8) : P byte := by
  have hbyte := h byte.toNat byte.toNat_lt
  rwa [UInt8.ofNat_toNat] at hbyte

/-! ## Trimming -/

/-- The list without the bytes satisfying `p` at both ends. -/
def trimMatches (p : UInt8 → Bool) (l : List UInt8) : List UInt8 :=
  ((l.dropWhile p).reverse.dropWhile p).reverse

def trim (l : List UInt8) : List UInt8 := trimMatches isWhitespace l

theorem trimMatches_eq_self {p : UInt8 → Bool} {l : List UInt8} (h : ∀ b ∈ l, p b = false) :
    trimMatches p l = l := by
  have hdrop : ∀ l' : List UInt8, (∀ b ∈ l', p b = false) → l'.dropWhile p = l' := by
    intro l' hl'
    cases l' with
    | nil => rfl
    | cons b l' => exact List.dropWhile_cons_of_neg (by rw [hl' b List.mem_cons_self]; nofun)
  unfold trimMatches
  rw [hdrop l h, hdrop l.reverse fun b hb => h b (List.mem_reverse.mp hb), List.reverse_reverse]

theorem trim_append {before core after : List UInt8} (hbefore : ∀ b ∈ before, isWhitespace b = true)
    (hafter : ∀ b ∈ after, isWhitespace b = true) (hcore : ∀ b ∈ core, isWhitespace b = false) :
    trim (before ++ core ++ after) = core := by
  unfold trim trimMatches
  rw [List.append_assoc, List.dropWhile_append_of_pos hbefore]
  by_cases hne : core = []
  · have hnil : after.dropWhile isWhitespace = [] := by
      rw [← List.append_nil after, List.dropWhile_append_of_pos hafter, List.dropWhile_nil]
    rw [hne, List.nil_append, hnil]
    rfl
  obtain ⟨c, core', rfl⟩ := List.exists_cons_of_ne_nil hne
  obtain ⟨d, core'', hreverse⟩ := List.exists_cons_of_ne_nil (mt List.reverse_eq_nil_iff.mp hne)
  have hhead : ¬ isWhitespace c = true := by
    rw [hcore c List.mem_cons_self]
    nofun
  have hlast : ¬ isWhitespace d = true := by
    rw [hcore d (List.mem_reverse.mp (hreverse ▸ List.mem_cons_self))]
    nofun
  rw [List.cons_append, List.dropWhile_cons_of_neg hhead, ← List.cons_append, List.reverse_append,
    hreverse, List.dropWhile_append_of_pos fun b hb => hafter b (List.mem_reverse.mp hb),
    List.dropWhile_cons_of_neg hlast, ← hreverse, List.reverse_reverse]

/-! ## Splitting -/

/-- The text before the first `b` and the text after it. -/
def splitOnce (b : UInt8) (l : List UInt8) : Option (List UInt8 × List UInt8) :=
  if b ∈ l then some (l.takeWhile (· ≠ b), (l.dropWhile (· ≠ b)).tail) else none

theorem splitOnce_eq_some {b : UInt8} {l before after : List UInt8} :
    splitOnce b l = some (before, after) ↔ l = before ++ b :: after ∧ b ∉ before := by
  have hall : ∀ {before : List UInt8}, b ∉ before → ∀ x ∈ before, decide (x ≠ b) = true :=
    fun hb x hx => decide_eq_true fun hx' => hb (hx' ▸ hx)
  have happend : ∀ {before : List UInt8} (after : List UInt8), b ∉ before →
      splitOnce b (before ++ b :: after) = some (before, after) := by
    intro before after hb
    unfold splitOnce
    rw [if_pos (List.mem_append_right _ List.mem_cons_self), List.takeWhile_append_of_pos (hall hb),
      List.dropWhile_append_of_pos (hall hb)]
    simp
  constructor
  · intro h
    have hmem : b ∈ l := by
      by_contra hmem
      rw [splitOnce, if_neg hmem] at h
      cases h
    obtain ⟨before', after', rfl, hb⟩ := List.eq_append_cons_of_mem hmem
    rw [happend after' hb] at h
    cases h
    exact ⟨rfl, hb⟩
  · rintro ⟨rfl, hb⟩
    exact happend after hb

/-- The text before the last `b` and the text after it. -/
def rsplitOnce (b : UInt8) (l : List UInt8) : Option (List UInt8 × List UInt8) :=
  (splitOnce b l.reverse).map fun parts => (parts.2.reverse, parts.1.reverse)

/-- The text after the given one at its start. -/
def stripPrefix (start l : List UInt8) : Option (List UInt8) :=
  if start.isPrefixOf l then some (l.drop start.length) else none

theorem stripPrefix_eq_some {start l rest : List UInt8} :
    stripPrefix start l = some rest ↔ l = start ++ rest := by
  unfold stripPrefix
  split_ifs with h
  · obtain ⟨tail, rfl⟩ := List.isPrefixOf_iff_prefix.mp h
    rw [List.drop_left, Option.some.injEq, List.append_cancel_left_eq]
  · refine iff_of_false nofun ?_
    rintro rfl
    exact h (List.isPrefixOf_iff_prefix.mpr (List.prefix_append _ _))

/-! ## Numerals -/

/-- The numeral of `n` in base `b ≤ 16`, in lower case. -/
def numeral (b n : ℕ) : List UInt8 := (Nat.toDigits b n).map fun c => UInt8.ofNat c.toNat

def decimal (n : ℕ) : List UInt8 := numeral 10 n

def hex (n : ℕ) : List UInt8 := numeral 16 n

def ofDecimal (l : List UInt8) : ℕ := l.foldl (fun n b => 10 * n + (b.toNat - 48)) 0

/-- `str::parse::<u64>`: an optional plus sign and digits whose value fits. -/
def parseU64 (l : List UInt8) : Option ℕ :=
  let digits := if l.head? = some 43 then l.tail else l
  if digits ≠ [] ∧ digits.all isDigit ∧ ofDecimal digits < 2 ^ 64 then some (ofDecimal digits)
  else none

theorem decimal_ne_nil (n : ℕ) : decimal n ≠ [] := by
  unfold decimal numeral
  rw [Ne, List.map_eq_nil_iff]
  exact Nat.toDigits_ne_nil

theorem toNat_of_isDigit {c : Char} (h : c.isDigit) : (UInt8.ofNat c.toNat).toNat = c.toNat ∧
    48 ≤ c.toNat ∧ c.toNat ≤ 57 := by
  unfold Char.isDigit at h
  simp only [Bool.and_eq_true, decide_eq_true_eq, ge_iff_le, UInt32.le_iff_toNat_le] at h
  have h1 : 48 ≤ c.toNat := h.1
  have h2 : c.toNat ≤ 57 := h.2
  refine ⟨?_, h1, h2⟩
  rw [UInt8.toNat_ofNat']
  omega

theorem isDigit_of_mem_decimal {n : ℕ} {b : UInt8} (h : b ∈ decimal n) : isDigit b := by
  obtain ⟨c, hc, rfl⟩ := List.mem_map.mp h
  obtain ⟨hb, h1, h2⟩ := toNat_of_isDigit (Nat.isDigit_of_mem_toDigits (by decide) (by decide) hc)
  unfold isDigit
  simp only [Bool.and_eq_true, decide_eq_true_eq, UInt8.le_iff_toNat_le, hb]
  exact ⟨h1, h2⟩

theorem ofDecimal_decimal (n : ℕ) : ofDecimal (decimal n) = n := by
  have hfold : ∀ (l : List Char) (m : ℕ), (∀ c ∈ l, c.isDigit) →
      (l.map fun c => UInt8.ofNat c.toNat).foldl (fun n b => 10 * n + (b.toNat - 48)) m =
        Nat.ofDigitChars 10 l m := by
    intro l
    induction l with
    | nil => intro m _; rfl
    | cons c l ih =>
      intro m hl
      have hc := (toNat_of_isDigit (hl c List.mem_cons_self)).1
      rw [List.map_cons, List.foldl_cons, hc, ih _ fun c' hc' => hl c' (List.mem_cons_of_mem _ hc')]
      rfl
  refine (hfold _ 0 fun c hc => Nat.isDigit_of_mem_toDigits (by decide) (by decide) hc).trans ?_
  exact Nat.ofDigitChars_ten_toDigits

theorem hex_of_lt {n : ℕ} (h : n < 16) : hex n = [UInt8.ofNat (Nat.digitChar n).toNat] := by
  unfold hex numeral
  rw [Nat.toDigits_of_lt_base h, List.map_singleton]

theorem hex_of_le {n : ℕ} (h : 16 ≤ n) :
    hex n = hex (n / 16) ++ [UInt8.ofNat (Nat.digitChar (n % 16)).toNat] := by
  unfold hex numeral
  rw [Nat.toDigits_of_base_le (by decide) h, List.map_append, List.map_singleton]

theorem hex_ne_nil (n : ℕ) : hex n ≠ [] := by
  unfold hex numeral
  rw [Ne, List.map_eq_nil_iff]
  exact Nat.toDigits_ne_nil

theorem isAlphanumeric_of_mem_hex {n : ℕ} {b : UInt8} (h : b ∈ hex n) : isAlphanumeric b := by
  have hdigit : ∀ d < 16, isAlphanumeric (UInt8.ofNat (Nat.digitChar d).toNat) := by decide
  induction n using Nat.strongRecOn with
  | _ n ih =>
    by_cases hn : n < 16
    · rw [hex_of_lt hn, List.mem_singleton] at h
      rw [h]
      exact hdigit n hn
    · rw [hex_of_le (Nat.le_of_not_lt hn), List.mem_append, List.mem_singleton] at h
      rcases h with h | h
      · exact ih (n / 16) (Nat.div_lt_self (by omega) (by decide)) h
      · rw [h]
        exact hdigit (n % 16) (Nat.mod_lt n (by decide))

/-- The last digit is the remainder, and the digits before it are those of the quotient. -/
theorem hex_injective : Function.Injective hex := by
  let value (b : UInt8) : ℕ := if b < 58 then b.toNat - 48 else b.toNat - 87
  have hvalue : ∀ d < 16, value (UInt8.ofNat (Nat.digitChar d).toNat) = d := by decide
  have hdigit : ∀ d < 16, ∀ e < 16, UInt8.ofNat (Nat.digitChar d).toNat =
      UInt8.ofNat (Nat.digitChar e).toNat → d = e := fun d hd e he h => by
    rw [← hvalue d hd, h, hvalue e he]
  intro m
  induction m using Nat.strongRecOn with
  | _ m ih =>
    intro n h
    rcases Nat.lt_or_ge m 16 with hm | hm <;> rcases Nat.lt_or_ge n 16 with hn | hn
    · rw [hex_of_lt hm, hex_of_lt hn] at h
      exact hdigit m hm n hn (List.singleton_inj.mp h)
    · rw [hex_of_lt hm, hex_of_le hn, ← List.nil_append [UInt8.ofNat (Nat.digitChar m).toNat]] at h
      exact absurd (List.append_inj_left' h rfl).symm (hex_ne_nil _)
    · rw [hex_of_le hm, hex_of_lt hn, ← List.nil_append [UInt8.ofNat (Nat.digitChar n).toNat]] at h
      exact absurd (List.append_inj_left' h rfl) (hex_ne_nil _)
    · rw [hex_of_le hm, hex_of_le hn] at h
      obtain ⟨hquotient, hremainder⟩ := List.append_inj' h rfl
      have hdiv := ih (m / 16) (Nat.div_lt_self (by omega) (by decide)) hquotient
      have hmod := hdigit _ (Nat.mod_lt m (by decide)) _ (Nat.mod_lt n (by decide))
        (List.singleton_inj.mp hremainder)
      omega

theorem parseU64_of_digits {l : List UInt8} (hne : l ≠ []) (hdigits : ∀ b ∈ l, isDigit b) :
    parseU64 l = if ofDecimal l < 2 ^ 64 then some (ofDecimal l) else none := by
  have hplus : l.head? ≠ some 43 := by
    intro hhead
    have h43 := hdigits 43 (List.mem_of_mem_head? hhead)
    exact absurd h43 (by decide)
  unfold parseU64
  rw [if_neg hplus]
  dsimp only
  congr 1
  exact propext (by rw [List.all_eq_true]; tauto)

theorem parseU64_decimal {n : ℕ} (h : n < 2 ^ 64) : parseU64 (decimal n) = some n := by
  rw [parseU64_of_digits (decimal_ne_nil n) fun _ => isDigit_of_mem_decimal, ofDecimal_decimal,
    if_pos h]

theorem isVisible_of_isDigit {b : UInt8} (h : isDigit b) : isVisible b := by
  unfold isDigit isVisible at *
  simp only [Bool.and_eq_true, decide_eq_true_eq, Bool.or_eq_true, UInt8.le_iff_toNat_le,
    UInt8.lt_iff_toNat_lt, UInt8.reduceToNat] at h ⊢
  omega

/-! ## UTF-8 -/

/-- The bytes are a UTF-8 text. -/
def isUtf8 (l : List UInt8) : Bool := (ByteArray.mk l.toArray).validateUTF8

theorem utf8EncodeChar_ofNat {b : UInt8} (h : b < 128) :
    String.utf8EncodeChar (Char.ofNat b.toNat) = [b] := by
  have hb : b.toNat < 128 := h
  have hval : (Char.ofNat b.toNat).val.toNat = b.toNat := by
    have hv : b.toNat.isValidChar := .inl (by omega)
    show (Char.ofNat b.toNat).toNat = _
    unfold Char.ofNat
    rw [dif_pos hv]
    rfl
  unfold String.utf8EncodeChar
  dsimp only
  rw [hval, if_pos (by omega), UInt8.ofNat_toNat]

theorem isUtf8_of_ascii {l : List UInt8} (h : ∀ b ∈ l, b < 128) : isUtf8 l := by
  have hflat : (l.map fun b => Char.ofNat b.toNat).flatMap String.utf8EncodeChar = l := by
    rw [List.flatMap_map]
    induction l with
    | nil => rfl
    | cons b l ih =>
      rw [List.flatMap_cons, utf8EncodeChar_ofNat (h b List.mem_cons_self),
        ih fun b' hb' => h b' (List.mem_cons_of_mem _ hb'), List.singleton_append]
  refine ByteArray.validateUTF8_eq_true_iff.mpr ⟨l.map fun b => Char.ofNat b.toNat, ?_⟩
  show _ = List.toByteArray _
  rw [hflat]
  exact ByteArray.ext (List.data_toByteArray (l := l)).symm

theorem isUtf8_of_all {l : List UInt8} (h : l.all (· < 128) = true) : isUtf8 l :=
  isUtf8_of_ascii fun b hb => of_decide_eq_true (List.all_eq_true.mp h b hb)

end Ascii
