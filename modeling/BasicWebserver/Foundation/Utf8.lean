import BasicWebserver.Foundation.Ascii
import BasicWebserver.Foundation.Marks

/-!
# UTF-8 texts

A UTF-8 text is the sequence of its characters' encodings (`isUtf8_iff`). The encoding of a
character is one byte below 128, or has no such byte (`utf8EncodeChar_cases`). So the bytes below 128
are whole characters of the text: they can be replaced (`isUtf8_flatMap`), and the text can be cut at
them (`marks`).
-/

namespace Utf8

open Ascii

/-- The bytes of a text of characters. -/
def encode (chars : List Char) : List UInt8 := chars.flatMap String.utf8EncodeChar

@[simp] theorem encode_nil : encode [] = [] := rfl

@[simp] theorem encode_cons (c : Char) (chars : List Char) :
    encode (c :: chars) = String.utf8EncodeChar c ++ encode chars := List.flatMap_cons

@[simp] theorem encode_append (a b : List Char) : encode (a ++ b) = encode a ++ encode b :=
  List.flatMap_append

theorem isUtf8_iff {l : List UInt8} : isUtf8 l = true ↔ ∃ chars, l = encode chars := by
  have hdata (chars : List Char) :
      ByteArray.mk l.toArray = chars.utf8Encode ↔ l = encode chars := by
    constructor
    · intro h
      have h' := congrArg (fun a : ByteArray => a.data.toList) h
      simpa [List.utf8Encode, encode] using h'
    · rintro rfl
      exact ByteArray.ext (List.data_toByteArray (l := encode chars)).symm
  constructor
  · intro h
    obtain ⟨chars, hchars⟩ := ByteArray.validateUTF8_eq_true_iff.mp h
    exact ⟨chars, (hdata chars).mp hchars⟩
  · rintro ⟨chars, h⟩
    exact ByteArray.validateUTF8_eq_true_iff.mpr ⟨chars, (hdata chars).mpr h⟩

theorem isUtf8_encode (chars : List Char) : isUtf8 (encode chars) = true :=
  isUtf8_iff.mpr ⟨chars, rfl⟩

theorem isUtf8_append {a b : List UInt8} (ha : isUtf8 a = true) (hb : isUtf8 b = true) :
    isUtf8 (a ++ b) = true := by
  obtain ⟨s, rfl⟩ := isUtf8_iff.mp ha
  obtain ⟨t, rfl⟩ := isUtf8_iff.mp hb
  exact isUtf8_iff.mpr ⟨s ++ t, (encode_append s t).symm⟩

private theorem ofNat_lt {n : ℕ} (h : n < 128) : UInt8.ofNat n < 128 := by
  rw [UInt8.lt_iff_toNat_lt, UInt8.toNat_ofNat_of_lt' (Nat.lt_trans h (by decide))]
  exact h

private theorem le_ofNat {n : ℕ} (h₁ : 128 ≤ n) (h₂ : n < 256) : 128 ≤ UInt8.ofNat n := by
  rw [UInt8.le_iff_toNat_le, UInt8.toNat_ofNat_of_lt' h₂]
  exact h₁

theorem utf8EncodeChar_cases (c : Char) :
    (c.toNat < 128 ∧ String.utf8EncodeChar c = [UInt8.ofNat c.toNat]) ∨
      (128 ≤ c.toNat ∧ ∀ b ∈ String.utf8EncodeChar c, 128 ≤ b) := by
  have hlt (a b m : ℕ) (hm : 0 < m) (hab : m + b ≤ 256) : a % m + b < 256 := by
    have := Nat.mod_lt a hm
    omega
  unfold String.utf8EncodeChar
  dsimp only
  split
  · rename_i h
    exact .inl ⟨Nat.lt_succ_of_le h, rfl⟩
  · rename_i h
    refine .inr ⟨Nat.lt_of_not_le h, ?_⟩
    split_ifs <;> intro b hb <;>
      simp only [List.mem_cons, List.not_mem_nil, or_false] at hb <;>
      rcases hb with rfl | rfl | rfl | rfl <;>
      exact le_ofNat (by omega) (hlt _ _ _ (by omega) (by omega))

theorem isUtf8_flatMap {f : UInt8 → List UInt8} (hascii : ∀ b < 128, ∀ x ∈ f b, x < 128)
    (hother : ∀ b, 128 ≤ b → f b = [b]) {l : List UInt8} (h : isUtf8 l = true) :
    isUtf8 (l.flatMap f) = true := by
  obtain ⟨chars, rfl⟩ := isUtf8_iff.mp h
  clear h
  induction chars with
  | nil => exact isUtf8_encode []
  | cons c chars ih =>
    rw [encode_cons, List.flatMap_append]
    refine isUtf8_append ?_ ih
    rcases utf8EncodeChar_cases c with ⟨hlt, hc⟩ | ⟨-, hc⟩
    · rw [hc, List.flatMap_singleton]
      exact isUtf8_of_ascii (hascii _ (ofNat_lt hlt))
    · rw [List.flatMap_congr fun b hb => hother b (hc b hb), List.flatMap_singleton']
      have h := isUtf8_encode [c]
      rwa [encode_cons, encode_nil, List.append_nil] at h

theorem marks {p : ℕ → Bool} (hp : ∀ n, p n = true → n < 128) :
    Marks String.utf8EncodeChar (fun c => p c.toNat) fun b => p b.toNat where
  mark c hc := by
    rcases utf8EncodeChar_cases c with ⟨hlt, h⟩ | ⟨hle, -⟩
    · refine ⟨_, h, ?_⟩
      rw [UInt8.toNat_ofNat_of_lt' (Nat.lt_trans hlt (by decide))]
      exact hc
    · exact absurd (hp _ hc) (Nat.not_lt.mpr hle)
  other c hc := by
    refine ⟨String.utf8EncodeChar_ne_nil, fun b hb => ?_⟩
    rcases utf8EncodeChar_cases c with ⟨hlt, h⟩ | ⟨-, h⟩
    · rw [h, List.mem_singleton] at hb
      rw [hb, UInt8.toNat_ofNat_of_lt' (Nat.lt_trans hlt (by decide))]
      exact hc
    · rw [← Bool.not_eq_true]
      exact fun hb' => absurd (hp _ hb') (Nat.not_lt.mpr (UInt8.le_iff_toNat_le.mp (h b hb)))

end Utf8
