import BasicWebserver.Platform.OsStr

/-!
# The identity of OS strings

The values of `platform/OsStr.roc`, and how `src/os_str.rs` takes them to the strings of the operating
system and back: bytes on Unix, 16-bit units on Windows. Every value that the constructors build is
canonical (`Built.canonical`): a text is never kept as bytes or units. So a native string is one
value only, and the values are equal exactly if their native strings are.
-/

namespace BasicWebserver.Platform.OsStr

open Ascii Builtin Fallible

/-! ## `platform/OsStr.roc` -/

/-- The representation at the boundary to the host. -/
inductive Raw
  | utf8 (str : Str)
  | unixBytes (bytes : List UInt8)
  | windowsU16s (u16s : List UInt16)
  deriving DecidableEq

/-- The type `OsStr` of the source. -/
inductive Value
  | utf8 (str : Str)
  | unixBytes (bytes : List UInt8)
  | windowsU16s (u16s : List UInt16)
  deriving DecidableEq

def fromStr (str : Str) : Value := .utf8 str

def utf8 (str : Str) : Value := .utf8 str

def unix (str : Str) : Value := .utf8 str

def windows (str : Str) : Value := .utf8 str

def fromQuote (str : Str) : Except Str Value := .ok (.utf8 str)

/-- The parameter is `Str.from_interpolation`. -/
def fromInterpolation (strFromInterpolation : List Str → Except Str (List Str → Str))
    (segments : List Str) : Except Str (List Str → Value) :=
  (strFromInterpolation segments).map fun assemble values => .utf8 (assemble values)

section

variable (trap : Bool) (badIndex : List UInt8 → ℕ)

def unixBytes (bytes : List UInt8) : Value :=
  match fromUtf8 badIndex bytes with
  | .ok str => .utf8 str
  | .error _ => .unixBytes bytes

def windowsU16s (u16s : List UInt16) : Except Fault Value :=
  (utf16ToStr trap badIndex u16s).map fun result =>
    match result with
    | .ok str => .utf8 str
    | .error _ => .windowsU16s u16s

def toRaw : Value → Raw
  | .utf8 str => .utf8 str
  | .unixBytes bytes => .unixBytes bytes
  | .windowsU16s u16s => .windowsU16s u16s

def fromRaw : Raw → Except Fault Value
  | .utf8 str => .ok (.utf8 str)
  | .unixBytes bytes => .ok (unixBytes badIndex bytes)
  | .windowsU16s u16s => windowsU16s trap badIndex u16s

def isEq (left right : Value) : Bool := toRaw left = toRaw right

/-- The values of the constructors and of `from_raw`, for texts that are UTF-8. -/
inductive Built : Value → Prop
  | fromStr {str : Str} (h : isUtf8 str = true) : Built (fromStr str)
  | utf8 {str : Str} (h : isUtf8 str = true) : Built (utf8 str)
  | unix {str : Str} (h : isUtf8 str = true) : Built (unix str)
  | windows {str : Str} (h : isUtf8 str = true) : Built (windows str)
  | fromQuote {str : Str} {value : Value} (h : isUtf8 str = true)
      (hvalue : fromQuote str = .ok value) : Built value
  | fromInterpolation {strFromInterpolation : List Str → Except Str (List Str → Str)}
      {segments values : List Str} {build : List Str → Value}
      (h : ∀ assemble, strFromInterpolation segments = .ok assemble → isUtf8 (assemble values) = true)
      (hbuild : fromInterpolation strFromInterpolation segments = .ok build) : Built (build values)
  | unixBytes (bytes : List UInt8) : Built (unixBytes badIndex bytes)
  | windowsU16s {u16s : List UInt16} {value : Value}
      (hvalue : windowsU16s trap badIndex u16s = .ok value) : Built value
  | fromRaw {raw : Raw} {value : Value} (h : ∀ str, raw = .utf8 str → isUtf8 str = true)
      (hvalue : fromRaw trap badIndex raw = .ok value) : Built value

end

/-! ## `src/os_str.rs` -/

/-- The message of the error, whose kind is `Unsupported`. -/
def unsupportedNativeVariant (expected got : String) : String :=
  s!"expected {expected} OS string on this platform, got {got}"

namespace Unix

def osStringFromRaw : Raw → Except String (List UInt8)
  | .unixBytes bytes => .ok bytes
  | .utf8 str => .ok str
  | .windowsU16s _ => .error (unsupportedNativeVariant "UnixBytes" "WindowsU16s")

def rawOsStrFromOsStr (value : List UInt8) : Raw :=
  if isUtf8 value then .utf8 value else .unixBytes value

end Unix

/-- The conversions between texts and the native strings of Windows in the standard library. -/
structure WideStrings where
  toStr : List UInt16 → Option Str
  ofStr : Str → List UInt16

/-- The native string of a text is its UTF-16 form, and only such strings are texts. -/
structure WideStrings.Documented (std : WideStrings) : Prop where
  toStr : ∀ units str, std.toStr units = some str ↔
    ∃ chars, units = Utf16.encode chars ∧ str = Utf8.encode chars
  ofStr : ∀ chars, std.ofStr (Utf8.encode chars) = Utf16.encode chars

namespace Windows

variable (std : WideStrings)

def osStringFromRaw : Raw → Except String (List UInt16)
  | .unixBytes _ => .error (unsupportedNativeVariant "WindowsU16s" "UnixBytes")
  | .utf8 str => .ok (std.ofStr str)
  | .windowsU16s u16s => .ok u16s

def rawOsStrFromOsStr (value : List UInt16) : Raw :=
  match std.toStr value with
  | some text => .utf8 text
  | none => .windowsU16s value

end Windows

/-! ## Canonical values -/

/-- A text is kept as a text. -/
def Canonical : Value → Prop
  | .utf8 str => ∃ chars, str = Utf8.encode chars
  | .unixBytes bytes => ¬ ∃ chars, bytes = Utf8.encode chars
  | .windowsU16s u16s => ¬ ∃ chars, u16s = Utf16.encode chars

variable {trap : Bool} {badIndex : List UInt8 → ℕ}

theorem unixBytes_encode (chars : List Char) :
    unixBytes badIndex (Utf8.encode chars) = .utf8 (Utf8.encode chars) := by
  rw [unixBytes, fromUtf8_of_isUtf8 (Utf8.isUtf8_encode chars)]

theorem unixBytes_of_not {bytes : List UInt8} (h : ¬ ∃ chars, bytes = Utf8.encode chars) :
    unixBytes badIndex bytes = .unixBytes bytes := by
  unfold unixBytes fromUtf8
  rw [if_neg (mt Utf8.isUtf8_iff.mp h)]

theorem utf16ToStr_of_not {u16s : List UInt16} (h : ¬ ∃ chars, u16s = Utf16.encode chars) :
    ∃ i, utf16ToStr trap badIndex u16s = .ok (.error i) := by
  rw [utf16ToStr_eq]
  rcases (Path.faithful trap badIndex).toStr u16s with ⟨hpaired, -⟩ | ⟨i, -, -, hstr⟩
  · rcases Utf16.encode_or_lone u16s with hchars | ⟨chars, unit, rest, rfl, hlone⟩
    · exact absurd hchars h
    · have hat := (Utf16.isUnpaired_encode chars (unit :: rest)).2 0
      rw [hpaired, (Utf16.isUnpaired_lone hlone).1] at hat
      cases hat
  · exact ⟨i, hstr⟩

theorem windowsU16s_encode (chars : List Char) :
    windowsU16s trap badIndex (Utf16.encode chars) = .ok (.utf8 (Utf8.encode chars)) := by
  rw [windowsU16s, utf16ToStr_eq, Path.utf16ToStr_encode]
  rfl

theorem windowsU16s_of_not {u16s : List UInt16} (h : ¬ ∃ chars, u16s = Utf16.encode chars) :
    windowsU16s trap badIndex u16s = .ok (.windowsU16s u16s) := by
  obtain ⟨i, hstr⟩ := utf16ToStr_of_not h
  rw [windowsU16s, hstr]
  rfl

theorem canonical_windowsU16s {u16s : List UInt16} {value : Value}
    (h : windowsU16s trap badIndex u16s = .ok value) : Canonical value := by
  by_cases hchars : ∃ chars, u16s = Utf16.encode chars
  · obtain ⟨chars, rfl⟩ := hchars
    rw [windowsU16s_encode] at h
    cases h
    exact ⟨chars, rfl⟩
  · rw [windowsU16s_of_not hchars] at h
    cases h
    exact hchars

theorem canonical_unixBytes (bytes : List UInt8) : Canonical (unixBytes badIndex bytes) := by
  by_cases hchars : ∃ chars, bytes = Utf8.encode chars
  · obtain ⟨chars, rfl⟩ := hchars
    rw [unixBytes_encode]
    exact ⟨chars, rfl⟩
  · rw [unixBytes_of_not hchars]
    exact hchars

theorem Built.canonical {value : Value} (h : Built trap badIndex value) : Canonical value := by
  cases h with
  | fromStr h => exact Utf8.isUtf8_iff.mp h
  | utf8 h => exact Utf8.isUtf8_iff.mp h
  | unix h => exact Utf8.isUtf8_iff.mp h
  | windows h => exact Utf8.isUtf8_iff.mp h
  | fromQuote h hvalue =>
    cases hvalue
    exact Utf8.isUtf8_iff.mp h
  | @fromInterpolation strFromInterpolation segments values build h hbuild =>
    cases hassemble : strFromInterpolation segments with
    | error e =>
      rw [OsStr.fromInterpolation, hassemble] at hbuild
      cases hbuild
    | ok assemble =>
      rw [OsStr.fromInterpolation, hassemble] at hbuild
      cases hbuild
      exact Utf8.isUtf8_iff.mp (h assemble hassemble)
  | unixBytes bytes => exact canonical_unixBytes bytes
  | windowsU16s hvalue => exact canonical_windowsU16s hvalue
  | @fromRaw raw value h hvalue =>
    cases raw with
    | utf8 str =>
      cases hvalue
      exact Utf8.isUtf8_iff.mp (h str rfl)
    | unixBytes bytes =>
      cases hvalue
      exact canonical_unixBytes bytes
    | windowsU16s u16s => exact canonical_windowsU16s hvalue

theorem isEq_iff (a b : Value) : isEq a b = true ↔ a = b := by
  unfold isEq
  rw [decide_eq_true_iff]
  cases a <;> cases b <;> simp [toRaw]

/-! ## Unix -/

theorem Unix.roundTrip (native : List UInt8) :
    ∃ value, fromRaw trap badIndex (rawOsStrFromOsStr native) = .ok value ∧
      osStringFromRaw (toRaw value) = .ok native := by
  unfold rawOsStrFromOsStr
  split_ifs with h
  · exact ⟨_, rfl, rfl⟩
  · refine ⟨_, rfl, ?_⟩
    rw [unixBytes_of_not (mt Utf8.isUtf8_iff.mpr h)]
    rfl

theorem Unix.eq_iff {a b : Value} {x y : List UInt8} (ha : Canonical a) (hb : Canonical b)
    (hx : osStringFromRaw (toRaw a) = .ok x) (hy : osStringFromRaw (toRaw b) = .ok y) :
    a = b ↔ x = y := by
  constructor
  · rintro rfl
    exact Except.ok.inj (hx.symm.trans hy)
  · rintro rfl
    cases a with
    | utf8 str =>
      cases hx
      cases b with
      | utf8 str' =>
        cases hy
        rfl
      | unixBytes bytes =>
        cases hy
        exact absurd ha hb
      | windowsU16s u16s => cases hy
    | unixBytes bytes =>
      cases hx
      cases b with
      | utf8 str' =>
        cases hy
        exact absurd hb ha
      | unixBytes bytes' =>
        cases hy
        rfl
      | windowsU16s u16s => cases hy
    | windowsU16s u16s => cases hx

/-! ## Windows -/

section Windows

variable {std : WideStrings} (hstd : std.Documented)

include hstd

theorem Windows.toStr_encode (chars : List Char) :
    std.toStr (Utf16.encode chars) = some (Utf8.encode chars) :=
  (hstd.toStr _ _).mpr ⟨chars, rfl, rfl⟩

theorem Windows.roundTrip (native : List UInt16) :
    ∃ value, fromRaw trap badIndex (rawOsStrFromOsStr std native) = .ok value ∧
      osStringFromRaw std (toRaw value) = .ok native := by
  unfold rawOsStrFromOsStr
  cases htext : std.toStr native with
  | some text =>
    obtain ⟨chars, rfl, rfl⟩ := (hstd.toStr native text).mp htext
    exact ⟨_, rfl, congrArg Except.ok (hstd.ofStr chars)⟩
  | none =>
    have hchars : ¬ ∃ chars, native = Utf16.encode chars := by
      rintro ⟨chars, rfl⟩
      rw [Windows.toStr_encode hstd] at htext
      cases htext
    exact ⟨_, windowsU16s_of_not hchars, rfl⟩

theorem Windows.eq_iff {a b : Value} {x y : List UInt16} (ha : Canonical a) (hb : Canonical b)
    (hx : osStringFromRaw std (toRaw a) = .ok x) (hy : osStringFromRaw std (toRaw b) = .ok y) :
    a = b ↔ x = y := by
  constructor
  · rintro rfl
    exact Except.ok.inj (hx.symm.trans hy)
  · rintro rfl
    cases a with
    | unixBytes bytes => cases hx
    | utf8 str =>
      obtain ⟨chars, rfl⟩ := ha
      obtain rfl := Except.ok.inj hx
      cases b with
      | unixBytes bytes => cases hy
      | utf8 str' =>
        obtain ⟨chars', rfl⟩ := hb
        have hunits : Utf16.encode chars' = Utf16.encode chars := by
          rw [← hstd.ofStr, ← hstd.ofStr]
          exact Except.ok.inj hy
        have htext := Windows.toStr_encode hstd chars'
        rw [hunits, Windows.toStr_encode hstd] at htext
        rw [Option.some.inj htext]
      | windowsU16s u16s =>
        cases hy
        exact absurd ⟨chars, hstd.ofStr chars⟩ hb
    | windowsU16s u16s =>
      cases hx
      cases b with
      | unixBytes bytes => cases hy
      | utf8 str' =>
        obtain ⟨chars, rfl⟩ := hb
        have hunits := Except.ok.inj hy
        exact absurd ⟨chars, hunits.symm.trans (hstd.ofStr chars)⟩ ha
      | windowsU16s u16s' =>
        cases hy
        rfl

end Windows

/-- **One identity.** On both platforms every native string comes back from Roc as it was, and two
values that the platform accepts are equal exactly if their native strings are. -/
theorem os_str_identity {std : WideStrings} (hstd : std.Documented) (trap : Bool)
    (badIndex : List UInt8 → ℕ) :
    (∀ native, ∃ value, fromRaw trap badIndex (Unix.rawOsStrFromOsStr native) = .ok value ∧
      Unix.osStringFromRaw (toRaw value) = .ok native) ∧
    (∀ native, ∃ value, fromRaw trap badIndex (Windows.rawOsStrFromOsStr std native) = .ok value ∧
      Windows.osStringFromRaw std (toRaw value) = .ok native) ∧
    ∀ a b, Built trap badIndex a → Built trap badIndex b →
      (∀ x y, Unix.osStringFromRaw (toRaw a) = .ok x → Unix.osStringFromRaw (toRaw b) = .ok y →
        (isEq a b = true ↔ x = y)) ∧
      ∀ x y, Windows.osStringFromRaw std (toRaw a) = .ok x →
        Windows.osStringFromRaw std (toRaw b) = .ok y → (isEq a b = true ↔ x = y) := by
  refine ⟨Unix.roundTrip, Windows.roundTrip hstd, fun a b ha hb => ⟨fun x y hx hy => ?_,
    fun x y hx hy => ?_⟩⟩
  · rw [isEq_iff, Unix.eq_iff ha.canonical hb.canonical hx hy]
  · rw [isEq_iff, Windows.eq_iff hstd ha.canonical hb.canonical hx hy]

/-! ## An instance -/

/-- The platform's own conversions, which do what the standard library documents. -/
def ownStrings : WideStrings where
  toStr units := ((utf16ToStr false (fun _ => 0) units).toOption.bind Except.toOption)
  ofStr str := (strToUtf16 false str).toOption.getD []

theorem ownStrings_toStr_encode (chars : List Char) :
    ownStrings.toStr (Utf16.encode chars) = some (Utf8.encode chars) := by
  unfold ownStrings
  dsimp only
  rw [utf16ToStr_eq, Path.utf16ToStr_encode]
  rfl

theorem ownStrings_documented : ownStrings.Documented where
  toStr units str := by
    constructor
    · intro h
      by_cases hchars : ∃ chars, units = Utf16.encode chars
      · obtain ⟨chars, rfl⟩ := hchars
        rw [ownStrings_toStr_encode] at h
        exact ⟨chars, rfl, (Option.some.inj h).symm⟩
      · obtain ⟨i, hstr⟩ := @utf16ToStr_of_not false (fun _ => 0) units hchars
        unfold ownStrings at h
        dsimp only at h
        rw [hstr] at h
        cases h
    · rintro ⟨chars, rfl, rfl⟩
      exact ownStrings_toStr_encode chars
  ofStr chars := by
    unfold ownStrings
    dsimp only
    rw [strToUtf16_eq, Path.strToUtf16_encode]
    rfl

/-- A text and the units of the same text are equal values, as their native strings are. -/
theorem os_str_identity_text :
    isEq (fromStr (ascii "a")) (.utf8 (ascii "a")) = true ∧
      windowsU16s true (fun _ => 0) [97] = .ok (.utf8 (ascii "a")) := by
  have hvalue : windowsU16s true (fun _ => 0) [97] = .ok (.utf8 (ascii "a")) :=
    windowsU16s_encode ['a']
  refine ⟨?_, hvalue⟩
  exact (((os_str_identity ownStrings_documented true fun _ => 0).2.2 _ _
    (.fromStr (isUtf8_of_all (by decide))) (.windowsU16s hvalue)).2 [97] [97] rfl rfl).mpr rfl

end BasicWebserver.Platform.OsStr
