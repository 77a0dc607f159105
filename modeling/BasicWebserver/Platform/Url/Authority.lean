import Mathlib.Data.Nat.Digits.Defs
import BasicWebserver.Foundation.Fallible
import BasicWebserver.Platform.Url.Text

/-!
# Hosts and ports

`parse_authority` of `platform/Url.roc`: DNS names, dotted-decimal IPv4 addresses, bracketed IPv6
addresses and ports. The decimal and hexadecimal accumulators never overflow, since the source
bounds the number of digits first.

What an authority is parsed to is canonical: written out, it is parsed to itself
(`parseAuthority_canonical`).
-/

namespace BasicWebserver.Platform.Url

open Ascii Splitting Fallible

inductive Scheme
  | http
  | https
  deriving DecidableEq

/-- The port that `parse_port` drops. -/
def Scheme.defaultPort : Scheme → UInt16
  | http => 80
  | https => 443

inductive ParseErr
  | credentialsNotAllowed
  | emptyHost
  | internationalHostUnsupported
  | invalidCharacter (byte : UInt8)
  | invalidHost (host : Str)
  | invalidIpv4 (host : Str)
  | invalidIpv6 (host : Str)
  | invalidPercentEncoding (index : ℕ)
  | invalidPort (port : Str)
  | missingAuthority
  | missingScheme
  | portOutOfRange (port : ℕ)
  | unsupportedScheme (scheme : Str)
  deriving DecidableEq

/-! ## DNS names, IPv4 addresses and ports -/

def parseDecimal (raw : Str) : Option ℕ :=
  if raw.isEmpty || !raw.all isDigit then none else some (ofDecimal raw)

def parseIpv4Parts : List Str → List ℕ → Option (List ℕ)
  | [], out => some out
  | first :: rest, out =>
    if 3 < first.length then none
    else
      match parseDecimal first with
      | some value => if value ≤ 255 then parseIpv4Parts rest (out ++ [value]) else none
      | none => none

def validateIpv4 (rawHost : Str) : Except ParseErr Str :=
  let parts := splitOn [46] rawHost
  if parts.length ≠ 4 then .error (.invalidIpv4 rawHost)
  else
    match parseIpv4Parts parts [] with
    | none => .error (.invalidIpv4 rawHost)
    | some values => .ok ([46].intercalate (values.map decimal))

/-- The test of `validate_dns_name` on one label. -/
def isLabel (label : Str) : Bool :=
  0 < label.length && label.length ≤ 63 && isAlphanumeric (firstOrZero label) &&
    isAlphanumeric (lastOrZero label) && label.all fun byte => isAlphanumeric byte || byte = 45

def validateDnsName (rawHost : Str) : Except ParseErr Str :=
  let host := lower rawHost
  if host.length ≤ 253 && (splitOn [46] host).all isLabel then .ok host
  else .error (.invalidHost rawHost)

def validateHost (rawHost : Str) : Except ParseErr Str :=
  if rawHost.isEmpty then .error .emptyHost
  else if rawHost.any fun byte => 127 < byte then .error .internationalHostUnsupported
  else if rawHost.all fun byte => isDigit byte || byte = 46 then validateIpv4 rawHost
  else validateDnsName rawHost

def parsePort (raw : Str) (scheme : Scheme) : Except ParseErr (Option UInt16) :=
  if 5 < raw.length then .error (.invalidPort raw)
  else
    match parseDecimal raw with
    | none => .error (.invalidPort raw)
    | some value =>
      if 65535 < value then .error (.portOutOfRange value)
      else
        let port := UInt16.ofNat value
        .ok (if port = scheme.defaultPort then none else some port)

/-! ## IPv6 addresses -/

/-- One more digit of a group. -/
def hexStep (acc : UInt16) (byte : UInt8) : UInt16 := acc * 16 + (hexValue byte).toUInt16

def parseHexGroups : List Str → List UInt16 → Except ParseErr (List UInt16)
  | [], out => .ok out
  | first :: rest, out =>
    if first.isEmpty || 4 < first.length || !first.all isHex then .error (.invalidIpv6 first)
    else parseHexGroups rest (out ++ [first.foldl hexStep 0])

def parseIpv6Side (raw : Str) : Except ParseErr (List UInt16) :=
  if raw.isEmpty then .ok [] else parseHexGroups (splitOn [58] raw) []

def u16ToHexHelp (value : UInt16) (digits : Str) : Str :=
  let nextDigits := lowerHexDigitByte (value % 16).toUInt8 :: digits
  let next := value / 16
  if next = 0 then nextDigits else u16ToHexHelp next nextDigits
termination_by value.toNat
decreasing_by
  have hnext : (value / 16).toNat = value.toNat / 16 := UInt16.toNat_div value 16
  have hne : (value / 16).toNat ≠ 0 := fun h => ‹¬value / 16 = 0› (UInt16.toNat_inj.mp h)
  omega

def u16ToHex (value : UInt16) : Str := if value = 0 then [48] else u16ToHexHelp value []

def serializeIpv6 (groups : List UInt16) : Str := [58].intercalate (groups.map u16ToHex)

def validateIpv6 (raw : Str) : Except ParseErr Str :=
  let pieces := splitOn [58, 58] raw
  if 2 < pieces.length then .error (.invalidIpv6 raw)
  else if pieces.length = 1 then do
    let groups ← parseIpv6Side raw
    if groups.length = 8 then .ok (serializeIpv6 groups) else .error (.invalidIpv6 raw)
  else do
    let left ← parseIpv6Side (pieces.getD 0 [])
    let right ← parseIpv6Side (pieces.getD 1 [])
    let count := left.length + right.length
    if 8 ≤ count then .error (.invalidIpv6 raw)
    else .ok (serializeIpv6 (left ++ List.replicate (8 - count) 0 ++ right))

/-! ## Authorities -/

structure Authority where
  host : Str
  port : Option UInt16
  deriving DecidableEq

/-- The port after a bracketed address. -/
def parseIpv6Port (authority after : Str) (scheme : Scheme) : Except ParseErr (Option UInt16) :=
  if after.isEmpty then .ok none
  else if startsWith after [58] then parsePort (dropPrefix after [58]) scheme
  else .error (.invalidIpv6 authority)

def parseAuthority (authority : Str) (scheme : Scheme) : Except ParseErr Authority :=
  if startsWith authority [91] then
    match splitFirst authority [93] with
    | none => .error (.invalidIpv6 authority)
    | some (before, after) => do
      let host ← validateIpv6 (dropPrefix before [91])
      let port ← parseIpv6Port authority after scheme
      .ok ⟨[91] ++ host ++ [93], port⟩
  else
    match splitLast authority [58] with
    | none => do
      let host ← validateHost authority
      .ok ⟨host, none⟩
    | some (rawHost, rawPort) => do
      let host ← validateHost rawHost
      let port ← parsePort rawPort scheme
      .ok ⟨host, port⟩

/-- The port as `serialize` writes it. -/
def portStr : Option UInt16 → Str
  | none => []
  | some value => 58 :: decimal value.toNat

/-! ## Decimal numerals -/

theorem parseDecimal_decimal (n : ℕ) : parseDecimal (decimal n) = some n := by
  have hdigits : (decimal n).all isDigit := List.all_eq_true.mpr fun _ => isDigit_of_mem_decimal
  unfold parseDecimal
  rw [hdigits, List.isEmpty_eq_false_iff.mpr (decimal_ne_nil n), ofDecimal_decimal]
  rfl

theorem length_decimal_le {n k : ℕ} (hk : 0 < k) (hn : n < 10 ^ k) : (decimal n).length ≤ k := by
  unfold decimal numeral
  rw [List.length_map]
  exact Nat.toDigits_length 10 n k hk hn

theorem parsePort_decimal {port : UInt16} {scheme : Scheme} (h : port ≠ scheme.defaultPort) :
    parsePort (decimal port.toNat) scheme = .ok (some port) := by
  have hlt := port.toNat_lt
  unfold parsePort
  rw [if_neg (not_lt.mpr (length_decimal_le (by decide) (by omega))), parseDecimal_decimal]
  dsimp only
  rw [if_neg (by omega), UInt16.ofNat_toNat, if_neg h]

theorem parsePort_ne {raw : Str} {scheme : Scheme} {port : Option UInt16}
    (h : parsePort raw scheme = .ok port) : port ≠ some scheme.defaultPort := by
  unfold parsePort at h
  obtain ⟨-, h⟩ := ite_error_eq_ok.mp h
  split at h
  · cases h
  · obtain ⟨-, h⟩ := ite_error_eq_ok.mp h
    rw [← Except.ok.inj h]
    split_ifs with hport
    · exact nofun
    · exact fun heq => hport (Option.some.inj heq)

/-! ## Hosts -/

theorem parseIpv4Parts_some {parts : List Str} {out values : List ℕ}
    (h : parseIpv4Parts parts out = some values) : ∃ rest, values = out ++ rest ∧
    rest.length = parts.length ∧ ∀ value ∈ rest, value ≤ 255 := by
  induction parts generalizing out with
  | nil =>
    obtain rfl := Option.some.inj h
    exact ⟨[], (List.append_nil out).symm, rfl, nofun⟩
  | cons first parts ih =>
    unfold parseIpv4Parts at h
    split_ifs at h
    split at h
    · rename_i value _
      split_ifs at h with hvalue
      obtain ⟨rest, rfl, hlen, hrest⟩ := ih h
      exact ⟨value :: rest, List.append_assoc .., congrArg (· + 1) hlen,
        List.forall_mem_cons.mpr ⟨hvalue, hrest⟩⟩
    · cases h

theorem parseIpv4Parts_decimal {values : List ℕ} (h : ∀ value ∈ values, value ≤ 255) (out : List ℕ) :
    parseIpv4Parts (values.map decimal) out = some (out ++ values) := by
  induction values generalizing out with
  | nil => exact congrArg some (List.append_nil out).symm
  | cons value values ih =>
    obtain ⟨hvalue, hvalues⟩ := List.forall_mem_cons.mp h
    rw [List.map_cons]
    unfold parseIpv4Parts
    rw [if_neg (not_lt.mpr (length_decimal_le (by decide) (by omega))), parseDecimal_decimal]
    dsimp only
    rw [if_pos hvalue, ih hvalues, List.append_assoc, List.singleton_append]

theorem notMem_decimal {byte : UInt8} (h : isDigit byte = false) (n : ℕ) : byte ∉ decimal n :=
  fun hmem => Bool.false_ne_true (h.symm.trans (isDigit_of_mem_decimal hmem))

theorem validateIpv4_ok {rawHost host : Str} (h : validateIpv4 rawHost = .ok host) :
    validateIpv4 host = .ok host ∧ ∀ byte ∈ host, isDigit byte || byte = 46 := by
  unfold validateIpv4 at h
  obtain ⟨hparts, h⟩ := ite_error_eq_ok.mp h
  split at h
  · cases h
  · rename_i values hvalues
    obtain ⟨rest, hrest, hlen, hle⟩ := parseIpv4Parts_some hvalues
    rw [List.nil_append] at hrest
    subst hrest
    have hfour : values.length = 4 := hlen.trans (not_not.mp hparts)
    have hsplit : splitOn [46] ([46].intercalate (values.map decimal)) = values.map decimal := by
      refine splitOn_intercalate ?_ ?_
      · rintro hnil
        rw [List.map_eq_nil_iff.mp hnil] at hfour
        cases hfour
      · rintro part hpart
        obtain ⟨value, -, rfl⟩ := List.mem_map.mp hpart
        exact notMem_decimal (by decide) value
    cases h
    constructor
    · unfold validateIpv4
      dsimp only
      rw [hsplit, List.length_map, hfour, parseIpv4Parts_decimal hle]
      rfl
    · intro byte hbyte
      rcases mem_intercalate hbyte with h46 | ⟨part, hpart, hbyte⟩
      · rw [List.mem_singleton.mp h46]
        rfl
      · obtain ⟨value, -, rfl⟩ := List.mem_map.mp hpart
        rw [isDigit_of_mem_decimal hbyte]
        rfl

/-- A byte of a DNS name or an IPv4 address. -/
def isHostByte (byte : UInt8) : Bool := isAlphanumeric byte || byte = 45 || byte = 46

theorem host_byte_facts : ∀ byte : UInt8, (isDigit byte || byte = 46 → isHostByte byte) ∧
    (isAlphanumeric byte || byte = 45 → isHostByte byte) ∧
    (isHostByte byte → ¬ decide (127 < byte)) ∧ toLower (toLower byte) = toLower byte ∧
    (isDigit (toLower byte) || toLower byte = 46) = (isDigit byte || byte = 46) :=
  forall_byte (by decide +kernel)

theorem isHostByte_of_digit (byte : UInt8) : isDigit byte || byte = 46 → isHostByte byte :=
  (host_byte_facts byte).1

theorem isHostByte_of_label (byte : UInt8) : isAlphanumeric byte || byte = 45 → isHostByte byte :=
  (host_byte_facts byte).2.1

theorem toLower_toLower (byte : UInt8) : toLower (toLower byte) = toLower byte :=
  (host_byte_facts byte).2.2.2.1

theorem lower_lower (str : Str) : lower (lower str) = lower str := by
  unfold lower
  rw [List.map_map]
  exact List.map_congr_left fun byte _ => toLower_toLower byte

theorem isDigit_toLower (byte : UInt8) :
    (isDigit (toLower byte) || toLower byte = 46) = (isDigit byte || byte = 46) :=
  (host_byte_facts byte).2.2.2.2

theorem all_isDigit_lower (str : Str) : ((lower str).all fun byte => isDigit byte || byte = 46) =
    str.all fun byte => isDigit byte || byte = 46 := by
  unfold lower
  rw [List.all_map]
  exact congrArg str.all (funext isDigit_toLower)

theorem validateDnsName_ok {rawHost host : Str} (h : validateDnsName rawHost = .ok host) :
    host = lower rawHost ∧ validateDnsName host = .ok host ∧ ∀ byte ∈ host, isHostByte byte := by
  unfold validateDnsName at h
  dsimp only at h
  split_ifs at h with hvalid
  obtain rfl := Except.ok.inj h
  refine ⟨rfl, ?_, ?_⟩
  · unfold validateDnsName
    dsimp only
    rw [lower_lower, if_pos hvalid]
  · intro byte hbyte
    rw [← intercalate_splitOn (List.cons_ne_nil 46 []) (lower rawHost)] at hbyte
    rcases mem_intercalate hbyte with h46 | ⟨label, hlabel, hbyte⟩
    · rw [List.mem_singleton.mp h46]
      rfl
    · have hall := List.all_eq_true.mp (Bool.and_eq_true_iff.mp hvalid).2 label hlabel
      exact isHostByte_of_label byte (List.all_eq_true.mp (Bool.and_eq_true_iff.mp hall).2 byte hbyte)

theorem any_isHostByte {host : Str} (h : ∀ byte ∈ host, isHostByte byte) :
    ¬ host.any fun byte => 127 < byte := by
  intro hany
  obtain ⟨byte, hmem, hlt⟩ := List.any_eq_true.mp hany
  exact (host_byte_facts byte).2.2.1 (h byte hmem) hlt

theorem validateHost_ok {rawHost host : Str} (h : validateHost rawHost = .ok host) :
    validateHost host = .ok host ∧ host ≠ [] ∧ ∀ byte ∈ host, isHostByte byte := by
  unfold validateHost at h
  obtain ⟨hempty, h⟩ := ite_error_eq_ok.mp h
  obtain ⟨-, h⟩ := ite_error_eq_ok.mp h
  -- what is parsed again takes the same branch
  have hagain : host ≠ [] → (∀ byte ∈ host, isHostByte byte) → validateHost host =
      if host.all fun byte => isDigit byte || byte = 46 then validateIpv4 host
      else validateDnsName host := by
    intro hne hbytes
    unfold validateHost
    rw [if_neg (mt List.isEmpty_iff.mp hne), if_neg (any_isHostByte hbytes)]
  split_ifs at h with hdigits
  · obtain ⟨hhost, hall⟩ := validateIpv4_ok h
    have hne : host ≠ [] := by
      rintro rfl
      exact absurd hhost (by decide)
    have hbytes : ∀ byte ∈ host, isHostByte byte := fun byte hb => isHostByte_of_digit _ (hall byte hb)
    refine ⟨?_, hne, hbytes⟩
    rw [hagain hne hbytes, if_pos (List.all_eq_true.mpr hall), hhost]
  · obtain ⟨rfl, hhost, hbytes⟩ := validateDnsName_ok h
    have hne : lower rawHost ≠ [] := by
      unfold lower
      exact mt List.map_eq_nil_iff.mp (mt List.isEmpty_iff.mpr hempty)
    refine ⟨?_, hne, hbytes⟩
    rw [hagain hne hbytes, all_isDigit_lower, if_neg hdigits, hhost]

/-! ## IPv6 addresses -/

theorem lowerHexDigitByte_spec (value : UInt16) :
    isHex (lowerHexDigitByte (value % 16).toUInt8) ∧
      (hexValue (lowerHexDigitByte (value % 16).toUInt8)).toNat = value.toNat % 16 := by
  have hdigit : ∀ n < 16, isHex (lowerHexDigitByte (UInt8.ofNat n)) ∧
      (hexValue (lowerHexDigitByte (UInt8.ofNat n))).toNat = n := by decide
  have hbyte : (value % 16).toUInt8 = UInt8.ofNat (value.toNat % 16) := by
    apply UInt8.toNat_inj.mp
    rw [UInt16.toNat_toUInt8, UInt16.toNat_mod, UInt8.toNat_ofNat']
    rfl
  rw [hbyte]
  exact hdigit _ (Nat.mod_lt _ (by decide))

theorem hexStep_lowerHexDigitByte (value : UInt16) :
    hexStep (value / 16) (lowerHexDigitByte (value % 16).toUInt8) = value := by
  have hlt := value.toNat_lt
  apply UInt16.toNat_inj.mp
  unfold hexStep
  rw [UInt16.toNat_add, UInt16.toNat_mul, UInt16.toNat_div, UInt8.toNat_toUInt16,
    (lowerHexDigitByte_spec value).2]
  show (value.toNat / 16 * 16 % 2 ^ 16 + value.toNat % 16) % 2 ^ 16 = value.toNat
  omega

theorem foldl_u16ToHexHelp (value : UInt16) (digits : Str) :
    (u16ToHexHelp value digits).foldl hexStep 0 = digits.foldl hexStep value := by
  fun_induction u16ToHexHelp value digits with
  | case1 value digits nextDigits next hnext =>
    show digits.foldl hexStep (hexStep 0 (lowerHexDigitByte (value % 16).toUInt8)) = _
    conv_lhs => rw [← hnext]
    rw [hexStep_lowerHexDigitByte]
  | case2 value digits nextDigits next hnext ih =>
    rw [ih]
    show digits.foldl hexStep (hexStep (value / 16) (lowerHexDigitByte (value % 16).toUInt8)) = _
    rw [hexStep_lowerHexDigitByte]

theorem isHex_of_mem_u16ToHexHelp {value : UInt16} {digits : Str}
    (hdigits : ∀ byte ∈ digits, isHex byte) : ∀ byte ∈ u16ToHexHelp value digits, isHex byte := by
  fun_induction u16ToHexHelp value digits with
  | case1 value digits nextDigits next hnext =>
    exact List.forall_mem_cons.mpr ⟨(lowerHexDigitByte_spec value).1, hdigits⟩
  | case2 value digits nextDigits next hnext ih =>
    exact ih (List.forall_mem_cons.mpr ⟨(lowerHexDigitByte_spec value).1, hdigits⟩)

theorem length_u16ToHexHelp {value : UInt16} {digits : Str} {k : ℕ} (h : value.toNat < 16 ^ (k + 1)) :
    (u16ToHexHelp value digits).length ≤ k + 1 + digits.length := by
  induction k generalizing value digits with
  | zero =>
    have hnext : value / 16 = 0 := by
      apply UInt16.toNat_inj.mp
      rw [UInt16.toNat_div]
      exact Nat.div_eq_of_lt h
    unfold u16ToHexHelp
    rw [if_pos hnext, List.length_cons]
    omega
  | succ k ih =>
    have hnext : (value / 16).toNat < 16 ^ (k + 1) := by
      rw [UInt16.toNat_div]
      exact Nat.div_lt_of_lt_mul (pow_succ' 16 (k + 1) ▸ h)
    unfold u16ToHexHelp
    dsimp only
    split_ifs
    · rw [List.length_cons]
      omega
    · have hlen := @ih (value / 16) (lowerHexDigitByte (value % 16).toUInt8 :: digits) hnext
      rw [List.length_cons] at hlen
      omega

theorem u16ToHex_spec (value : UInt16) : u16ToHex value ≠ [] ∧ (u16ToHex value).length ≤ 4 ∧
    (∀ byte ∈ u16ToHex value, isHex byte) ∧ (u16ToHex value).foldl hexStep 0 = value := by
  unfold u16ToHex
  split_ifs with hzero
  · subst hzero
    decide +kernel
  · have hfold := foldl_u16ToHexHelp value []
    refine ⟨?_, length_u16ToHexHelp (k := 3) value.toNat_lt, isHex_of_mem_u16ToHexHelp nofun, hfold⟩
    intro hnil
    rw [hnil] at hfold
    exact hzero hfold.symm

theorem parseHexGroups_u16ToHex (groups out : List UInt16) :
    parseHexGroups (groups.map u16ToHex) out = .ok (out ++ groups) := by
  induction groups generalizing out with
  | nil => exact congrArg Except.ok (List.append_nil out).symm
  | cons group groups ih =>
    obtain ⟨hne, hlen, hhex, hvalue⟩ := u16ToHex_spec group
    have hgood : ¬ ((u16ToHex group).isEmpty || 4 < (u16ToHex group).length ||
        !(u16ToHex group).all isHex) := by
      rw [List.all_eq_true.mpr hhex, List.isEmpty_eq_false_iff.mpr hne,
        decide_eq_false (not_lt.mpr hlen)]
      exact Bool.false_ne_true
    rw [List.map_cons]
    unfold parseHexGroups
    rw [if_neg hgood, hvalue, ih, List.append_assoc, List.singleton_append]

theorem notMem_u16ToHex {byte : UInt8} (h : isHex byte = false) (group : UInt16) :
    byte ∉ u16ToHex group :=
  fun hmem => Bool.false_ne_true (h.symm.trans ((u16ToHex_spec group).2.2.1 byte hmem))

theorem splitOn_serializeIpv6 {groups : List UInt16} (h : groups ≠ []) :
    splitOn [58] (serializeIpv6 groups) = groups.map u16ToHex := by
  refine splitOn_intercalate (mt List.map_eq_nil_iff.mp h) fun part hpart => ?_
  obtain ⟨group, -, rfl⟩ := List.mem_map.mp hpart
  exact notMem_u16ToHex (by decide) group

/-- No group is empty, so that two colons never meet. -/
theorem length_splitOn_serializeIpv6 {groups : List UInt16} (h : groups ≠ []) :
    (splitOn [58, 58] (serializeIpv6 groups)).length = 1 := by
  rw [splitOn_eq_singleton, List.length_singleton]
  rintro ⟨a, b, hab⟩
  have hempty : [] ∈ groups.map u16ToHex := by
    rw [← splitOn_serializeIpv6 h, ← hab, List.append_assoc,
      show a ++ ([58, 58] ++ b) = a ++ ([58] ++ ([58] ++ b)) from rfl,
      splitOn_append_append List.not_mem_nil, splitOn_sep (List.cons_ne_nil _ _)]
    exact List.mem_append_right _ List.mem_cons_self
  obtain ⟨group, -, hgroup⟩ := List.mem_map.mp hempty
  exact (u16ToHex_spec group).1 hgroup

theorem validateIpv6_serializeIpv6 {groups : List UInt16} (h : groups.length = 8) :
    validateIpv6 (serializeIpv6 groups) = .ok (serializeIpv6 groups) := by
  have hne : groups ≠ [] := by
    rintro rfl
    cases h
  have hempty : ¬ (serializeIpv6 groups).isEmpty := by
    intro hempty
    have hsplit := splitOn_serializeIpv6 hne
    rw [List.isEmpty_iff.mp hempty, splitOn_nil] at hsplit
    have hlen := congrArg List.length hsplit
    rw [List.length_map, h] at hlen
    cases hlen
  have hside : parseIpv6Side (serializeIpv6 groups) = .ok groups := by
    unfold parseIpv6Side
    rw [if_neg hempty, splitOn_serializeIpv6 hne, parseHexGroups_u16ToHex, List.nil_append]
  unfold validateIpv6
  dsimp only
  rw [length_splitOn_serializeIpv6 hne, hside]
  exact if_pos h

theorem validateIpv6_ok {raw host : Str} (h : validateIpv6 raw = .ok host) :
    ∃ groups : List UInt16, groups.length = 8 ∧ host = serializeIpv6 groups := by
  unfold validateIpv6 at h
  obtain ⟨-, h⟩ := ite_error_eq_ok.mp h
  split_ifs at h
  · obtain ⟨groups, -, h⟩ := bind_eq_ok.mp h
    split_ifs at h with hlen
    exact ⟨groups, hlen, (Except.ok.inj h).symm⟩
  · obtain ⟨left, -, h⟩ := bind_eq_ok.mp h
    obtain ⟨right, -, h⟩ := bind_eq_ok.mp h
    obtain ⟨hcount, h⟩ := ite_error_eq_ok.mp h
    refine ⟨_, ?_, (Except.ok.inj h).symm⟩
    rw [List.length_append, List.length_append, List.length_replicate]
    omega

/-! ## Canonical authorities -/

/-- A host as `parse_authority` returns it. -/
inductive CanonicalHost : Str → Prop
  | name {host : Str} (h : validateHost host = .ok host) : CanonicalHost host
  | address (groups : List UInt16) (h : groups.length = 8) :
      CanonicalHost ([91] ++ serializeIpv6 groups ++ [93])

def isAuthorityByte (byte : UInt8) : Bool :=
  isHostByte byte || byte = 58 || byte = 91 || byte = 93

theorem isAuthorityByte_of_isHex (byte : UInt8) : isHex byte → isAuthorityByte byte := by
  revert byte
  exact forall_byte (by decide +kernel)

theorem isAuthorityByte_of_isDigit (byte : UInt8) (h : isDigit byte) : isAuthorityByte byte := by
  unfold isAuthorityByte
  rw [isHostByte_of_digit byte (by rw [h]; rfl)]
  rfl

theorem mem_serializeIpv6 {groups : List UInt16} {byte : UInt8} (h : byte ∈ serializeIpv6 groups) :
    byte = 58 ∨ isHex byte := by
  rcases mem_intercalate h with h58 | ⟨part, hpart, hbyte⟩
  · exact .inl (List.mem_singleton.mp h58)
  · obtain ⟨group, -, rfl⟩ := List.mem_map.mp hpart
    exact .inr ((u16ToHex_spec group).2.2.1 byte hbyte)

theorem CanonicalHost.ne_nil {host : Str} (h : CanonicalHost host) : host ≠ [] := by
  cases h with
  | name h => exact (validateHost_ok h).2.1
  | address groups h => exact List.cons_ne_nil _ _

theorem CanonicalHost.isAuthorityByte {host : Str} (h : CanonicalHost host) :
    ∀ byte ∈ host, isAuthorityByte byte := by
  intro byte hbyte
  cases h with
  | name h =>
    have hhost := (validateHost_ok h).2.2 byte hbyte
    unfold Url.isAuthorityByte
    rw [hhost]
    rfl
  | address groups h =>
    rcases List.mem_append.mp hbyte with hbyte | hbyte
    · rcases List.mem_cons.mp hbyte with rfl | hbyte
      · rfl
      · rcases mem_serializeIpv6 hbyte with rfl | hhex
        · rfl
        · exact isAuthorityByte_of_isHex byte hhex
    · rw [List.mem_singleton.mp hbyte]
      rfl

theorem isAuthorityByte_of_mem_portStr {port : Option UInt16} :
    ∀ byte ∈ portStr port, isAuthorityByte byte := by
  intro byte hbyte
  cases port with
  | none => exact absurd hbyte List.not_mem_nil
  | some value =>
    rcases List.mem_cons.mp hbyte with rfl | hbyte
    · rfl
    · exact isAuthorityByte_of_isDigit byte (isDigit_of_mem_decimal hbyte)

theorem parseAuthority_ok {authority : Str} {scheme : Scheme} {parsed : Authority}
    (h : parseAuthority authority scheme = .ok parsed) :
    CanonicalHost parsed.host ∧ parsed.port ≠ some scheme.defaultPort := by
  unfold parseAuthority at h
  split_ifs at h
  · split at h
    · cases h
    · obtain ⟨host, hhost, h⟩ := bind_eq_ok.mp h
      obtain ⟨port, hport, h⟩ := bind_eq_ok.mp h
      obtain ⟨groups, hlen, rfl⟩ := validateIpv6_ok hhost
      obtain rfl := Except.ok.inj h
      refine ⟨.address groups hlen, ?_⟩
      unfold parseIpv6Port at hport
      split_ifs at hport
      · exact Except.ok.inj hport ▸ nofun
      · exact parsePort_ne hport
  · split at h
    · obtain ⟨host, hhost, h⟩ := bind_eq_ok.mp h
      obtain rfl := Except.ok.inj h
      exact ⟨.name (validateHost_ok hhost).1, nofun⟩
    · obtain ⟨host, hhost, h⟩ := bind_eq_ok.mp h
      obtain ⟨port, hport, h⟩ := bind_eq_ok.mp h
      obtain rfl := Except.ok.inj h
      exact ⟨.name (validateHost_ok hhost).1, parsePort_ne hport⟩

theorem startsWith_cons {byte c : UInt8} {str : Str} : startsWith (byte :: str) [c] ↔ byte = c := by
  rw [startsWith_iff (List.cons_ne_nil _ _), List.cons_prefix_cons]
  exact ⟨fun h => h.1.symm, fun h => ⟨h.symm, List.nil_prefix⟩⟩

theorem parseIpv6Port_portStr {authority : Str} {port : Option UInt16} {scheme : Scheme}
    (hport : port ≠ some scheme.defaultPort) :
    parseIpv6Port authority (portStr port) scheme = .ok port := by
  cases port with
  | none => rfl
  | some value =>
    unfold parseIpv6Port portStr
    rw [if_neg (by exact Bool.false_ne_true), if_pos (startsWith_cons.mpr rfl)]
    exact (congrArg (parsePort · scheme) (dropPrefix_append [] (decimal value.toNat))).trans
      (parsePort_decimal fun h => hport (congrArg some h))

theorem parseAuthority_canonical {host : Str} {port : Option UInt16} {scheme : Scheme}
    (hhost : CanonicalHost host) (hport : port ≠ some scheme.defaultPort) :
    parseAuthority (host ++ portStr port) scheme = .ok ⟨host, port⟩ := by
  cases hhost with
  | name h =>
    obtain ⟨-, hne, hbytes⟩ := validateHost_ok h
    have hnotMem : ∀ byte, isHostByte byte = false → byte ∉ host :=
      fun byte hbyte hmem => Bool.false_ne_true (hbyte.symm.trans (hbytes byte hmem))
    have hstart : ¬ startsWith (host ++ portStr port) [91] := by
      obtain ⟨first, rest, rfl⟩ := List.exists_cons_of_ne_nil hne
      rw [List.cons_append, startsWith_cons]
      rintro rfl
      exact hnotMem 91 (by decide) List.mem_cons_self
    unfold parseAuthority
    rw [if_neg hstart]
    cases port with
    | none =>
      rw [portStr, List.append_nil, splitLast_of_notMem (hnotMem 58 (by decide)), h]
      rfl
    | some value =>
      rw [portStr, splitLast_append _ (notMem_decimal (by decide) _)]
      dsimp only
      rw [h, parsePort_decimal fun heq => hport (congrArg some heq)]
      rfl
  | address groups h =>
    have hsplit : splitFirst ([91] ++ serializeIpv6 groups ++ [93] ++ portStr port) [93] =
        some ([91] ++ serializeIpv6 groups, portStr port) := by
      rw [List.append_assoc]
      refine splitFirst_append [] ?_ _
      intro hmem
      rcases List.mem_cons.mp hmem with hmem | hmem
      · exact absurd hmem (by decide)
      · rcases mem_serializeIpv6 hmem with hmem | hmem
        · exact absurd hmem (by decide)
        · exact absurd hmem (by decide)
    unfold parseAuthority
    rw [if_pos (by exact startsWith_cons.mpr rfl), hsplit]
    dsimp only
    rw [show dropPrefix ([91] ++ serializeIpv6 groups) [91] = serializeIpv6 groups from
      dropPrefix_append [] _, validateIpv6_serializeIpv6 h, parseIpv6Port_portStr hport]
    rfl

end BasicWebserver.Platform.Url
