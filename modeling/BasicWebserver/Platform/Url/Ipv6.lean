import Mathlib.Data.Nat.Digits.Lemmas
import BasicWebserver.Platform.Url.Authority

/-!
# IPv6 addresses

What the addresses that `validate_ipv6` of `platform/Url.roc` accepts are, and what they stand for. An
address is eight groups between colons, or two lists of groups around a double colon that stands for
the zeroes between them (`Address`). The parser reads exactly these (`validateIpv6_eq_ok`). Written out
again, the groups are those of the address, and no other way of writing them is a result
(`ipv6_canonical`).
-/

namespace BasicWebserver.Platform.Url

open Ascii Splitting Fallible

/-! ## Addresses and their values -/

def IsGroup (group : Str) : Prop := group ≠ [] ∧ group.length ≤ 4 ∧ ∀ byte ∈ group, isHex byte

/-- The number that hexadecimal digits stand for. -/
def hexNat (digits : Str) : ℕ := digits.foldl (fun n byte => n * 16 + (hexValue byte).toNat) 0

/-- The 128-bit value of eight groups, the first of which is the most significant one. -/
def addressValue (groups : List ℕ) : ℕ := Nat.ofDigits 65536 groups.reverse

/-- The address stands for the value. -/
inductive Address : Str → ℕ → Prop
  | full (groups : List Str) (hgroups : ∀ group ∈ groups, IsGroup group) (hlen : groups.length = 8) :
      Address ([58].intercalate groups) (addressValue (groups.map hexNat))
  | elided (left right : List Str) (hleft : ∀ group ∈ left, IsGroup group)
      (hright : ∀ group ∈ right, IsGroup group) (hlen : left.length + right.length ≤ 7) :
      Address ([58].intercalate left ++ [58, 58] ++ [58].intercalate right)
        (addressValue (left.map hexNat ++
          List.replicate (8 - (left.length + right.length)) 0 ++ right.map hexNat))

/-! ## Groups -/

theorem hexValue_lt (byte : UInt8) : isHex byte → (hexValue byte).toNat < 16 := by
  revert byte
  exact forall_byte (by decide +kernel)

theorem hexNat_append_singleton (digits : Str) (byte : UInt8) :
    hexNat (digits ++ [byte]) = hexNat digits * 16 + (hexValue byte).toNat := by
  unfold hexNat
  rw [List.foldl_append]
  rfl

theorem hexNat_lt {digits : Str} (h : ∀ byte ∈ digits, isHex byte) :
    hexNat digits < 16 ^ digits.length := by
  induction digits using List.reverseRecOn with
  | nil => decide
  | append_singleton digits byte ih =>
    have hdigits := ih fun b hb => h b (List.mem_append_left _ hb)
    have hbyte := hexValue_lt byte (h byte (List.mem_append_right _ (List.mem_singleton_self byte)))
    rw [hexNat_append_singleton, List.length_append, List.length_singleton, pow_succ]
    omega

theorem toNat_hexStep (acc : UInt16) (byte : UInt8) :
    (hexStep acc byte).toNat = (acc.toNat * 16 % 2 ^ 16 + (hexValue byte).toNat) % 2 ^ 16 := by
  unfold hexStep
  rw [UInt16.toNat_add, UInt16.toNat_mul, UInt8.toNat_toUInt16]
  rfl

theorem toNat_foldl_hexStep {digits : Str} (hlen : digits.length ≤ 4)
    (h : ∀ byte ∈ digits, isHex byte) : (digits.foldl hexStep 0).toNat = hexNat digits := by
  induction digits using List.reverseRecOn with
  | nil => rfl
  | append_singleton digits byte ih =>
    have hlt := hexNat_lt h
    have hpow : 16 ^ (digits ++ [byte]).length ≤ 16 ^ 4 := Nat.pow_le_pow_right (by decide) hlen
    have hdigits := ih (by rw [List.length_append, List.length_singleton] at hlen; omega) fun b hb =>
      h b (List.mem_append_left _ hb)
    rw [hexNat_append_singleton] at hlt ⊢
    rw [List.foldl_append]
    show (hexStep (digits.foldl hexStep 0) byte).toNat = _
    rw [toNat_hexStep, hdigits]
    omega

theorem isGroup_u16ToHex (value : UInt16) : IsGroup (u16ToHex value) :=
  ⟨(u16ToHex_spec value).1, (u16ToHex_spec value).2.1, (u16ToHex_spec value).2.2.1⟩

theorem IsGroup.notMem {group : Str} (h : IsGroup group) : 58 ∉ group :=
  fun hmem => absurd (h.2.2 58 hmem) (by decide)

/-! ## What the parser reads -/

theorem parseHexGroups_eq_ok {parts : List Str} {out values : List UInt16} :
    parseHexGroups parts out = .ok values ↔
      (∀ group ∈ parts, IsGroup group) ∧ values = out ++ parts.map (·.foldl hexStep 0) := by
  induction parts generalizing out with
  | nil =>
    rw [List.map_nil, List.append_nil]
    exact ⟨fun h => ⟨fun _ hg => absurd hg List.not_mem_nil, (Except.ok.inj h).symm⟩,
      fun h => congrArg Except.ok h.2.symm⟩
  | cons group parts ih =>
    have hgroup : ¬(group.isEmpty || 4 < group.length || !group.all isHex) ↔ IsGroup group := by
      simp [IsGroup, and_assoc]
    unfold parseHexGroups
    rw [ite_error_eq_ok, hgroup, ih, List.forall_mem_cons, List.map_cons, List.append_assoc,
      List.singleton_append, and_assoc]

theorem parseIpv6Side_eq_ok {raw : Str} {values : List UInt16} :
    parseIpv6Side raw = .ok values ↔ ∃ groups : List Str, (∀ group ∈ groups, IsGroup group) ∧
      raw = [58].intercalate groups ∧ values = groups.map (·.foldl hexStep 0) := by
  unfold parseIpv6Side
  constructor
  · intro h
    split_ifs at h with hempty
    · exact ⟨[], fun _ hg => absurd hg List.not_mem_nil, List.isEmpty_iff.mp hempty,
        (Except.ok.inj h).symm⟩
    · obtain ⟨hgroups, hvalues⟩ := parseHexGroups_eq_ok.mp h
      exact ⟨_, hgroups, (intercalate_splitOn (List.cons_ne_nil _ _) raw).symm, hvalues⟩
  · rintro ⟨groups, hgroups, rfl, rfl⟩
    by_cases hne : groups = []
    · rw [hne]
      rfl
    · have hjoin : [58].intercalate groups ≠ [] :=
        (intercalate_ne_nil fun group hgroup => (hgroups group hgroup).1).mpr hne
      rw [if_neg (mt List.isEmpty_iff.mp hjoin),
        splitOn_intercalate hne fun group hg => (hgroups group hg).notMem]
      exact parseHexGroups_eq_ok.mpr ⟨hgroups, rfl⟩

theorem not_doubleColon {groups : List Str} (hgroups : ∀ group ∈ groups, IsGroup group) :
    ¬[58, 58] <:+: [58].intercalate groups ++ [58] := by
  rintro ⟨u, v, huv⟩
  by_cases hne : groups = []
  · have hlen := congrArg List.length huv
    rw [hne] at hlen
    simp at hlen
    omega
  have hsplit : splitOn [58] ([58].intercalate groups ++ [58]) = groups ++ [[]] := by
    rw [show [58].intercalate groups ++ [58] = [58].intercalate (groups ++ [[]]) by
      rw [intercalate_append hne (List.cons_ne_nil _ _), List.intercalate_singleton, List.append_nil]]
    refine splitOn_intercalate (by simp) fun group hg => ?_
    rcases List.mem_append.mp hg with hg | hg
    · exact (hgroups group hg).notMem
    · rw [List.mem_singleton.mp hg]
      exact List.not_mem_nil
  rw [← huv, List.append_assoc, show u ++ ([58, 58] ++ v) = u ++ ([58] ++ ([58] ++ v)) from rfl,
    splitOn_append_append List.not_mem_nil, splitOn_sep (List.cons_ne_nil _ _)] at hsplit
  obtain ⟨init, last, hlast⟩ : ∃ init last, splitOn [58] v = init ++ [last] :=
    ⟨_, _, (List.dropLast_append_getLast (splitOn_ne_nil [58] v)).symm⟩
  rw [hlast, ← List.cons_append, ← List.append_assoc] at hsplit
  have hgroups' := (List.append_inj' hsplit rfl).1
  have hempty : [] ∈ groups := by
    rw [← hgroups']
    exact List.mem_append_right _ List.mem_cons_self
  exact (hgroups [] hempty).1 rfl

/-- The values of the groups that an address has, with the zeroes between them. -/
inductive Reads : Str → List UInt16 → Prop
  | full (groups : List Str) (hgroups : ∀ group ∈ groups, IsGroup group) (hlen : groups.length = 8) :
      Reads ([58].intercalate groups) (groups.map (·.foldl hexStep 0))
  | elided (left right : List Str) (hleft : ∀ group ∈ left, IsGroup group)
      (hright : ∀ group ∈ right, IsGroup group) (hlen : left.length + right.length ≤ 7) :
      Reads ([58].intercalate left ++ [58, 58] ++ [58].intercalate right)
        (left.map (·.foldl hexStep 0) ++ List.replicate (8 - (left.length + right.length)) 0 ++
          right.map (·.foldl hexStep 0))

theorem Reads.length {raw : Str} {values : List UInt16} (h : Reads raw values) :
    values.length = 8 := by
  cases h with
  | full groups _ hlen => rw [List.length_map, hlen]
  | elided left right _ _ hlen =>
    rw [List.length_append, List.length_append, List.length_map, List.length_map,
      List.length_replicate]
    omega

theorem splitOn_groups {groups : List Str} (hgroups : ∀ group ∈ groups, IsGroup group) :
    splitOn [58, 58] ([58].intercalate groups) = [[58].intercalate groups] :=
  splitOn_eq_singleton fun h =>
    not_doubleColon hgroups (h.trans (List.prefix_append _ _).isInfix)

theorem splitOn_elided {left right : List Str} (hleft : ∀ group ∈ left, IsGroup group)
    (hright : ∀ group ∈ right, IsGroup group) :
    splitOn [58, 58] ([58].intercalate left ++ [58, 58] ++ [58].intercalate right) =
      [[58].intercalate left, [58].intercalate right] := by
  rw [List.append_assoc, splitOn_first (List.cons_ne_nil _ _) (not_doubleColon hleft),
    splitOn_groups hright]

/-- **The grammar.** The parser accepts the addresses, and writes out their groups. -/
theorem validateIpv6_eq_ok {raw out : Str} :
    validateIpv6 raw = .ok out ↔ ∃ values, Reads raw values ∧ out = serializeIpv6 values := by
  constructor
  · intro h
    unfold validateIpv6 at h
    obtain ⟨hpieces, h⟩ := ite_error_eq_ok.mp h
    split_ifs at h with hone
    · obtain ⟨values, hside, h⟩ := bind_eq_ok.mp h
      split_ifs at h with hlen
      obtain ⟨groups, hgroups, rfl, rfl⟩ := parseIpv6Side_eq_ok.mp hside
      rw [List.length_map] at hlen
      exact ⟨_, .full groups hgroups hlen, (Except.ok.inj h).symm⟩
    · obtain ⟨l, r, hlr⟩ : ∃ l r, splitOn [58, 58] raw = [l, r] := by
        match hsplit : splitOn [58, 58] raw with
        | [] => exact absurd hsplit (splitOn_ne_nil _ _)
        | [l] => exact absurd (by rw [hsplit]; rfl) hone
        | [l, r] => exact ⟨l, r, rfl⟩
        | l :: r :: c :: rest =>
          rw [hsplit] at hpieces
          exact absurd (by simp) hpieces
      have hraw : raw = l ++ [58, 58] ++ r := by
        rw [← intercalate_splitOn (List.cons_ne_nil 58 [58]) raw, hlr,
          intercalate_cons l (List.cons_ne_nil r []), List.intercalate_singleton, List.append_assoc]
      rw [hlr] at h
      obtain ⟨leftValues, hl, h⟩ := bind_eq_ok.mp h
      obtain ⟨rightValues, hr, h⟩ := bind_eq_ok.mp h
      obtain ⟨hcount, h⟩ := ite_error_eq_ok.mp h
      obtain ⟨left, hleft, rfl, rfl⟩ := parseIpv6Side_eq_ok.mp hl
      obtain ⟨right, hright, rfl, rfl⟩ := parseIpv6Side_eq_ok.mp hr
      rw [List.length_map, List.length_map] at hcount h
      rw [hraw]
      exact ⟨_, .elided left right hleft hright (by omega), (Except.ok.inj h).symm⟩
  · rintro ⟨values, hreads, rfl⟩
    unfold validateIpv6
    cases hreads with
    | full groups hgroups hlen =>
      have hcount : (groups.map (·.foldl hexStep 0)).length = 8 := by rw [List.length_map, hlen]
      rw [splitOn_groups hgroups, parseIpv6Side_eq_ok.mpr ⟨groups, hgroups, rfl, rfl⟩]
      exact if_pos hcount
    | elided left right hleft hright hlen =>
      rw [splitOn_elided hleft hright]
      show (parseIpv6Side ([58].intercalate left) >>= fun l =>
        parseIpv6Side ([58].intercalate right) >>= fun r => _) = _
      rw [parseIpv6Side_eq_ok.mpr ⟨left, hleft, rfl, rfl⟩,
        parseIpv6Side_eq_ok.mpr ⟨right, hright, rfl, rfl⟩, ok_bind, ok_bind]
      dsimp only
      rw [List.length_map, List.length_map, if_neg (by omega)]

/-! ## Values -/

theorem map_toNat {groups : List Str} (hgroups : ∀ group ∈ groups, IsGroup group) :
    (groups.map (·.foldl hexStep 0)).map UInt16.toNat = groups.map hexNat := by
  rw [List.map_map]
  exact List.map_congr_left fun group hg =>
    toNat_foldl_hexStep (hgroups group hg).2.1 (hgroups group hg).2.2

theorem address_iff {raw : Str} {v : ℕ} :
    Address raw v ↔ ∃ values, Reads raw values ∧ v = addressValue (values.map UInt16.toNat) := by
  constructor
  · intro h
    cases h with
    | full groups hgroups hlen =>
      exact ⟨_, .full groups hgroups hlen, by rw [map_toNat hgroups]⟩
    | elided left right hleft hright hlen =>
      refine ⟨_, .elided left right hleft hright hlen, ?_⟩
      rw [List.map_append, List.map_append, map_toNat hleft, map_toNat hright, List.map_replicate]
      rfl
  · rintro ⟨values, hreads, rfl⟩
    cases hreads with
    | full groups hgroups hlen =>
      rw [map_toNat hgroups]
      exact .full groups hgroups hlen
    | elided left right hleft hright hlen =>
      rw [List.map_append, List.map_append, map_toNat hleft, map_toNat hright, List.map_replicate]
      exact .elided left right hleft hright hlen

theorem addressValue_injective {values values' : List UInt16} (hlen : values.length = values'.length)
    (h : addressValue (values.map UInt16.toNat) = addressValue (values'.map UInt16.toNat)) :
    values = values' := by
  have hlt (l : List UInt16) : ∀ n ∈ (l.map UInt16.toNat).reverse, n < 65536 := by
    intro n hn
    obtain ⟨value, -, rfl⟩ := List.mem_map.mp (List.mem_reverse.mp hn)
    exact value.toNat_lt
  have hmap := List.reverse_injective
    (Nat.ofDigits_inj_of_len_eq (by decide) (by simpa using hlen) (hlt values) (hlt values') h)
  exact List.map_injective_iff.mpr (fun _ _ => UInt16.toNat_inj.mp) hmap

theorem addressValue_lt {values : List UInt16} (hlen : values.length = 8) :
    addressValue (values.map UInt16.toNat) < 2 ^ 128 := by
  have h := Nat.ofDigits_lt_base_pow_length (b := 65536)
    (l := (values.map UInt16.toNat).reverse) (by decide) (by
      intro n hn
      obtain ⟨value, -, rfl⟩ := List.mem_map.mp (List.mem_reverse.mp hn)
      exact value.toNat_lt)
  rw [List.length_reverse, List.length_map, hlen] at h
  exact h

theorem serializeIpv6_injective {values values' : List UInt16} (hne : values ≠ [])
    (hne' : values' ≠ []) (h : serializeIpv6 values = serializeIpv6 values') : values = values' := by
  have hparts : values.map u16ToHex = values'.map u16ToHex := by
    rw [← splitOn_serializeIpv6 hne, ← splitOn_serializeIpv6 hne', h]
  refine List.map_injective_iff.mpr (fun a b hab => ?_) hparts
  rw [← (u16ToHex_spec a).2.2.2, ← (u16ToHex_spec b).2.2.2, hab]

theorem reads_serializeIpv6 {values : List UInt16} (hlen : values.length = 8) :
    Reads (serializeIpv6 values) values := by
  have hgroups : ∀ group ∈ values.map u16ToHex, IsGroup group := by
    intro group hg
    obtain ⟨value, -, rfl⟩ := List.mem_map.mp hg
    exact isGroup_u16ToHex value
  have hvalues : (values.map u16ToHex).map (·.foldl hexStep 0) = values := by
    rw [List.map_map]
    exact List.map_id'' (fun value => (u16ToHex_spec value).2.2.2) values
  have h := Reads.full (values.map u16ToHex) hgroups (by rw [List.length_map, hlen])
  rwa [hvalues] at h

theorem Reads.unique {raw : Str} {values values' : List UInt16} (h : Reads raw values)
    (h' : Reads raw values') : values = values' := by
  have hout := validateIpv6_eq_ok.mpr ⟨values, h, rfl⟩
  rw [validateIpv6_eq_ok.mpr ⟨values', h', rfl⟩] at hout
  have hne {l : List UInt16} (hl : l.length = 8) : l ≠ [] := by
    rintro rfl
    cases hl
  exact (serializeIpv6_injective (hne h'.length) (hne h.length) (Except.ok.inj hout)).symm

end BasicWebserver.Platform.Url
