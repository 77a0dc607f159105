import BasicWebserver.RequestTarget.Agreement

/-!
# The grammar of authorities

What `parse_authority` accepts, stated as a grammar: a host, which is a registered name or an IP
literal in brackets, and what may follow it, a colon with digits. The parser looks for the first
closing bracket or the last colon; since neither is in a host or in the digits, it cuts the text where
the grammar does (`parseHostEnd_complete`), and a text has one decomposition (`Authority.unique`).
-/

namespace BasicWebserver.RequestTarget

open Ascii Http Fallible

/-! ## The grammar -/

/-- Texts of characters of a class and complete percent escapes. -/
inductive Component (char : UInt8 → Bool) : Bytes → Prop
  | nil : Component char []
  | char {byte : UInt8} {rest : Bytes} (hbyte : char byte = true) (h : Component char rest) :
      Component char (byte :: rest)
  | escape {hi lo : UInt8} {rest : Bytes} (hhi : isHexDigit hi = true) (hlo : isHexDigit lo = true)
      (h : Component char rest) : Component char (37 :: hi :: lo :: rest)

/-- The characters of a registered name. -/
def isRegNameChar (byte : UInt8) : Bool := isUnreserved byte || isSubDelim byte

/-- What stands between the brackets: an IPv6 address, one with a zone, or an address of a future
version. -/
inductive IpLiteral (ipv6 : Bytes → Bool) : Bytes → Prop
  | address {address : Bytes} (h : ipv6 address = true) : IpLiteral ipv6 address
  | zoned {address zone : Bytes} (h : ipv6 address = true) (hne : zone ≠ [])
      (hzone : Component isUnreserved zone) : IpLiteral ipv6 (address ++ ascii "%25" ++ zone)
  | future {v : UInt8} {version address : Bytes} (hv : v = 118 ∨ v = 86) (hversion : version ≠ [])
      (hhex : ∀ byte ∈ version, isHexDigit byte = true) (haddress : address ≠ [])
      (hchars : ∀ byte ∈ address, isIpvFutureChar byte = true) :
      IpLiteral ipv6 (v :: version ++ 46 :: address)

inductive Host (ipv6 : Bytes → Bool) : Bytes → Prop
  | regName {name : Bytes} (hne : name ≠ []) (h : Component isRegNameChar name) : Host ipv6 name
  | literal {literal : Bytes} (h : IpLiteral ipv6 literal) : Host ipv6 (91 :: literal ++ [93])

/-- What follows the host, and the port it stands for. -/
inductive PortText : Bytes → Option ℕ → Prop
  | absent : PortText [] none
  | empty : PortText [58] none
  | digits {digits : Bytes} (hne : digits ≠ []) (hdigits : ∀ byte ∈ digits, isDigit byte = true)
      (hle : ofDecimal digits ≤ 65535) : PortText (58 :: digits) (some (ofDecimal digits))

/-- The addresses that the standard library reads are made of hexadecimal digits, colons and dots. -/
def StandardIpv6 (ipv6 : Bytes → Bool) : Prop :=
  ∀ address, ipv6 address = true → ∀ byte ∈ address, isHexDigit byte || byte = 58 || byte = 46

variable {ipv6 : Bytes → Bool}

/-! ## Classes of bytes -/

theorem regNameByte_facts : ∀ byte : UInt8, (isRegNameChar byte || byte = 37 || isHexDigit byte) = true →
    byte < 128 ∧ byte ≠ 58 ∧ byte ≠ 64 ∧ byte ≠ 91 ∧ byte ≠ 93 :=
  forall_byte (by decide +kernel)

theorem literalByte_facts : ∀ byte : UInt8, (isIpvFutureChar byte || byte = 37 || isHexDigit byte) = true →
    byte < 128 ∧ byte ≠ 64 ∧ byte ≠ 93 :=
  forall_byte (by decide +kernel)

theorem addressByte_facts : ∀ byte : UInt8, (isHexDigit byte || byte = 58 || byte = 46) = true →
    isIpvFutureChar byte = true ∧ byte ≠ 37 ∧ byte ≠ 86 ∧ byte ≠ 118 :=
  forall_byte (by decide +kernel)

theorem digitByte_facts : ∀ byte : UInt8, isDigit byte = true → byte < 128 ∧ byte ≠ 58 ∧ byte ≠ 64 :=
  forall_byte (by decide +kernel)

theorem Component.mem {char : UInt8 → Bool} {text : Bytes} (h : Component char text) :
    ∀ byte ∈ text, (char byte || byte = 37 || isHexDigit byte) = true := by
  induction h with
  | nil => exact fun _ hmem => absurd hmem List.not_mem_nil
  | char hbyte _ ih =>
    rw [List.forall_mem_cons]
    exact ⟨by rw [hbyte]; rfl, ih⟩
  | escape hhi hlo _ ih =>
    simp only [List.forall_mem_cons]
    exact ⟨by simp, by simp [hhi], by simp [hlo], ih⟩

theorem IpLiteral.mem {literal : Bytes} (hipv6 : StandardIpv6 ipv6) (h : IpLiteral ipv6 literal) :
    ∀ byte ∈ literal, (isIpvFutureChar byte || byte = 37 || isHexDigit byte) = true := by
  have haddress : ∀ {address}, ipv6 address = true → ∀ byte ∈ address,
      (isIpvFutureChar byte || byte = 37 || isHexDigit byte) = true := by
    intro address h byte hbyte
    rw [(addressByte_facts byte (hipv6 address h byte hbyte)).1]
    rfl
  cases h with
  | address h => exact haddress h
  | zoned h _ hzone =>
    simp only [List.forall_mem_append]
    refine ⟨⟨haddress h, List.all_eq_true.mp rfl⟩, fun byte hbyte => ?_⟩
    have hclass := hzone.mem byte hbyte
    simp only [Bool.or_eq_true, decide_eq_true_eq] at hclass
    rcases hclass with (hclass | rfl) | hclass
    · simp [isIpvFutureChar, hclass]
    · rfl
    · simp [hclass]
  | future hv _ hhex _ hchars =>
    simp only [List.cons_append, List.forall_mem_cons, List.forall_mem_append]
    refine ⟨?_, fun byte hbyte => ?_, rfl, fun byte hbyte => ?_⟩
    · rcases hv with rfl | rfl <;> rfl
    · simp [hhex byte hbyte]
    · rw [hchars byte hbyte]
      rfl

theorem Host.mem {host : Bytes} (hipv6 : StandardIpv6 ipv6) (h : Host ipv6 host) :
    ∀ byte ∈ host, byte < 128 ∧ byte ≠ 64 := by
  cases h with
  | regName _ h =>
    intro byte hbyte
    have hfacts := regNameByte_facts byte (h.mem byte hbyte)
    exact ⟨hfacts.1, hfacts.2.2.1⟩
  | literal h =>
    simp only [List.cons_append, List.forall_mem_cons, List.forall_mem_append, List.mem_singleton,
      forall_eq]
    refine ⟨by decide, fun byte hbyte => ?_, by decide⟩
    have hfacts := literalByte_facts byte (h.mem hipv6 byte hbyte)
    exact ⟨hfacts.1, hfacts.2.1⟩

theorem PortText.mem {suffix : Bytes} {port : Option ℕ} (h : PortText suffix port) :
    ∀ byte ∈ suffix, byte < 128 ∧ byte ≠ 64 := by
  cases h with
  | absent => exact fun _ hmem => absurd hmem List.not_mem_nil
  | empty =>
    rw [List.forall_mem_singleton]
    decide
  | digits _ hdigits _ =>
    rw [List.forall_mem_cons]
    refine ⟨by decide, fun byte hbyte => ?_⟩
    have hfacts := digitByte_facts byte (hdigits byte hbyte)
    exact ⟨hfacts.1, hfacts.2.2⟩

theorem Host.ne_nil {host : Bytes} (h : Host ipv6 host) : host ≠ [] := by
  cases h with
  | regName hne _ => exact hne
  | literal _ => exact List.cons_ne_nil _ _

/-! ## The parts of the parser -/

theorem validateUriComponent_iff (allowSubDelims : Bool) (text : Bytes) :
    validateUriComponent allowSubDelims text = .ok () ↔
      Component (fun byte => isUnreserved byte || (allowSubDelims && isSubDelim byte)) text := by
  constructor
  · intro h
    fun_induction validateUriComponent allowSubDelims text with
    | case1 => exact .nil
    | case2 byte rest hbyte ih => exact .char hbyte (ih h)
    | case3 byte hbyte hi lo rest hescape ih =>
      simp only [Bool.and_eq_true, decide_eq_true_eq] at hescape
      obtain ⟨⟨rfl, hhi⟩, hlo⟩ := hescape
      exact .escape hhi hlo (ih h)
    | case4 => cases h
    | case5 => cases h
    | case6 => cases h
  · intro h
    induction h with
    | nil => rfl
    | char hbyte _ ih =>
      rw [validateUriComponent.eq_def]
      dsimp only
      rwa [if_pos hbyte]
    | escape hhi hlo _ ih =>
      have hpercent : ¬ (isUnreserved 37 || (allowSubDelims && isSubDelim 37)) = true := by
        rw [show isUnreserved 37 = false from rfl, show isSubDelim 37 = false from rfl, Bool.and_false]
        decide
      rw [validateUriComponent.eq_def]
      dsimp only
      rwa [if_neg hpercent, if_pos (by rw [hhi, hlo]; rfl)]

theorem validateRegName_iff (name : Bytes) :
    validateRegName name = .ok () ↔ name ≠ [] ∧ Component isRegNameChar name := by
  unfold validateRegName invalid
  rw [ite_error_eq_ok, validateUriComponent_iff]
  rfl

theorem splitOnText_eq_some {separator text before after : Bytes}
    (h : splitOnText separator text = some (before, after)) : text = before ++ separator ++ after := by
  induction text generalizing before with
  | nil =>
    unfold splitOnText at h
    split_ifs at h with hsep
    cases h
    rw [hsep]
    rfl
  | cons byte rest ih =>
    unfold splitOnText at h
    split at h
    · rename_i tail hstrip
      cases h
      exact stripPrefix_eq_some.mp hstrip
    · obtain ⟨⟨before', after'⟩, hrest, hparts⟩ := Option.map_eq_some_iff.mp h
      cases hparts
      rw [ih hrest]
      rfl

theorem splitOnText_append {byte : UInt8} {separator before : Bytes} (after : Bytes)
    (hbefore : byte ∉ before) :
    splitOnText (byte :: separator) (before ++ byte :: separator ++ after) = some (before, after) := by
  induction before with
  | nil =>
    rw [List.nil_append, List.cons_append, splitOnText, stripPrefix_eq_some.mpr (List.cons_append ..).symm]
  | cons b before ih =>
    obtain ⟨hne, hbefore⟩ := not_or.mp (mt List.mem_cons.mpr hbefore)
    have hstrip : stripPrefix (byte :: separator) (b :: (before ++ byte :: separator ++ after)) = none := by
      rw [← Option.not_isSome_iff_eq_none, Option.isSome_iff_exists]
      rintro ⟨tail, htail⟩
      exact hne (List.cons.inj (stripPrefix_eq_some.mp htail)).1.symm
    rw [List.cons_append, List.cons_append, splitOnText, hstrip, ih hbefore]
    rfl

theorem splitOnText_eq_none {byte : UInt8} {separator text : Bytes} (h : byte ∉ text) :
    splitOnText (byte :: separator) text = none := by
  rw [← Option.not_isSome_iff_eq_none, Option.isSome_iff_exists]
  rintro ⟨⟨before, after⟩, hsplit⟩
  rw [splitOnText_eq_some hsplit] at h
  simp at h

theorem stripVersion_eq_some {literal rest : Bytes}
    (h : (stripPrefix (ascii "v") literal).or (stripPrefix (ascii "V") literal) = some rest) :
    ∃ v, (v = 118 ∨ v = 86) ∧ literal = v :: rest := by
  rcases Option.or_eq_some_iff.mp h with h | ⟨-, h⟩
  · exact ⟨118, .inl rfl, stripPrefix_eq_some.mp h⟩
  · exact ⟨86, .inr rfl, stripPrefix_eq_some.mp h⟩

theorem stripVersion_cons {v : UInt8} (hv : v = 118 ∨ v = 86) (rest : Bytes) :
    (stripPrefix (ascii "v") (v :: rest)).or (stripPrefix (ascii "V") (v :: rest)) = some rest := by
  rcases hv with rfl | rfl
  · rw [show stripPrefix (ascii "v") (118 :: rest) = some rest from stripPrefix_eq_some.mpr rfl]
    rfl
  · have hnone : stripPrefix (ascii "v") (86 :: rest) = none := rfl
    rw [hnone, Option.none_or]
    exact stripPrefix_eq_some.mpr rfl

/-- An address does not begin with the letter of a future version. -/
theorem stripVersion_address {address : Bytes} (hipv6 : StandardIpv6 ipv6) (h : ipv6 address = true)
    (rest : Bytes) (hrest : rest.head? ≠ some 118 ∧ rest.head? ≠ some 86) :
    (stripPrefix (ascii "v") (address ++ rest)).or (stripPrefix (ascii "V") (address ++ rest)) =
      none := by
  rw [← Option.not_isSome_iff_eq_none, Option.isSome_iff_exists]
  rintro ⟨tail, htail⟩
  obtain ⟨v, hv, htext⟩ := stripVersion_eq_some htail
  cases address with
  | nil =>
    rw [List.nil_append] at htext
    rw [htext, List.head?_cons] at hrest
    rcases hv with rfl | rfl
    · exact hrest.1 rfl
    · exact hrest.2 rfl
  | cons byte address =>
    obtain ⟨rfl, -⟩ := List.cons.inj htext
    have hfacts := addressByte_facts byte (hipv6 _ h byte List.mem_cons_self)
    exact hv.elim hfacts.2.2.2 hfacts.2.2.1

theorem validateIpLiteral_sound {literal : Bytes} (h : validateIpLiteral ipv6 literal = .ok ()) :
    IpLiteral ipv6 literal := by
  unfold validateIpLiteral invalid at h
  split at h
  · rename_i rest hrest
    obtain ⟨v, hv, rfl⟩ := stripVersion_eq_some hrest
    split at h
    · cases h
    · rename_i version address hsplit
      obtain ⟨rfl, -⟩ := splitOnce_eq_some.mp hsplit
      obtain ⟨hvalid, -⟩ := ite_error_eq_ok.mp h
      simp only [Bool.or_eq_true, not_or, decide_eq_true_eq, Bool.not_eq_true, Bool.not_eq_false',
        List.all_eq_true] at hvalid
      obtain ⟨⟨⟨hversion, hhex⟩, haddress⟩, hchars⟩ := hvalid
      exact .future hv hversion hhex haddress hchars
  · split at h
    · rename_i address zone hsplit
      obtain ⟨haddress, h⟩ := ite_error_eq_ok.mp h
      obtain ⟨hzone, h⟩ := ite_error_eq_ok.mp h
      rw [splitOnText_eq_some hsplit]
      have hcomponent := (validateUriComponent_iff false zone).mp h
      simp only [Bool.false_and, Bool.or_false] at hcomponent
      exact .zoned (by simpa using haddress) hzone hcomponent
    · split_ifs at h with haddress
      exact .address haddress

theorem validateIpLiteral_complete {literal : Bytes} (hipv6 : StandardIpv6 ipv6)
    (h : IpLiteral ipv6 literal) : validateIpLiteral ipv6 literal = .ok () := by
  have hpercent : ∀ {address}, ipv6 address = true → (37 : UInt8) ∉ address := fun h hmem =>
    (addressByte_facts 37 (hipv6 _ h 37 hmem)).2.1 rfl
  unfold validateIpLiteral
  cases h with
  | address h =>
    have hstrip := stripVersion_address hipv6 h [] ⟨nofun, nofun⟩
    rw [List.append_nil] at hstrip
    rw [hstrip]
    dsimp only
    rw [show ascii "%25" = 37 :: [50, 53] from rfl, splitOnText_eq_none (hpercent h)]
    exact if_pos h
  | @zoned address zone h hne hzone =>
    have hpercent' : ∀ byte, (ascii "%25" ++ zone).head? = some byte → byte = 37 :=
      fun _ h => (Option.some.inj h).symm
    rw [List.append_assoc, stripVersion_address hipv6 h _
      ⟨fun h => absurd (hpercent' _ h) (by decide), fun h => absurd (hpercent' _ h) (by decide)⟩,
      ← List.append_assoc]
    dsimp only
    rw [show ascii "%25" = 37 :: [50, 53] from rfl, splitOnText_append zone (hpercent h)]
    dsimp only
    rw [if_neg (by simpa using h), if_neg hne, validateUriComponent_iff]
    simpa only [Bool.false_and, Bool.or_false] using hzone
  | @future v version address hv hversion hhex haddress hchars =>
    rw [List.cons_append, stripVersion_cons hv]
    dsimp only
    rw [splitOnce_eq_some.mpr ⟨rfl, fun hdot => absurd (hhex 46 hdot) (by decide)⟩]
    refine if_neg ?_
    simpa only [Bool.or_eq_true, not_or, decide_eq_true_eq, Bool.not_eq_true, Bool.not_eq_false',
      List.all_eq_true] using ⟨⟨⟨hversion, hhex⟩, haddress⟩, hchars⟩

theorem parsePort_iff (suffix : Bytes) (port : Option ℕ) :
    parsePort suffix = .ok port ↔ PortText suffix port := by
  constructor
  · intro h
    cases suffix with
    | nil =>
      cases h
      exact .absent
    | cons byte digits =>
      unfold parsePort invalid at h
      dsimp only at h
      obtain ⟨hcolon, hrest⟩ := ite_error_eq_ok.mp h
      rw [not_not.mp hcolon]
      by_cases hne : digits = []
      · rw [if_pos hne] at hrest
        cases hrest
        rw [hne]
        exact .empty
      · rw [if_neg hne] at hrest
        obtain ⟨hdigits, hvalue⟩ := ite_error_eq_ok.mp hrest
        split_ifs at hvalue with hle
        cases hvalue
        exact .digits hne (by simpa using hdigits) hle
  · intro h
    cases h with
    | absent => rfl
    | empty => rfl
    | digits hne hdigits hle =>
      unfold parsePort
      dsimp only
      rw [if_neg (fun h => h rfl), if_neg hne, if_neg (by simpa using hdigits), if_pos hle]

/-! ## Where the host ends -/

theorem rfind_of_notMem {byte : UInt8} {raw : Bytes} (h : byte ∉ raw) : rfind byte raw = none := by
  unfold rfind
  rw [List.findIdx?_eq_none_iff.mpr]
  · rfl
  · intro b hb
    exact decide_eq_false fun heq => h (heq ▸ List.mem_reverse.mp hb)

theorem rfind_append {byte : UInt8} {after : Bytes} (before : Bytes) (h : byte ∉ after) :
    rfind byte (before ++ byte :: after) = some before.length := by
  have hfind : (before ++ byte :: after).reverse.findIdx? (· = byte) = some after.length := by
    rw [List.reverse_append, List.reverse_cons, List.append_assoc, List.findIdx?_append,
      List.findIdx?_eq_none_iff.mpr]
    · simp [List.findIdx?_cons]
    · intro b hb
      exact decide_eq_false fun heq => h (heq ▸ List.mem_reverse.mp hb)
  unfold rfind
  rw [hfind, Option.map_some, List.length_append, List.length_cons]
  congr 1
  omega

theorem eq_append_of_findIdx? {byte : UInt8} {raw : Bytes} {i : ℕ}
    (h : raw.findIdx? (· = byte) = some i) : raw = raw.take i ++ byte :: raw.drop (i + 1) := by
  obtain ⟨hlt, hbyte, -⟩ := List.findIdx?_eq_some_iff_getElem.mp h
  have hdrop := List.drop_eq_getElem_cons hlt
  rw [of_decide_eq_true hbyte] at hdrop
  rw [← hdrop, List.take_append_drop]

theorem parseHostEnd_sound {raw : Bytes} {stop : ℕ} (h : parseHostEnd ipv6 raw = .ok stop) :
    Host ipv6 (raw.take stop) := by
  unfold parseHostEnd at h
  split at h
  · rename_i hopen
    split at h
    · cases h
    · rename_i close hclose
      obtain ⟨_, hliteral, h⟩ := bind_eq_ok.mp h
      cases h
      have hraw := eq_append_of_findIdx? hclose
      have hlength : (raw.take close).length = close := by
        have hlt := (List.findIdx?_eq_some_iff_findIdx_eq.mp hclose).1
        rw [List.length_take]
        omega
      cases hbefore : raw.take close with
      | nil =>
        rw [hbefore, List.nil_append] at hraw
        rw [hraw] at hopen
        cases hopen
      | cons byte literal =>
        rw [hbefore] at hraw hliteral hlength
        rw [hraw] at hopen
        obtain rfl := Option.some.inj hopen
        rw [hraw, List.append_cons, List.take_left' (by rw [List.length_append, hlength]; rfl)]
        exact .literal (validateIpLiteral_sound hliteral)
  · obtain ⟨_, hname, h⟩ := bind_eq_ok.mp h
    cases h
    obtain ⟨hne, hcomponent⟩ := (validateRegName_iff _).mp hname
    exact .regName hne hcomponent

theorem PortText.cases_colon {suffix : Bytes} {port : Option ℕ} (h : PortText suffix port) :
    suffix = [] ∨ ∃ digits, suffix = 58 :: digits ∧ (58 : UInt8) ∉ digits := by
  cases h with
  | absent => exact .inl rfl
  | empty => exact .inr ⟨[], rfl, List.not_mem_nil⟩
  | digits _ hdigits _ =>
    exact .inr ⟨_, rfl, fun hcolon => (digitByte_facts 58 (hdigits 58 hcolon)).2.1 rfl⟩

/-- The bracket or the colon at which the parser stops is the one after the host. -/
theorem parseHostEnd_complete {host suffix : Bytes} {port : Option ℕ} (hipv6 : StandardIpv6 ipv6)
    (hhost : Host ipv6 host) (hport : PortText suffix port) :
    parseHostEnd ipv6 (host ++ suffix) = .ok host.length := by
  unfold parseHostEnd
  cases hhost with
  | regName hne h =>
    have hbytes := fun byte hbyte => regNameByte_facts byte (h.mem byte hbyte)
    have hopen : (host ++ suffix).head? ≠ some 91 := by
      obtain ⟨byte, rest, rfl⟩ := List.exists_cons_of_ne_nil hne
      intro hhead
      exact (hbytes byte List.mem_cons_self).2.2.2.1 (Option.some.inj hhead)
    have hstop : (rfind 58 (host ++ suffix)).getD (host ++ suffix).length = host.length := by
      rcases hport.cases_colon with rfl | ⟨digits, rfl, hdigits⟩
      · rw [List.append_nil, rfind_of_notMem fun hcolon => (hbytes 58 hcolon).2.1 rfl]
        rfl
      · rw [rfind_append host hdigits]
        rfl
    rw [if_neg hopen, hstop]
    dsimp only
    rw [List.take_left, (validateRegName_iff host).mpr ⟨hne, h⟩]
    rfl
  | @literal literal h =>
    have hclose : (91 :: literal ++ [93] ++ suffix).findIdx? (· = 93) = some (literal.length + 1) := by
      rw [List.append_assoc, List.findIdx?_append, List.findIdx?_eq_none_iff.mpr]
      · simp [List.findIdx?_cons]
      · rw [List.forall_mem_cons]
        refine ⟨rfl, fun byte hbyte => ?_⟩
        exact decide_eq_false (literalByte_facts byte (h.mem hipv6 byte hbyte)).2.2
    have htake : ((91 :: literal ++ [93] ++ suffix).take (literal.length + 1)).drop 1 = literal := by
      rw [List.append_assoc, List.take_left' (by rfl)]
      rfl
    rw [if_pos (by rfl), hclose]
    dsimp only
    rw [htake, validateIpLiteral_complete hipv6 h, ok_bind, List.length_append]
    rfl

/-! ## Authorities -/

/-- The text is a host and what follows it, which stands for the port. -/
structure Authority (ipv6 : Bytes → Bool) (raw host suffix : Bytes) (port : Option ℕ) : Prop where
  raw_eq : raw = host ++ suffix
  host : Host ipv6 host
  port : PortText suffix port

theorem Authority.unique {raw host suffix host' suffix' : Bytes} {port port' : Option ℕ}
    (hipv6 : StandardIpv6 ipv6) (h : Authority ipv6 raw host suffix port)
    (h' : Authority ipv6 raw host' suffix' port') : host' = host ∧ suffix' = suffix ∧ port' = port := by
  have hstop := parseHostEnd_complete hipv6 h.host h.port
  have hstop' := parseHostEnd_complete hipv6 h'.host h'.port
  rw [← h.raw_eq] at hstop
  rw [← h'.raw_eq, hstop] at hstop'
  obtain ⟨rfl, rfl⟩ := List.append_inj (h'.raw_eq.symm.trans h.raw_eq) (Except.ok.inj hstop').symm
  have hport := ((parsePort_iff _ _).mpr h.port).symm.trans ((parsePort_iff _ _).mpr h'.port)
  exact ⟨rfl, rfl, (Except.ok.inj hport).symm⟩

theorem parseAuthority_sound {raw : Bytes} {source : AuthoritySource} {p : ParsedAuthority}
    (h : parseAuthority ipv6 raw source = .ok p) :
    Authority ipv6 raw (raw.take p.hostEnd) (raw.drop p.hostEnd) p.port := by
  unfold parseAuthority invalid at h
  obtain ⟨-, h⟩ := ite_error_eq_ok.mp h
  obtain ⟨hostEnd, hhostEnd, h⟩ := bind_eq_ok.mp h
  obtain ⟨-, h⟩ := ite_error_eq_ok.mp h
  obtain ⟨port, hport, h⟩ := bind_eq_ok.mp h
  cases h
  exact ⟨(List.take_append_drop _ _).symm, parseHostEnd_sound hhostEnd, (parsePort_iff _ _).mp hport⟩

theorem parseAuthority_complete {raw host suffix : Bytes} {port : Option ℕ} (hipv6 : StandardIpv6 ipv6)
    (h : Authority ipv6 raw host suffix port) (source : AuthoritySource) :
    parseAuthority ipv6 raw source = .ok ⟨source, host.length, port⟩ := by
  have hraw : ¬ (raw = [] || !raw.all (· < 128) || raw.contains 64) = true := by
    have hmem : ∀ byte ∈ raw, byte < 128 ∧ byte ≠ 64 := by
      rw [h.raw_eq, List.forall_mem_append]
      exact ⟨h.host.mem hipv6, h.port.mem⟩
    have hne : raw ≠ [] := by
      rw [h.raw_eq]
      exact fun hnil => h.host.ne_nil (List.append_eq_nil_iff.mp hnil).1
    simp only [Bool.or_eq_true, not_or, decide_eq_true_eq, Bool.not_eq_true, Bool.not_eq_false',
      List.all_eq_true, List.contains_iff_mem]
    exact ⟨⟨hne, fun byte hbyte => (hmem byte hbyte).1⟩, fun hat => (hmem 64 hat).2 rfl⟩
  have hstop := parseHostEnd_complete hipv6 h.host h.port
  have hlength : host.length ≠ 0 := mt List.length_eq_zero_iff.mp h.host.ne_nil
  unfold parseAuthority
  rw [if_neg hraw, h.raw_eq, hstop, ok_bind, if_neg hlength, List.drop_left,
    (parsePort_iff _ _).mpr h.port]
  rfl

/-- **The grammar of authorities.** The parser accepts exactly the texts that are a host and possibly
a colon with digits; the host it records is the text before that colon, the port the value of the
digits, and no text can be read in two ways. -/
theorem parse_authority_grammar (hipv6 : StandardIpv6 ipv6) (raw : Bytes) (source : AuthoritySource) :
    ((∃ p, parseAuthority ipv6 raw source = .ok p) ↔
      ∃ host suffix port, Authority ipv6 raw host suffix port) ∧
    ∀ host suffix port, Authority ipv6 raw host suffix port →
      (∃ p, parseAuthority ipv6 raw source = .ok p ∧ p.source = source ∧
        raw.take p.hostEnd = host ∧ p.port = port) ∧
      ∀ host' suffix' port', Authority ipv6 raw host' suffix' port' →
        host' = host ∧ suffix' = suffix ∧ port' = port := by
  refine ⟨⟨?_, ?_⟩, ?_⟩
  · rintro ⟨p, hp⟩
    exact ⟨_, _, _, parseAuthority_sound hp⟩
  · rintro ⟨host, suffix, port, h⟩
    exact ⟨_, parseAuthority_complete hipv6 h source⟩
  · intro host suffix port h
    refine ⟨⟨_, parseAuthority_complete hipv6 h source, rfl, ?_, rfl⟩, ?_⟩
    · rw [h.raw_eq]
      exact List.take_left
    · intro host' suffix' port' h'
      exact h.unique hipv6 h'

/-- An address with a zone and a port, for a parser of addresses that knows one of them. -/
theorem parse_authority_grammar_zoned :
    let ipv6 : Bytes → Bool := (· = ascii "fe80::1")
    let raw := ascii "[fe80::1%25eth0]:080"
    ∃ p, parseAuthority ipv6 raw .host = .ok p ∧ raw.take p.hostEnd = ascii "[fe80::1%25eth0]" ∧
      p.port = some 80 := by
  intro ipv6 raw
  have hipv6 : StandardIpv6 ipv6 := by
    intro address h
    rw [of_decide_eq_true h]
    exact List.all_eq_true.mp rfl
  have hzone : Component isUnreserved (ascii "eth0") :=
    .char rfl (.char rfl (.char rfl (.char rfl .nil)))
  have h : Authority ipv6 raw (ascii "[fe80::1%25eth0]") (ascii ":080") (some 80) :=
    ⟨rfl, .literal (@IpLiteral.zoned ipv6 (ascii "fe80::1") (ascii "eth0") rfl (by decide) hzone),
      @PortText.digits (ascii "080") (by decide) (List.all_eq_true.mp rfl) (by decide)⟩
  obtain ⟨p, hp, -, hhost, hport⟩ := ((parse_authority_grammar hipv6 raw .host).2 _ _ _ h).1
  exact ⟨p, hp, hhost, hport⟩

end BasicWebserver.RequestTarget
