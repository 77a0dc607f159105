import BasicWebserver.RocAlloc.Allocator

/-!
# What the calls of the allocator do

The layout of an allocation and, for one that is in memory as the allocator left it, what each call
returns. The client has no way to make the checks of a header fail.
-/

namespace BasicWebserver.RocAlloc

open ByteMemory Transition Bag

variable {debug : Bool} {s t : System} {l : Live} {length alignment : ℕ} {answer : Answer}
  {α β : Type}

/-! ## Evaluation -/

theorem run_bind {x : Host α} {f : α → Host β} : (x >>= f).run s =
    match x.run s with
    | .returns value s => (f value).run s
    | .aborts message s => .aborts message s
    | .undefined s => .undefined s
    | .refused => .refused := rfl

theorem bind_returns {x : Host α} {f : α → Host β} {a : α} (h : x.run s = .returns a t) :
    (x >>= f).run s = (f a).run t := by rw [run_bind, h]

theorem bind_aborts {x : Host α} {f : α → Host β} {message : String}
    (h : x.run s = .aborts message t) : (x >>= f).run s = .aborts message t := by rw [run_bind, h]

theorem bind_undefined {x : Host α} {f : α → Host β} (h : x.run s = .undefined t) :
    (x >>= f).run s = .undefined t := by rw [run_bind, h]

theorem bind_refused {x : Host α} {f : α → Host β} (h : x.run s = .refused) :
    (x >>= f).run s = .refused := by rw [run_bind, h]

theorem fatalIf_of_not {p : Prop} [Decidable p] {message : String} (h : ¬ p) :
    (fatalIf p message).run s = .returns () s := by
  unfold fatalIf
  rw [if_neg h]
  rfl

theorem fatalIf_of {p : Prop} [Decidable p] {message : String} (h : p) :
    (fatalIf p message).run s =
      .aborts (fatalText message) s := by
  unfold fatalIf
  rw [if_pos h]
  rfl

theorem checkedAdd_of_lt {left right : ℕ} {context : String} (h : left + right < 2 ^ 64) :
    (checkedAdd left right context).run s = .returns (left + right) s := by
  unfold checkedAdd
  rw [if_pos h]
  rfl

theorem checkedAdd_of_ge {left right : ℕ} {context : String} (h : ¬ left + right < 2 ^ 64) :
    (checkedAdd left right context).run s =
      .aborts (fatalText context) s := by
  unfold checkedAdd
  rw [if_neg h]
  rfl

theorem run_unwrap_some {a : α} {message : String} : (unwrap (some a) message).run s = .returns a s :=
  rfl

theorem run_get : Host.get.run s = .returns s s := rfl

theorem run_modify {f : System → System} : (Host.modify f).run s = .returns () (f s) := rfl

/-! ## Layouts -/

/-- The alignment of the block for an alignment that was asked for. -/
def blockAlign (alignment : ℕ) : ℕ := max alignment wordAlign

/-- The bytes before the pointer, the header at their end. -/
def prefixBytes (alignment : ℕ) : ℕ := alignUp headerSize (blockAlign alignment)

def totalBytes (debug : Bool) (length alignment : ℕ) : ℕ :=
  prefixBytes alignment + length + tailBytes debug

theorem isPowerOfTwo_blockAlign (h : alignment.isPowerOfTwo) : (blockAlign alignment).isPowerOfTwo := by
  unfold blockAlign
  rcases Nat.le_total alignment wordAlign with hle | hle
  · rw [Nat.max_eq_right hle]
    exact ⟨3, rfl⟩
  · rwa [Nat.max_eq_left hle]

theorem dvd_blockAlign (h : alignment.isPowerOfTwo) : alignment ∣ blockAlign alignment := by
  obtain ⟨k, rfl⟩ := h
  unfold blockAlign wordAlign
  rcases Nat.le_total (2 ^ k) 8 with hle | hle
  · rw [Nat.max_eq_right hle]
    have hpow : 2 ^ k ≤ 2 ^ 3 := hle
    exact Nat.pow_dvd_pow 2 ((Nat.pow_le_pow_iff_right (Nat.lt_succ_self 1)).mp hpow)
  · rw [Nat.max_eq_left hle]

theorem wordAlign_le_blockAlign (alignment : ℕ) : wordAlign ≤ blockAlign alignment :=
  Nat.le_max_right _ _

theorem headerSize_le_prefixBytes (alignment : ℕ) : headerSize ≤ prefixBytes alignment :=
  le_alignUp _ (Nat.lt_of_lt_of_le (by decide) (wordAlign_le_blockAlign alignment))

theorem normalizedAlignment_eq (h : alignment.isPowerOfTwo) :
    (normalizedAlignment alignment).run s = .returns (blockAlign alignment) s := by
  have hmax : max (max alignment wordAlign) wordAlign = blockAlign alignment :=
    Nat.max_eq_left (wordAlign_le_blockAlign alignment)
  unfold normalizedAlignment
  rw [hmax, if_neg (not_not.mpr (isPowerOfTwo_blockAlign h))]
  rfl

theorem normalizedAlignment_blockAlign (h : alignment.isPowerOfTwo) :
    (normalizedAlignment (blockAlign alignment)).run s = .returns (blockAlign alignment) s := by
  rw [normalizedAlignment_eq (isPowerOfTwo_blockAlign h)]
  exact congrArg (Outcome.returns · s) (Nat.max_eq_left (wordAlign_le_blockAlign alignment))

theorem blockAlign_le (h : alignment.isPowerOfTwo) (hlt : alignment < 2 ^ 64) :
    blockAlign alignment ≤ 2 ^ 63 := by
  obtain ⟨k, rfl⟩ := h
  have hk : k < 64 := (Nat.pow_lt_pow_iff_right (Nat.lt_succ_self 1)).mp hlt
  refine Nat.max_le.mpr ⟨Nat.pow_le_pow_right (by decide) (by omega), by decide⟩

theorem roundUp_headerSize (h : alignment.isPowerOfTwo) (hlt : alignment < 2 ^ 64) :
    (roundUp headerSize (blockAlign alignment)).run s = .returns (prefixBytes alignment) s := by
  have hle := blockAlign_le h hlt
  have hsum : headerSize + (blockAlign alignment - 1) < 2 ^ 64 := by
    unfold headerSize
    omega
  unfold roundUp
  rw [bind_returns (checkedAdd_of_lt hsum)]
  obtain ⟨k, hk⟩ := isPowerOfTwo_blockAlign h
  have hk' : k ≤ 64 := by
    rw [hk] at hle
    have := (Nat.pow_le_pow_iff_right (Nat.lt_succ_self 1)).mp hle
    omega
  unfold prefixBytes alignUp
  rw [hk] at hsum ⊢
  rw [and_not_mask hk' hsum]
  rfl

/-- A block whose layout fits is not empty, and in half of the address space. -/
theorem total_lt_of_fits (h : LayoutFits (totalBytes debug length alignment) (blockAlign alignment)) :
    totalBytes debug length alignment < 2 ^ 63 := by
  have hpos : 0 < blockAlign alignment :=
    Nat.lt_of_lt_of_le (by decide) (wordAlign_le_blockAlign alignment)
  have hle := Nat.le_trans (le_alignUp (totalBytes debug length alignment) hpos) h.2
  unfold isizeMax at hle
  omega

namespace Live

def base (l : Live) : ℕ := l.ptr - prefixBytes l.alignment

def total (debug : Bool) (l : Live) : ℕ := totalBytes debug l.length l.alignment

def block (debug : Bool) (l : Live) : Block := ⟨l.base, l.total debug, blockAlign l.alignment⟩

def header (debug : Bool) (l : Live) : AllocationHeader :=
  ⟨allocationMagic, headerCanary, l.length, l.total debug, prefixBytes l.alignment,
    blockAlign l.alignment, l.dropFn, allocationVersion, l.kind.raw⟩

def record (l : Live) : DebugAllocation := ⟨l.kind, l.length, blockAlign l.alignment⟩

/-- An allocation that was made: what was asked for and where it is. -/
structure Shaped (debug : Bool) (l : Live) : Prop where
  askable : Askable l.length l.alignment
  fits : LayoutFits (l.total debug) (blockAlign l.alignment)
  bottom : prefixBytes l.alignment < l.ptr
  aligned : l.base % blockAlign l.alignment = 0
  top : l.base + l.total debug ≤ 2 ^ 64
  finalizer : l.kind = .ordinary ↔ l.dropFn = none
  dropFn : ∀ f, l.dropFn = some f → f ≠ 0 ∧ f < 2 ^ 64

/-- Its bytes in memory, apart from those of the client, and its entry. -/
structure Stored (debug : Bool) (s : System) (l : Live) : Prop where
  header : AllocationHeader.read s.memory (l.ptr - headerSize) = l.header debug
  tail : debug → read s.memory (l.ptr + l.length) 8 = tailCanary
  recorded : debug → s.debugAllocations l.ptr = some l.record

theorem Shaped.ptr_eq (h : l.Shaped debug) : l.ptr = l.base + prefixBytes l.alignment := by
  have hbottom := h.bottom
  unfold base
  omega

theorem Shaped.total_lt (h : l.Shaped debug) : l.total debug < 2 ^ 63 := total_lt_of_fits h.fits

theorem Shaped.ptr_mod (h : l.Shaped debug) : l.ptr % blockAlign l.alignment = 0 := by
  rw [h.ptr_eq]
  exact Nat.mod_eq_zero_of_dvd
    (Nat.dvd_add (Nat.dvd_of_mod_eq_zero h.aligned) (dvd_alignUp _ _))

end Live

/-! ## Headers -/

namespace AllocationHeader

/-- A header whose fields fit in theirs. -/
structure Writable (h : AllocationHeader) : Prop where
  magic : h.magic < 2 ^ 64
  headerCanary : h.headerCanary < 2 ^ 64
  requestedSize : h.requestedSize < 2 ^ 64
  totalSize : h.totalSize < 2 ^ 64
  prefixSize : h.prefixSize < 2 ^ 64
  requestedAlignment : h.requestedAlignment < 2 ^ 64
  dropFn : ∀ f, h.dropFn = some f → f ≠ 0 ∧ f < 2 ^ 64
  version : h.version < 2 ^ 32
  kind : h.kind < 2 ^ 32

theorem read_write {m : Memory} {a : ℕ} {h : AllocationHeader} (hw : h.Writable) :
    read (write m a h) a = h := by
  obtain ⟨magic, canary, requestedSize, totalSize, prefixSize, requestedAlignment, dropFn, version,
    kind⟩ := h
  obtain ⟨h₁, h₂, h₃, h₄, h₅, h₆, h₇, h₈, h₉⟩ := hw
  dsimp only at h₁ h₂ h₃ h₄ h₅ h₆ h₇ h₈ h₉
  have hpow : 256 ^ 8 = 2 ^ 64 ∧ 256 ^ 4 = 2 ^ 32 := by decide
  have hdrop : dropFn.getD 0 < 2 ^ 64 := by
    cases dropFn with
    | none => exact Nat.two_pow_pos 64
    | some f => exact (h₇ f rfl).2
  unfold read write
  simp (disch := omega) only [read_write_apart, ByteMemory.read_write, hpow.1, hpow.2,
    Nat.mod_eq_of_lt]
  cases dropFn with
  | none => rfl
  | some f =>
    rw [if_neg (show (some f).getD 0 ≠ 0 from (h₇ f rfl).1)]
    rfl

theorem read_of_bytes {m m' : Memory} {a b : ℕ} (h : ∀ i < headerSize, m (a + i) = m' (b + i)) :
    read m a = read m' b := by
  have hword : ∀ o w, o + w ≤ headerSize →
      ByteMemory.read m (a + o) w = ByteMemory.read m' (b + o) w := fun o w ho =>
    ByteMemory.read_of_bytes fun i hi => by
      rw [Nat.add_assoc, Nat.add_assoc]
      exact h (o + i) (by omega)
  unfold read
  rw [hword 8 8 (by decide), hword 16 8 (by decide), hword 24 8 (by decide), hword 32 8 (by decide),
    hword 40 8 (by decide), hword 48 8 (by decide), hword 56 4 (by decide), hword 60 4 (by decide),
    show ByteMemory.read m a 8 = ByteMemory.read m' b 8 from hword 0 8 (by decide)]

theorem read_resized {m : Memory} {a length total : ℕ} (hlength : length < 2 ^ 64)
    (htotal : total < 2 ^ 64) :
    read (ByteMemory.write (ByteMemory.write (ByteMemory.write m (a + 16) 8 length) (a + 24) 8 total)
        a 8 allocationMagic) a =
      { read m a with magic := allocationMagic, requestedSize := length, totalSize := total } := by
  have hpow : 256 ^ 8 = 2 ^ 64 := by decide
  have hmagic : allocationMagic < 2 ^ 64 := by decide
  unfold read
  simp (disch := omega) only [read_write_apart, ByteMemory.read_write, hpow, Nat.mod_eq_of_lt]

theorem write_apply {m : Memory} {a b : ℕ} {h : AllocationHeader} (hb : b < a ∨ a + headerSize ≤ b) :
    write m a h b = m b := by
  unfold headerSize at hb
  unfold write
  simp (disch := omega) only [ByteMemory.write_apply]

end AllocationHeader

theorem raw_lt (kind : AllocationKind) : kind.raw < 2 ^ 32 := by cases kind <;> decide

theorem Live.Shaped.writable (h : l.Shaped debug) : (l.header debug).Writable where
  magic := (by decide : allocationMagic < 2 ^ 64)
  headerCanary := (by decide : headerCanary < 2 ^ 64)
  requestedSize := h.askable.1
  totalSize := Nat.lt_trans h.total_lt (by decide)
  prefixSize := by
    have htotal := h.total_lt
    unfold Live.total totalBytes at htotal
    show prefixBytes l.alignment < _
    omega
  requestedAlignment := Nat.lt_of_le_of_lt (blockAlign_le h.askable.2.2 h.askable.2.1) (by decide)
  dropFn := h.dropFn
  version := (by decide : allocationVersion < 2 ^ 32)
  kind := raw_lt l.kind

/-! ## The checks -/

theorem validateSupplied_eq (h : alignment.isPowerOfTwo) :
    (validateSupplied (blockAlign alignment) (some alignment)).run s = .returns () s := by
  unfold validateSupplied
  rw [bind_returns (normalizedAlignment_eq h), fatalIf_of_not (not_not.mpr rfl)]

theorem validateFields_eq (h : l.Shaped debug) :
    (validateFields debug l.ptr (some l.alignment) (l.header debug)).run s = .returns l.kind s := by
  have htotal := h.total_lt
  unfold Live.total totalBytes at htotal
  have hpower := h.askable.2.2
  have hmask : l.ptr &&& (blockAlign l.alignment - 1) = 0 := by
    have hmod := h.ptr_mod
    obtain ⟨k, hk⟩ := isPowerOfTwo_blockAlign hpower
    rw [hk] at hmod ⊢
    rw [Nat.and_two_pow_sub_one_eq_mod, hmod]
  have hbase : ¬ (prefixBytes l.alignment < headerSize ∨
      prefixBytes l.alignment % blockAlign l.alignment ≠ 0) := by
    rintro (hlt | hmod)
    · exact absurd hlt (Nat.not_lt.mpr (headerSize_le_prefixBytes _))
    · exact hmod (Nat.mod_eq_zero_of_dvd (dvd_alignUp _ _))
  have hordinary : ¬ (l.kind = .ordinary ∧ l.dropFn.isSome) := by
    rintro ⟨hkind, hsome⟩
    rw [h.finalizer.mp hkind] at hsome
    cases hsome
  have howned : ¬ (l.kind ≠ .ordinary ∧ l.dropFn.isNone) := by
    rintro ⟨hkind, hnone⟩
    exact hkind (h.finalizer.mpr (Option.isNone_iff_eq_none.mp hnone))
  unfold validateFields Live.header Live.total totalBytes
  dsimp only
  rw [bind_returns (fatalIf_of_not (not_not.mpr rfl)), bind_returns (fatalIf_of_not (not_not.mpr rfl)),
    bind_returns (fatalIf_of_not (not_not.mpr rfl)),
    l.kind.fromRaw_raw,
    bind_returns run_unwrap_some, bind_returns (normalizedAlignment_blockAlign hpower),
    bind_returns (fatalIf_of_not (not_or.mpr ⟨not_not.mpr rfl, not_not.mpr hmask⟩)),
    bind_returns (validateSupplied_eq hpower), bind_returns (fatalIf_of_not hbase),
    bind_returns (checkedAdd_of_lt (by omega)),
    bind_returns (checkedAdd_of_lt (by omega)),
    bind_returns (fatalIf_of_not (not_not.mpr rfl)), bind_returns (fatalIf_of_not hordinary),
    bind_returns (fatalIf_of_not howned)]
  rfl

theorem validateRecorded_eq (h : l.Stored debug s) :
    (validateRecorded s.memory l.ptr (l.header debug) l.kind
      (if debug then some l.record else none)).run s = .returns () s := by
  cases debug with
  | false => rfl
  | true =>
    show (validateRecorded s.memory l.ptr (l.header true) l.kind (some l.record)).run s = _
    unfold validateRecorded Live.record Live.header
    dsimp only
    rw [bind_returns (fatalIf_of_not (not_not.mpr rfl)), fatalIf_of_not (not_not.mpr (h.tail rfl))]

theorem debugLookup_eq (h : l.Stored debug s) (hdebug : debug) :
    (debugLookup l.ptr).run s = .returns l.record s := by
  unfold debugLookup
  rw [bind_returns run_get, h.recorded hdebug]
  rfl

theorem debugRecorded_eq (h : l.Stored debug s) :
    (debugRecorded debug l.ptr).run s = .returns (if debug then some l.record else none) s := by
  cases debug with
  | false => rfl
  | true => exact bind_returns (debugLookup_eq h rfl)

theorem validateHeader_eq (hl : l.Shaped debug) (h : l.Stored debug s) :
    (validateHeader debug l.ptr (some l.alignment)).run s = .returns (l.header debug) s := by
  have hnull : l.ptr ≠ 0 := Nat.ne_of_gt (Nat.lt_of_le_of_lt (Nat.zero_le _) hl.bottom)
  unfold validateHeader
  rw [bind_returns (fatalIf_of_not hnull), bind_returns (debugRecorded_eq h), bind_returns run_get]
  dsimp only
  rw [h.header, bind_returns (validateFields_eq hl), bind_returns (validateRecorded_eq h)]
  rfl

/-- The table after the removal of an entry. -/
def removed (debug : Bool) (s : System) (ptr : ℕ) : System :=
  if debug then { s with debugAllocations := Function.update s.debugAllocations ptr none } else s

theorem debugRemove_eq (h : l.Stored debug s) :
    (debugRemove debug l.ptr).run s = .returns () (removed debug s l.ptr) := by
  cases debug with
  | false => rfl
  | true =>
    show (debugLookup l.ptr >>= fun _ => Host.modify _).run s = _
    rw [bind_returns (debugLookup_eq h rfl)]
    rfl

/-- The table after a new entry. -/
def registered (debug : Bool) (s : System) (ptr : ℕ) (entry : DebugAllocation) : System :=
  if debug then { s with debugAllocations := Function.update s.debugAllocations ptr (some entry) }
  else s

theorem debugRegister_eq {ptr : ℕ} {entry : DebugAllocation}
    (h : debug → s.debugAllocations ptr = none) :
    (debugRegister debug ptr entry).run s = .returns () (registered debug s ptr entry) := by
  cases debug with
  | false => rfl
  | true =>
    have hnone : ¬ (s.debugAllocations ptr).isSome := by
      rw [h rfl]
      exact Bool.false_ne_true
    show (Host.get >>= fun s => fatalIf (s.debugAllocations ptr).isSome _ >>= fun _ =>
      Host.modify _).run s = _
    rw [bind_returns run_get, bind_returns (fatalIf_of_not hnone)]
    rfl

/-- The memory after the write of a canary. -/
def tailed (debug : Bool) (s : System) (address : ℕ) : System :=
  if debug then { s with memory := write s.memory address 8 tailCanary } else s

theorem writeTail_eq {address : ℕ} :
    (writeTail debug address).run s = .returns () (tailed debug s address) := by
  cases debug <;> rfl

namespace System

def active (s : System) : AllocationKind → ℕ
  | .ordinary => 0
  | .requestBody => s.activeRequestBodies
  | .seamlessBytes => s.activeSeamlessBackings

/-- The systems agree on what is not a counter. -/
structure SameButCounters (s t : System) : Prop where
  memory : t.memory = s.memory
  blocks : t.blocks = s.blocks
  debugAllocations : t.debugAllocations = s.debugAllocations
  sizes : t.sizes = s.sizes
  finalized : t.finalized = s.finalized

end System

/-- How often an allocation of the first kind counts for the second. -/
def tally (kind other : AllocationKind) : ℕ := if kind = other ∧ kind ≠ .ordinary then 1 else 0

theorem tally_ordinary (other : AllocationKind) : tally .ordinary other = 0 :=
  if_neg fun h => h.2 rfl

theorem allocated_eq (kind : AllocationKind) : ∃ t, (allocated kind).run s = .returns () t ∧
    s.SameButCounters t ∧ ∀ other, t.active other = s.active other + tally kind other := by
  cases kind with
  | ordinary =>
    refine ⟨s, rfl, ⟨rfl, rfl, rfl, rfl, rfl⟩, fun other => ?_⟩
    rw [tally_ordinary]
    rfl
  | requestBody =>
    refine ⟨_, rfl, ⟨rfl, rfl, rfl, rfl, rfl⟩, fun other => ?_⟩
    cases other <;> rfl
  | seamlessBytes =>
    refine ⟨_, rfl, ⟨rfl, rfl, rfl, rfl, rfl⟩, fun other => ?_⟩
    cases other <;> rfl

theorem deallocated_eq {kind : AllocationKind} (h : kind ≠ .ordinary → s.active kind ≠ 0) :
    ∃ t, (deallocated kind).run s = .returns () t ∧ s.SameButCounters t ∧
      ∀ other, t.active other + tally kind other = s.active other := by
  cases kind with
  | ordinary =>
    refine ⟨s, rfl, ⟨rfl, rfl, rfl, rfl, rfl⟩, fun other => ?_⟩
    rw [tally_ordinary]
    rfl
  | requestBody =>
    have hne : s.activeRequestBodies ≠ 0 := h nofun
    refine ⟨_, (bind_returns run_get).trans (bind_returns (fatalIf_of_not hne)),
      ⟨rfl, rfl, rfl, rfl, rfl⟩, fun other => ?_⟩
    cases other with
    | requestBody => exact Nat.sub_add_cancel (Nat.one_le_iff_ne_zero.mpr hne)
    | _ => rfl
  | seamlessBytes =>
    have hne : s.activeSeamlessBackings ≠ 0 := h nofun
    refine ⟨_, (bind_returns run_get).trans (bind_returns (fatalIf_of_not hne)),
      ⟨rfl, rfl, rfl, rfl, rfl⟩, fun other => ?_⟩
    cases other with
    | seamlessBytes => exact Nat.sub_add_cancel (Nat.one_le_iff_ne_zero.mpr hne)
    | _ => rfl

end BasicWebserver.RocAlloc
