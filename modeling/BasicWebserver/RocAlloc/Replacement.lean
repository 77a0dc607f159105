import BasicWebserver.RocAlloc.Calls

/-!
# Replacing an allocation

What a call that returns has done: it replaced one allocation by another in memory, where an
allocation replaces none and a deallocation leaves none, and did not touch the blocks of the others.
-/

namespace BasicWebserver.RocAlloc

open ByteMemory Transition Bag

variable {debug : Bool} {s t u : System} {l : Live} {length alignment : ℕ} {answer : Answer}

/-- The call of the finalizer of an allocation. -/
def Live.finalizerCall (l : Live) : Option (ℕ × ℕ) := l.dropFn.map fun finalize => (finalize, l.ptr)

/-- One allocation was replaced by another, next to the blocks `others`. -/
structure Replaces (debug : Bool) (old new : Option Live) (others : List Block) (s t : System) :
    Prop where
  before : s.blocks.Perm (old.toList.map (Live.block debug) ++ others)
  after : t.blocks.Perm (new.toList.map (Live.block debug) ++ others)
  shaped : ∀ l ∈ new, l.Shaped debug
  apart : ∀ l ∈ new, ∀ b ∈ others, (l.block debug).Apart b
  stored : ∀ l ∈ new, l.Stored debug t
  kept : ∀ b ∈ others, ∀ a, b.Contains a → t.memory a = s.memory a
  entries : debug → ∀ ptr, (∀ l ∈ new, ptr ≠ l.ptr) →
    t.debugAllocations ptr = if ∃ l ∈ old, ptr = l.ptr then none else s.debugAllocations ptr
  active : ∀ kind, t.active kind + (old.elim 0 fun l => tally l.kind kind) =
    s.active kind + (new.elim 0 fun l => tally l.kind kind)

/-! ## Memory -/

theorem settle_of_contains {blocks : List Block} {m junk : Memory} {b : Block} {a : ℕ}
    (hb : b ∈ blocks) (ha : b.Contains a) : settle blocks m junk a = m a := if_pos ⟨b, hb, ha⟩

theorem Block.Apart.symm {b c : Block} (h : b.Apart c) : c.Apart b := Or.symm h

theorem Block.Apart.outside {b c : Block} (h : b.Apart c) {a : ℕ} (ha : c.Contains a) :
    a < b.base ∨ b.base + b.size ≤ a := by
  obtain ⟨hlo, hhi⟩ := ha
  rcases h with h | h
  · exact .inr (Nat.le_trans h hlo)
  · exact .inl (Nat.lt_of_lt_of_le hhi h)

theorem Live.Shaped.parts (h : l.Shaped debug) :
    l.base ≤ l.ptr - headerSize ∧ l.ptr - headerSize + headerSize = l.ptr ∧
      l.ptr + l.length + tailBytes debug = l.base + l.total debug := by
  have hheader := headerSize_le_prefixBytes l.alignment
  have hptr := h.ptr_eq
  unfold Live.total totalBytes
  omega

theorem tailed_apply {address a : ℕ} (h : a < address ∨ address + tailBytes debug ≤ a) :
    (tailed debug s address).memory a = s.memory a := by
  cases debug with
  | false => rfl
  | true => exact write_apply h

theorem Live.Shaped.header_tailed (h : l.Shaped debug)
    (hread : AllocationHeader.read s.memory (l.ptr - headerSize) = l.header debug) :
    AllocationHeader.read (tailed debug s (l.ptr + l.length)).memory (l.ptr - headerSize) =
      l.header debug := by
  obtain ⟨-, hheader, -⟩ := h.parts
  rw [← hread]
  exact AllocationHeader.read_of_bytes fun i hi => tailed_apply (.inl (by omega))

theorem tailed_tail (hdebug : debug) {address : ℕ} :
    read (tailed debug s address).memory address 8 = tailCanary := by
  subst hdebug
  exact read_write_of_lt (by decide)

theorem registered_eq (hdebug : debug) {ptr : ℕ} {entry : DebugAllocation} :
    (registered debug s ptr entry).debugAllocations =
      Function.update s.debugAllocations ptr (some entry) := by
  subst hdebug
  rfl

section Fields

variable {address ptr : ℕ} {entry : DebugAllocation}

@[simp] theorem registered_fields : (registered debug s ptr entry).memory = s.memory ∧
    (registered debug s ptr entry).blocks = s.blocks ∧
    (registered debug s ptr entry).active = s.active ∧
    (registered debug s ptr entry).sizes = s.sizes ∧
    (registered debug s ptr entry).finalized = s.finalized := by
  cases debug <;> exact ⟨rfl, rfl, rfl, rfl, rfl⟩

@[simp] theorem tailed_fields : (tailed debug s address).blocks = s.blocks ∧
    (tailed debug s address).debugAllocations = s.debugAllocations ∧
    (tailed debug s address).active = s.active ∧ (tailed debug s address).sizes = s.sizes ∧
    (tailed debug s address).finalized = s.finalized := by
  cases debug <;> exact ⟨rfl, rfl, rfl, rfl, rfl⟩

@[simp] theorem removed_fields : (removed debug s ptr).memory = s.memory ∧
    (removed debug s ptr).blocks = s.blocks ∧ (removed debug s ptr).active = s.active ∧
    (removed debug s ptr).sizes = s.sizes ∧ (removed debug s ptr).finalized = s.finalized := by
  cases debug <;> exact ⟨rfl, rfl, rfl, rfl, rfl⟩

end Fields

theorem active_congr (hbodies : t.activeRequestBodies = s.activeRequestBodies)
    (hbackings : t.activeSeamlessBackings = s.activeSeamlessBackings) : t.active = s.active := by
  funext kind
  cases kind <;> simp [System.active, *]

/-! ## Allocation -/

/-- The messages of a size that does not fit. -/
def sizeMessages : List String :=
  [fatalText "allocation size overflow", fatalText "allocation tail size overflow",
    fatalText "invalid allocation layout", fatalText "reallocation size overflow",
    fatalText "reallocation tail size overflow"]

def outOfMemory : String := fatalText "out of memory"

/-- No entry is in the way of a new allocation. -/
def Registrable (debug : Bool) (others : List Block) (entries : ℕ → Option DebugAllocation) : Prop :=
  debug → ∀ l : Live, l.Shaped debug → (∀ b ∈ others, (l.block debug).Apart b) → entries l.ptr = none

theorem not_fits_of_overflow (h : ¬ totalBytes debug length alignment < 2 ^ 64) :
    ¬ LayoutFits (totalBytes debug length alignment) (blockAlign alignment) := fun hfits =>
  h (Nat.lt_trans (total_lt_of_fits hfits) (by decide))

theorem allocate_run (hask : Askable l.length l.alignment)
    (hkind : l.kind = .ordinary ↔ l.dropFn = none) :
    (¬ LayoutFits (l.total debug) (blockAlign l.alignment) ∧ ∃ message ∈ sizeMessages,
      (allocate debug l.length l.alignment l.kind l.dropFn answer).run s = .aborts message s) ∨
    (LayoutFits (l.total debug) (blockAlign l.alignment) ∧
      (allocate debug l.length l.alignment l.kind l.dropFn answer).run s =
        (allocateBlock debug (l.header debug) l.kind answer).run s) := by
  have hmatch : ¬ decide (l.kind = .ordinary) ≠ l.dropFn.isNone := by
    rw [not_not, Bool.eq_iff_iff, decide_eq_true_iff, hkind, Option.isNone_iff_eq_none]
  unfold allocate
  rw [bind_returns (fatalIf_of_not hmatch), bind_returns (normalizedAlignment_eq hask.2.2),
    bind_returns (roundUp_headerSize hask.2.2 hask.2.1)]
  by_cases hsize : prefixBytes l.alignment + l.length < 2 ^ 64
  · by_cases htotal : l.total debug < 2 ^ 64
    · rw [bind_returns (checkedAdd_of_lt hsize), bind_returns (checkedAdd_of_lt htotal)]
      by_cases hfits : LayoutFits (l.total debug) (blockAlign l.alignment)
      · exact .inr ⟨hfits, bind_returns (fatalIf_of_not (not_not.mpr hfits))⟩
      · exact .inl ⟨hfits, fatalText "invalid allocation layout", by decide,
          bind_aborts (fatalIf_of hfits)⟩
    · rw [bind_returns (checkedAdd_of_lt hsize)]
      exact .inl ⟨not_fits_of_overflow htotal, fatalText "allocation tail size overflow", by decide,
        bind_aborts (checkedAdd_of_ge htotal)⟩
  · have htotal : ¬ l.total debug < 2 ^ 64 := fun h =>
      hsize (Nat.lt_of_le_of_lt (Nat.le_add_right _ _) h)
    exact .inl ⟨not_fits_of_overflow htotal, fatalText "allocation size overflow", by decide,
      bind_aborts (checkedAdd_of_ge hsize)⟩

/-- The system with one more size in its log. -/
def System.asked (s : System) (size align : ℕ) : System :=
  { s with sizes := s.sizes ++ [(size, align)] }

theorem systemAlloc_run {size align : ℕ} (hfits : LayoutFits size align) :
    (systemAlloc size align answer).run s =
      match answer.base with
      | none => .returns none (s.asked size align)
      | some base =>
        if (⟨base, size, align⟩ : Block).Fresh s.blocks then
          .returns (some base)
            { s.asked size align with
              blocks := ⟨base, size, align⟩ :: s.blocks
              memory := settle s.blocks s.memory answer.junk }
        else .refused :=
  if_neg (not_not.mpr hfits)

/-- The allocation in a block at the given address. -/
def Live.placedAt (l : Live) (base : ℕ) : Live := { l with ptr := base + prefixBytes l.alignment }

theorem Live.block_placedAt (l : Live) (base : ℕ) :
    (l.placedAt base).block debug = ⟨base, l.total debug, blockAlign l.alignment⟩ := by
  have hbase : (l.placedAt base).base = base := Nat.add_sub_cancel ..
  unfold Live.block
  rw [hbase]
  rfl

theorem Live.shaped_placedAt {base : ℕ} {others : List Block} (hask : Askable l.length l.alignment)
    (hkind : l.kind = .ordinary ↔ l.dropFn = none)
    (hdrop : ∀ f, l.dropFn = some f → f ≠ 0 ∧ f < 2 ^ 64)
    (hfits : LayoutFits (l.total debug) (blockAlign l.alignment))
    (hfresh : ((l.placedAt base).block debug).Fresh others) : (l.placedAt base).Shaped debug := by
  obtain ⟨hne, halign, htop, -⟩ := hfresh
  refine ⟨hask, hfits, ?_, halign, htop, hkind, hdrop⟩
  rw [Live.block_placedAt] at hne
  exact Nat.lt_add_of_pos_left (Nat.pos_of_ne_zero hne)

theorem Replaces.of_registered {n : Live} {old : Option Live} {others : List Block}
    (hsame : (registered debug (tailed debug u (n.ptr + n.length)) n.ptr n.record).SameButCounters t)
    (hn : n.Shaped debug) (hapart : ∀ b ∈ others, (n.block debug).Apart b)
    (hbefore : s.blocks.Perm (old.toList.map (Live.block debug) ++ others))
    (hblocks : u.blocks = n.block debug :: others)
    (hheader : AllocationHeader.read u.memory (n.ptr - headerSize) = n.header debug)
    (hkept : ∀ b ∈ others, ∀ a, b.Contains a → u.memory a = s.memory a)
    (hentries : debug → ∀ ptr, u.debugAllocations ptr =
      if ∃ l ∈ old, ptr = l.ptr then none else s.debugAllocations ptr)
    (hactive : ∀ kind, t.active kind + (old.elim 0 fun l => tally l.kind kind) =
      s.active kind + tally n.kind kind) : Replaces debug old (some n) others s t := by
  obtain ⟨-, -, htail⟩ := hn.parts
  obtain ⟨hmemory, hblocks', hentries', -, -⟩ := hsame
  simp only [registered_fields, tailed_fields] at hmemory hblocks'
  refine ⟨hbefore, .of_eq (hblocks'.trans hblocks), ?_, ?_, ?_, fun b hb a ha => ?_,
    fun hdebug ptr hptr => ?_, hactive⟩
  · rintro _ ⟨⟩
    exact hn
  · rintro _ ⟨⟩
    exact hapart
  · rintro _ ⟨⟩
    refine ⟨?_, fun hdebug => ?_, fun hdebug => ?_⟩
    · rw [hmemory]
      exact hn.header_tailed hheader
    · rw [hmemory]
      exact tailed_tail hdebug
    · rw [hentries', registered_eq hdebug, Function.update_self]
  · have hout : a < n.base ∨ n.base + n.total debug ≤ a := (hapart b hb).outside ha
    rw [hmemory, tailed_apply (by have := hn.ptr_eq; omega), hkept b hb a ha]
  · rw [hentries', registered_eq hdebug, Function.update_of_ne (hptr n rfl)]
    simpa using hentries hdebug ptr

theorem allocateBlock_fresh (hshaped : l.Shaped debug) (hbase : answer.base = some l.base)
    (hfresh : (l.block debug).Fresh s.blocks)
    (hentries : Registrable debug s.blocks s.debugAllocations) :
    ∃ t, (allocateBlock debug (l.header debug) l.kind answer).run s = .returns l.ptr t ∧
      Replaces debug none (some l) s.blocks s t ∧
      t.sizes = s.sizes ++ [(l.total debug, blockAlign l.alignment)] ∧ t.finalized = s.finalized := by
  obtain ⟨-, -, -, hapart⟩ := id hfresh
  obtain ⟨hlow, hheader, htail⟩ := hshaped.parts
  obtain ⟨s₁, hs₁⟩ : ∃ s₁ : System, s₁ = { s.asked (l.total debug) (blockAlign l.alignment) with
      blocks := l.block debug :: s.blocks
      memory := settle s.blocks s.memory answer.junk } := ⟨_, rfl⟩
  have hsystem : (systemAlloc (l.header debug).totalSize (l.header debug).requestedAlignment
      answer).run s = .returns (some l.base) s₁ := by
    refine (systemAlloc_run hshaped.fits).trans ?_
    rw [hbase, hs₁]
    exact if_pos hfresh
  obtain ⟨s₂, hs₂⟩ : ∃ s₂, s₂ = { s₁ with
      memory := AllocationHeader.write s₁.memory (l.ptr - headerSize) (l.header debug) } := ⟨_, rfl⟩
  have hmemory := congrArg System.memory hs₂
  dsimp only at hmemory
  have hactive₂ : s₂.active = s.active := by
    rw [hs₂, hs₁]
    exact active_congr rfl rfl
  have hregister : debug →
      (tailed debug s₂ (l.ptr + l.length)).debugAllocations l.ptr = none := fun hdebug => by
    simpa [hs₂, hs₁, System.asked] using hentries hdebug l hshaped hapart
  obtain ⟨t, ht, hsame, hactive⟩ := allocated_eq
    (s := registered debug (tailed debug s₂ (l.ptr + l.length)) l.ptr l.record) l.kind
  refine ⟨t, ?_, .of_registered hsame hshaped hapart (.refl _) (by rw [hs₂, hs₁]) ?_
    (fun b hb a ha => ?_) (fun _ _ => ?_) fun kind => ?_, ?_, ?_⟩
  · unfold allocateBlock
    rw [bind_returns hsystem, bind_returns run_unwrap_some]
    dsimp only
    rw [show l.base + (l.header debug).prefixSize = l.ptr from hshaped.ptr_eq.symm,
      bind_returns run_modify, ← hs₂, bind_returns writeTail_eq]
    exact (bind_returns (debugRegister_eq hregister)).trans (bind_returns ht)
  · rw [hs₂]
    exact AllocationHeader.read_write hshaped.writable
  · have hout : a < l.base ∨ l.base + l.total debug ≤ a := (hapart b hb).outside ha
    rw [hmemory, AllocationHeader.write_apply (by omega), hs₁]
    exact settle_of_contains hb ha
  · simp [hs₂, hs₁, System.asked]
  · simpa [hactive₂] using hactive kind
  · simp [hsame.sizes, hs₂, hs₁, System.asked]
  · simp [hsame.finalized, hs₂, hs₁, System.asked]

/-- What an allocation does. Its result has the pointer of the new block. -/
inductive AllocateOutcome (debug : Bool) (l : Live) (answer : Answer) (s : System) :
    Outcome ℕ → Prop
  | size (message : String) (hmessage : message ∈ sizeMessages)
      (hsize : ¬ LayoutFits (l.total debug) (blockAlign l.alignment)) :
      AllocateOutcome debug l answer s (.aborts message s)
  | exhausted (hfits : LayoutFits (l.total debug) (blockAlign l.alignment))
      (hnull : answer.base = none) :
      AllocateOutcome debug l answer s
        (.aborts outOfMemory (s.asked (l.total debug) (blockAlign l.alignment)))
  | refused : AllocateOutcome debug l answer s .refused
  | returns (ptr : ℕ) (t : System) (hreplaces : Replaces debug none (some { l with ptr }) s.blocks s t)
      (hsizes : t.sizes = s.sizes ++ [(l.total debug, blockAlign l.alignment)])
      (hfinalized : t.finalized = s.finalized) : AllocateOutcome debug l answer s (.returns ptr t)

theorem allocate_outcome (hask : Askable l.length l.alignment)
    (hkind : l.kind = .ordinary ↔ l.dropFn = none)
    (hdrop : ∀ f, l.dropFn = some f → f ≠ 0 ∧ f < 2 ^ 64)
    (hentries : Registrable debug s.blocks s.debugAllocations) :
    AllocateOutcome debug l answer s
      ((allocate debug l.length l.alignment l.kind l.dropFn answer).run s) := by
  rcases @allocate_run debug s l answer hask hkind with
    ⟨hsize, message, hmessage, hrun⟩ | ⟨hfits, hrun⟩
  · rw [hrun]
    exact .size message hmessage hsize
  · rw [hrun]
    have hsystem := @systemAlloc_run s answer _ _ hfits
    cases hbase : answer.base with
    | none =>
      rw [hbase] at hsystem
      have habort : (allocateBlock debug (l.header debug) l.kind answer).run s =
          .aborts outOfMemory (s.asked (l.total debug) (blockAlign l.alignment)) :=
        (bind_returns hsystem).trans (bind_aborts rfl)
      rw [habort]
      exact .exhausted hfits hbase
    | some base =>
      rw [hbase] at hsystem
      dsimp only at hsystem
      by_cases hfresh : (⟨base, l.total debug, blockAlign l.alignment⟩ : Block).Fresh s.blocks
      · rw [← Live.block_placedAt] at hfresh
        have hshaped := Live.shaped_placedAt hask hkind hdrop hfits hfresh
        obtain ⟨t, ht, hreplaces, hsizes, hfinalized⟩ := allocateBlock_fresh hshaped
          (hbase.trans (congrArg some (Nat.add_sub_cancel ..).symm)) hfresh hentries
        exact ht ▸ .returns _ t hreplaces hsizes hfinalized
      · rw [if_neg hfresh] at hsystem
        have hrefused : (allocateBlock debug (l.header debug) l.kind answer).run s = .refused :=
          bind_refused hsystem
        rw [hrefused]
        exact .refused

/-! ## Deallocation -/

theorem removed_entries (hdebug : debug) (l : Live) (ptr : ℕ) :
    (removed debug s l.ptr).debugAllocations ptr =
      if ∃ l' ∈ some l, ptr = l'.ptr then none else s.debugAllocations ptr := by
  subst hdebug
  show Function.update s.debugAllocations l.ptr none ptr = _
  by_cases hp : ptr = l.ptr <;> simp [hp]

theorem rocDealloc_run (hl : l.Shaped debug) (hstored : l.Stored debug s)
    (hmem : l.block debug ∈ s.blocks)
    (hapart : ∀ b ∈ s.blocks.erase (l.block debug), (l.block debug).Apart b)
    (hactive : l.kind ≠ .ordinary → s.active l.kind ≠ 0) (junk : Memory) :
    ∃ t, (rocDealloc debug l.ptr l.alignment junk).run s = .returns () t ∧
      Replaces debug (some l) none (s.blocks.erase (l.block debug)) s t ∧ t.sizes = s.sizes ∧
      t.finalized = s.finalized ++ l.finalizerCall.toList := by
  obtain ⟨hlow, hheader, htail⟩ := hl.parts
  obtain ⟨s₁, hs₁⟩ : ∃ s₁ : System, s₁ = { removed debug s l.ptr with
      memory := write s.memory (l.ptr - headerSize) 8 deadAllocationMagic
      finalized := s.finalized ++ l.finalizerCall.toList } := ⟨_, rfl⟩
  have hactive₁ : s₁.active = s.active :=
    (active_congr (by rw [hs₁]) (by rw [hs₁])).trans
      (@removed_fields debug s l.ptr).2.2.1
  obtain ⟨s₂, hs₂, hsame, hactive₂⟩ := @deallocated_eq s₁ l.kind (by rwa [hactive₁])
  have hblocks : s₂.blocks = s.blocks := by simp [hsame.blocks, hs₁]
  refine ⟨{ s₂ with
    blocks := s.blocks.erase (l.block debug)
    memory := settle (s.blocks.erase (l.block debug)) s₂.memory junk }, ?_,
    ⟨List.perm_cons_erase hmem, .refl _, nofun, nofun, nofun, fun b hb a ha => ?_,
      fun hdebug ptr _ => ?_, fun kind => ?_⟩, ?_, ?_⟩
  · have hwrite : (Host.modify fun s =>
        { s with finalized := s.finalized ++ l.finalizerCall.toList }).run
          { removed debug s l.ptr with
            memory := write (removed debug s l.ptr).memory (l.ptr - headerSize) 8
              deadAllocationMagic } = .returns () s₁ := by
      simp [run_modify, hs₁]
    have hfits : LayoutFits (l.header debug).totalSize (l.header debug).requestedAlignment := hl.fits
    have hkind : AllocationKind.fromRaw (l.header debug).kind = some l.kind := l.kind.fromRaw_raw
    unfold rocDealloc
    rw [bind_returns (validateHeader_eq hl hstored), bind_returns (debugRemove_eq hstored),
      bind_returns (fatalIf_of_not (not_not.mpr hfits))]
    dsimp only
    rw [hkind, bind_returns run_unwrap_some, bind_returns run_modify]
    refine (bind_returns hwrite).trans ((bind_returns hs₂).trans ?_)
    show (if l.block debug ∉ s₂.blocks then _ else _) = _
    rw [if_neg (not_not.mpr (hblocks ▸ hmem)), hblocks]
    rfl
  · have hout : a < l.base ∨ l.base + l.total debug ≤ a := (hapart b hb).outside ha
    show settle _ s₂.memory junk a = _
    rw [settle_of_contains hb ha, hsame.memory, hs₁]
    unfold headerSize at hlow hheader ⊢
    exact write_apply (by omega)
  · show s₂.debugAllocations ptr = _
    rw [hsame.debugAllocations, hs₁, ← removed_entries hdebug l]
  · exact hactive₁ ▸ hactive₂ kind
  · simp [hsame.sizes, hs₁]
  · simp [hsame.finalized, hs₁]

/-! ## Reallocation -/

/-- The allocation with another length. -/
def Live.resized (l : Live) (length : ℕ) : Live := { l with length }

/-- The message for an allocation that is not Roc's. -/
def immutableBacking : String :=
  fatalText "Roc attempted to reallocate immutable host-owned backing"

/-- What a reallocation does. -/
inductive ReallocOutcome (debug : Bool) (l : Live) (length : ℕ) (answer : Answer) (s : System) :
    Outcome ℕ → Prop
  | hostOwned (hkind : l.kind ≠ .ordinary) :
      ReallocOutcome debug l length answer s (.aborts immutableBacking s)
  | size (hkind : l.kind = .ordinary) (message : String) (hmessage : message ∈ sizeMessages)
      (t : System) (hsize : ¬ (l.resized length).total debug < 2 ^ 64) (hsizes : t.sizes = s.sizes) :
      ReallocOutcome debug l length answer s (.aborts message t)
  | undefined (hkind : l.kind = .ordinary) (t : System)
      (hword : (l.resized length).total debug < 2 ^ 64)
      (hsize : ¬ LayoutFits ((l.resized length).total debug) (blockAlign l.alignment))
      (hsizes : t.sizes = s.sizes ++ [((l.resized length).total debug, blockAlign l.alignment)]) :
      ReallocOutcome debug l length answer s (.undefined t)
  | exhausted (hkind : l.kind = .ordinary) (t : System)
      (hfits : LayoutFits ((l.resized length).total debug) (blockAlign l.alignment))
      (hnull : answer.base = none)
      (hsizes : t.sizes = s.sizes ++ [((l.resized length).total debug, blockAlign l.alignment)]) :
      ReallocOutcome debug l length answer s (.aborts outOfMemory t)
  | refused : ReallocOutcome debug l length answer s .refused
  | returns (hkind : l.kind = .ordinary) (ptr : ℕ) (t : System)
      (hreplaces : Replaces debug (some l) (some { l.resized length with ptr })
        (s.blocks.erase (l.block debug)) s t)
      (hsizes : t.sizes = s.sizes ++ [((l.resized length).total debug, blockAlign l.alignment)])
      (hfinalized : t.finalized = s.finalized)
      (hbytes : ∀ i < min l.length length, t.memory (ptr + i) = s.memory (l.ptr + i)) :
      ReallocOutcome debug l length answer s (.returns ptr t)

theorem rocRealloc_run (hl : l.Shaped debug) (hstored : l.Stored debug s)
    (hkind : l.kind = .ordinary) :
    (¬ (l.resized length).total debug < 2 ^ 64 ∧ ∃ message ∈ sizeMessages,
      (rocRealloc debug l.ptr length l.alignment answer).run s =
        .aborts message (removed debug s l.ptr)) ∨
    ((l.resized length).total debug < 2 ^ 64 ∧
      (rocRealloc debug l.ptr length l.alignment answer).run s =
        (reallocBlock debug (l.header debug) l.ptr length ((l.resized length).total debug)
          answer).run (removed debug s l.ptr)) := by
  have hfits : LayoutFits (l.header debug).totalSize (l.header debug).requestedAlignment := hl.fits
  have hraw : AllocationKind.fromRaw (l.header debug).kind = some .ordinary := by
    rw [← hkind]
    exact l.kind.fromRaw_raw
  unfold rocRealloc
  rw [bind_returns (validateHeader_eq hl hstored), bind_returns (fatalIf_of_not (not_not.mpr hraw)),
    bind_returns (debugRemove_eq hstored), bind_returns (fatalIf_of_not (not_not.mpr hfits))]
  by_cases hsize : (l.header debug).prefixSize + length < 2 ^ 64
  · rw [bind_returns (checkedAdd_of_lt hsize)]
    by_cases htotal : (l.resized length).total debug < 2 ^ 64
    · exact .inr ⟨htotal, bind_returns (checkedAdd_of_lt htotal)⟩
    · exact .inl ⟨htotal, fatalText "reallocation tail size overflow", by decide,
        bind_aborts (checkedAdd_of_ge htotal)⟩
  · refine .inl ⟨fun htotal => hsize (Nat.lt_of_le_of_lt (Nat.le_add_right _ _) htotal),
      fatalText "reallocation size overflow", by decide, bind_aborts (checkedAdd_of_ge hsize)⟩

theorem systemRealloc_run {old : Block} {size : ℕ} (hmem : old ∈ s.blocks)
    (hfits : LayoutFits size old.align) :
    (systemRealloc old size answer).run s =
      match answer.base with
      | none => .returns none (s.asked size old.align)
      | some base =>
        if (⟨base, size, old.align⟩ : Block).Fresh (s.blocks.erase old) then
          .returns (some base)
            { s.asked size old.align with
              blocks := ⟨base, size, old.align⟩ :: s.blocks.erase old
              memory := moved old base size (s.blocks.erase old) s.memory answer.junk }
        else .refused :=
  if_neg (not_or.mpr ⟨not_not.mpr hmem, not_not.mpr hfits⟩)

theorem moved_apply {old : Block} {base size : ℕ} {others : List Block} {m junk : Memory} {i : ℕ}
    (h : i < min old.size size) : moved old base size others m junk (base + i) = m (old.base + i) := by
  have hin : base ≤ base + i ∧ base + i < base + min old.size size := by omega
  unfold moved
  rw [if_pos hin, Nat.add_sub_cancel_left]

theorem moved_of_contains {old b : Block} {base size : ℕ} {others : List Block} {m junk : Memory}
    {a : ℕ} (hb : b ∈ others) (ha : b.Contains a) (hout : a < base ∨ base + size ≤ a) :
    moved old base size others m junk a = m a := by
  unfold moved
  rw [if_neg (by omega), settle_of_contains hb ha]

theorem reallocBlock_fresh {n : Live} (hl : l.Shaped debug) (hstored : l.Stored debug s)
    (hmem : l.block debug ∈ s.blocks) (hkind : l.kind = .ordinary) (hn : n.Shaped debug)
    (halignment : n.alignment = l.alignment) (hkindN : n.kind = l.kind) (hdropN : n.dropFn = l.dropFn)
    (hbase : answer.base = some n.base)
    (hfresh : (n.block debug).Fresh (s.blocks.erase (l.block debug)))
    (hentries : Registrable debug (s.blocks.erase (l.block debug))
      (removed debug s l.ptr).debugAllocations) :
    ∃ t, (reallocBlock debug (l.header debug) l.ptr n.length (n.total debug) answer).run
        (removed debug s l.ptr) = .returns n.ptr t ∧
      Replaces debug (some l) (some n) (s.blocks.erase (l.block debug)) s t ∧
      t.sizes = s.sizes ++ [(n.total debug, blockAlign l.alignment)] ∧ t.finalized = s.finalized ∧
      ∀ i < min l.length n.length, t.memory (n.ptr + i) = s.memory (l.ptr + i) := by
  obtain ⟨hlow, hheader, htail⟩ := hl.parts
  obtain ⟨hlowN, hheaderN, htailN⟩ := hn.parts
  have hptr := hl.ptr_eq
  have hptrN := hn.ptr_eq
  rw [halignment] at hptrN
  have hsize := headerSize_le_prefixBytes l.alignment
  have htotal : l.total debug = prefixBytes l.alignment + l.length + tailBytes debug := rfl
  have htotalN : n.total debug = prefixBytes l.alignment + n.length + tailBytes debug := by
    rw [← halignment]
    rfl
  have hblockN : n.block debug = ⟨n.base, n.total debug, blockAlign l.alignment⟩ := by
    rw [← halignment]
    rfl
  obtain ⟨-, -, -, hapart⟩ := id hfresh
  obtain ⟨s₁, hs₁⟩ : ∃ s₁ : System, s₁ =
      { (removed debug s l.ptr).asked (n.total debug) (blockAlign l.alignment) with
        blocks := n.block debug :: s.blocks.erase (l.block debug)
        memory := moved (l.block debug) n.base (n.total debug) (s.blocks.erase (l.block debug))
          s.memory answer.junk } := ⟨_, rfl⟩
  have hsystem : (systemRealloc (l.block debug) (n.total debug) answer).run
      (removed debug s l.ptr) = .returns (some n.base) s₁ := by
    have hfits : LayoutFits (n.total debug) (l.block debug).align := by
      have := hn.fits
      rwa [halignment] at this
    rw [systemRealloc_run (by simpa using hmem) hfits, hbase, hs₁]
    simp only [removed_fields]
    rw [hblockN] at hfresh ⊢
    exact if_pos hfresh
  have hcopied : ∀ i < min (l.total debug) (n.total debug),
      s₁.memory (n.base + i) = s.memory (l.base + i) := fun i hi => by
    rw [hs₁]
    exact moved_apply hi
  obtain ⟨s₂, hs₂⟩ : ∃ s₂, s₂ = { s₁ with
      memory := write (write (write s₁.memory (n.ptr - headerSize + 16) 8 n.length)
        (n.ptr - headerSize + 24) 8 (n.total debug)) (n.ptr - headerSize) 8 allocationMagic } :=
    ⟨_, rfl⟩
  have hmemory := congrArg System.memory hs₂
  dsimp only at hmemory
  have houtside : ∀ a, a < n.ptr - headerSize ∨ n.ptr ≤ a → s₂.memory a = s₁.memory a := by
    intro a ha
    unfold headerSize at ha hheaderN hmemory
    rw [hmemory, write_apply (by omega), write_apply (by omega), write_apply (by omega)]
  have hregister : debug →
      (tailed debug s₂ (n.ptr + n.length)).debugAllocations n.ptr = none := fun hdebug => by
    simpa [hs₂, hs₁, System.asked] using hentries hdebug n hn hapart
  have hactive₂ : s₂.active = s.active :=
    (active_congr (by rw [hs₂, hs₁]; rfl) (by rw [hs₂, hs₁]; rfl)).trans
      (@removed_fields debug s l.ptr).2.2.1
  refine ⟨registered debug (tailed debug s₂ (n.ptr + n.length)) n.ptr n.record, ?_,
    .of_registered ⟨rfl, rfl, rfl, rfl, rfl⟩ hn hapart (List.perm_cons_erase hmem)
      (by rw [hs₂, hs₁]) ?_ (fun b hb a ha => ?_) (fun hdebug ptr => ?_) (fun kind => ?_),
    ?_, ?_, fun i hi => ?_⟩
  · have hblock : (⟨l.ptr - (l.header debug).prefixSize, (l.header debug).totalSize,
        (l.header debug).requestedAlignment⟩ : Block) = l.block debug := rfl
    have hrecord : n.record = ⟨.ordinary, n.length, (l.header debug).requestedAlignment⟩ := by
      simp [Live.record, Live.header, hkindN, hkind, halignment]
    unfold reallocBlock
    dsimp only
    rw [hblock, bind_returns hsystem, bind_returns run_unwrap_some,
      show n.base + (l.header debug).prefixSize = n.ptr from hptrN.symm, bind_returns run_modify,
      ← hs₂, bind_returns writeTail_eq, ← hrecord, bind_returns (debugRegister_eq hregister)]
    rfl
  · -- the header was copied, and three of its fields are new
    have hcopy : AllocationHeader.read s₁.memory (n.ptr - headerSize) = l.header debug := by
      rw [← hstored.header]
      refine AllocationHeader.read_of_bytes fun i hi => ?_
      have hbyte := hcopied (prefixBytes l.alignment - headerSize + i) (by omega)
      rwa [show n.base + (prefixBytes l.alignment - headerSize + i) = n.ptr - headerSize + i by
          omega,
        show l.base + (prefixBytes l.alignment - headerSize + i) = l.ptr - headerSize + i by
          omega] at hbyte
    rw [hmemory, AllocationHeader.read_resized hn.askable.1 (Nat.lt_trans hn.total_lt (by decide)), hcopy]
    simp [Live.header, halignment, hdropN, hkindN]
  · have hout : a < n.base ∨ n.base + n.total debug ≤ a := (hapart b hb).outside ha
    rw [houtside a (by omega), hs₁]
    exact moved_of_contains hb ha hout
  · rw [hs₂, hs₁, ← removed_entries hdebug l]
    rfl
  · simp [hactive₂, hkindN]
  · simp [hs₂, hs₁, System.asked]
  · simp [hs₂, hs₁, System.asked]
  · have hbyte := hcopied (prefixBytes l.alignment + i) (by omega)
    simp only [registered_fields]
    rw [tailed_apply (by omega), houtside _ (by omega), hptrN, hptr, Nat.add_assoc, hbyte,
      Nat.add_assoc]

theorem realloc_outcome (hl : l.Shaped debug) (hstored : l.Stored debug s)
    (hmem : l.block debug ∈ s.blocks) (hlength : length < 2 ^ 64)
    (hentries : Registrable debug (s.blocks.erase (l.block debug))
      (removed debug s l.ptr).debugAllocations) :
    ReallocOutcome debug l length answer s
      ((rocRealloc debug l.ptr length l.alignment answer).run s) := by
  by_cases hkind : l.kind = .ordinary
  · rcases @rocRealloc_run debug s l length answer hl hstored hkind with
      ⟨hsize, message, hmessage, hrun⟩ | ⟨hword, hrun⟩ <;> rw [hrun]
    · exact .size hkind message hmessage _ hsize (by simp)
    · have hsizes : ((removed debug s l.ptr).asked ((l.resized length).total debug)
          (blockAlign l.alignment)).sizes =
            s.sizes ++ [((l.resized length).total debug, blockAlign l.alignment)] := by
        simp [System.asked]
      by_cases hfits : LayoutFits ((l.resized length).total debug) (blockAlign l.alignment)
      · have hsystem := @systemRealloc_run (removed debug s l.ptr) answer (l.block debug) _
          (by simpa using hmem) hfits
        cases hbase : answer.base with
        | none =>
          rw [hbase] at hsystem
          rw [show (reallocBlock debug (l.header debug) l.ptr length ((l.resized length).total debug)
            answer).run _ = .aborts outOfMemory _ from (bind_returns hsystem).trans (bind_aborts rfl)]
          exact .exhausted hkind _ hfits hbase hsizes
        | some base =>
          simp only [hbase, removed_fields, show (l.block debug).align = blockAlign l.alignment from rfl]
            at hsystem
          by_cases hfresh : (⟨base, (l.resized length).total debug, blockAlign l.alignment⟩ :
              Block).Fresh (s.blocks.erase (l.block debug))
          · rw [show blockAlign l.alignment = blockAlign (l.resized length).alignment from rfl,
              ← Live.block_placedAt] at hfresh
            have hn := Live.shaped_placedAt (l := l.resized length) ⟨hlength, hl.askable.2⟩ hl.finalizer
              hl.dropFn hfits hfresh
            obtain ⟨t, ht, hreplaces, hsizes, hfinalized, hbytes⟩ := reallocBlock_fresh hl hstored
              hmem hkind hn rfl rfl rfl
              (hbase.trans (congrArg some (Nat.add_sub_cancel ..).symm)) hfresh hentries
            exact ht ▸ .returns hkind _ t hreplaces hsizes hfinalized hbytes
          · rw [if_neg hfresh] at hsystem
            rw [show (reallocBlock debug (l.header debug) l.ptr length
              ((l.resized length).total debug) answer).run _ = .refused from bind_refused hsystem]
            exact .refused
      · rw [show (reallocBlock debug (l.header debug) l.ptr length ((l.resized length).total debug)
          answer).run _ = .undefined _ from bind_undefined (if_pos (.inr hfits))]
        exact .undefined hkind _ hword hfits hsizes
  · have hraw : AllocationKind.fromRaw (l.header debug).kind ≠ some .ordinary := by
      rw [show AllocationKind.fromRaw (l.header debug).kind = some l.kind from l.kind.fromRaw_raw]
      exact fun h => hkind (Option.some.inj h)
    rw [show (rocRealloc debug l.ptr length l.alignment answer).run s = .aborts immutableBacking s from
      (bind_returns (validateHeader_eq hl hstored)).trans (bind_aborts (fatalIf_of hraw))]
    exact .hostOwned hkind

end BasicWebserver.RocAlloc
