import BasicWebserver.Foundation.Bag
import BasicWebserver.Foundation.ByteMemory
import BasicWebserver.Foundation.Machine

/-!
# The Roc allocator

`src/roc_alloc.rs`, on a 64-bit target without benchmark counters. The memory is one of bytes: an
allocation is a block of the system allocator with a header in the bytes before the pointer that
Roc gets, and in debug builds a canary after its bytes and an entry in a table of live allocations.

The system allocator is not part of the source. It answers a call with null or with any block that
its contract allows, and the bytes outside the blocks may be anything after a call. A call outside
its preconditions has no defined outcome.
-/

namespace BasicWebserver.RocAlloc

open ByteMemory Transition Bag

def allocationMagic : ℕ := 0x524f43414c4c4f43

def deadAllocationMagic : ℕ := 0x44454144414c4c4f

def allocationVersion : ℕ := 1

def headerCanary : ℕ := 0xa110cafefade1680

def tailCanary : ℕ := 0xb0d1cafefade1680

def tailBytes (debug : Bool) : ℕ := if debug then 8 else 0

inductive AllocationKind
  | ordinary
  | requestBody
  | seamlessBytes
  deriving DecidableEq

def AllocationKind.raw : AllocationKind → ℕ
  | .ordinary => 1
  | .requestBody => 2
  | .seamlessBytes => 3

def AllocationKind.fromRaw : ℕ → Option AllocationKind
  | 1 => some .ordinary
  | 2 => some .requestBody
  | 3 => some .seamlessBytes
  | _ => none

theorem AllocationKind.fromRaw_raw (kind : AllocationKind) : fromRaw kind.raw = some kind := by
  cases kind <;> rfl

/-- `AllocationHeader`; a finalizer is its address, and a null one is none. -/
structure AllocationHeader where
  magic : ℕ
  headerCanary : ℕ
  requestedSize : ℕ
  totalSize : ℕ
  prefixSize : ℕ
  requestedAlignment : ℕ
  dropFn : Option ℕ
  version : ℕ
  kind : ℕ
  deriving DecidableEq

/-- `size_of::<AllocationHeader>()`. -/
def headerSize : ℕ := 64

/-- The alignment of `usize` and of `AllocationHeader`. -/
def wordAlign : ℕ := 8

namespace AllocationHeader

def read (m : Memory) (a : ℕ) : AllocationHeader where
  magic := ByteMemory.read m a 8
  headerCanary := ByteMemory.read m (a + 8) 8
  requestedSize := ByteMemory.read m (a + 16) 8
  totalSize := ByteMemory.read m (a + 24) 8
  prefixSize := ByteMemory.read m (a + 32) 8
  requestedAlignment := ByteMemory.read m (a + 40) 8
  dropFn := if ByteMemory.read m (a + 48) 8 = 0 then none else some (ByteMemory.read m (a + 48) 8)
  version := ByteMemory.read m (a + 56) 4
  kind := ByteMemory.read m (a + 60) 4

def write (m : Memory) (a : ℕ) (h : AllocationHeader) : Memory :=
  let m := ByteMemory.write m a 8 h.magic
  let m := ByteMemory.write m (a + 8) 8 h.headerCanary
  let m := ByteMemory.write m (a + 16) 8 h.requestedSize
  let m := ByteMemory.write m (a + 24) 8 h.totalSize
  let m := ByteMemory.write m (a + 32) 8 h.prefixSize
  let m := ByteMemory.write m (a + 40) 8 h.requestedAlignment
  let m := ByteMemory.write m (a + 48) 8 (h.dropFn.getD 0)
  let m := ByteMemory.write m (a + 56) 4 h.version
  ByteMemory.write m (a + 60) 4 h.kind

end AllocationHeader

/-! ## The process -/

structure DebugAllocation where
  kind : AllocationKind
  requestedSize : ℕ
  requestedAlignment : ℕ
  deriving DecidableEq

/-- A block of the system allocator, with its layout. -/
structure Block where
  base : ℕ
  size : ℕ
  align : ℕ
  deriving DecidableEq

/-- The memory of the process, the blocks that the system allocator gave out, and the statics of the
source. The logs `sizes` and `finalized` record the sizes handed to the system allocator and the
finalizers that ran. -/
structure System where
  memory : Memory
  blocks : List Block
  debugAllocations : ℕ → Option DebugAllocation
  activeRequestBodies : ℕ
  requestBodyHighWater : ℕ
  activeSeamlessBackings : ℕ
  seamlessBackingHighWater : ℕ
  sizes : List (ℕ × ℕ)
  finalized : List (ℕ × ℕ)

/-- How a call ends. A refused call got an answer that the system allocator cannot give. -/
inductive Outcome (α : Type)
  | returns (value : α) (s : System)
  | aborts (message : String) (s : System)
  | undefined (s : System)
  | refused

/-- A piece of the source that works on the process. -/
structure Host (α : Type) where
  run : System → Outcome α

namespace Host

variable {α β : Type}

def pure (value : α) : Host α := ⟨fun s => .returns value s⟩

def bind (x : Host α) (f : α → Host β) : Host β where
  run s :=
    match x.run s with
    | .returns value s => (f value).run s
    | .aborts message s => .aborts message s
    | .undefined s => .undefined s
    | .refused => .refused

instance : Monad Host where
  pure := pure
  bind := bind

def get : Host System := ⟨fun s => .returns s s⟩

def modify (f : System → System) : Host Unit := ⟨fun s => .returns () (f s)⟩

end Host

/-- What `fatal` prints. -/
def fatalText (message : String) : String := "fatal: Roc allocation invariant failed: " ++ message

def fatal {α : Type} (message : String) : Host α := ⟨fun s => .aborts (fatalText message) s⟩

def fatalIf (p : Prop) [Decidable p] (message : String) : Host Unit :=
  if p then fatal message else pure ()

/-- `unwrap_or_else` with a fatal error. -/
def unwrap {α : Type} (value : Option α) (message : String) : Host α :=
  value.elim (fatal message) pure

/-! ## The system allocator -/

def isizeMax : ℕ := 2 ^ 63 - 1

/-- The condition of `Layout::from_size_align`. -/
def LayoutFits (size align : ℕ) : Prop := align.isPowerOfTwo ∧ alignUp size align ≤ isizeMax

instance (size align : ℕ) : Decidable (LayoutFits size align) := instDecidableAnd

namespace Block

def Contains (b : Block) (a : ℕ) : Prop := b.base ≤ a ∧ a < b.base + b.size

instance (b : Block) (a : ℕ) : Decidable (b.Contains a) := instDecidableAnd

def Apart (b c : Block) : Prop := b.base + b.size ≤ c.base ∨ c.base + c.size ≤ b.base

instance (b c : Block) : Decidable (b.Apart c) := instDecidableOr

/-- A block that the system allocator may give out next to the others. -/
def Fresh (b : Block) (others : List Block) : Prop :=
  b.base ≠ 0 ∧ b.base % b.align = 0 ∧ b.base + b.size ≤ 2 ^ 64 ∧ ∀ c ∈ others, b.Apart c

instance (b : Block) (others : List Block) : Decidable (b.Fresh others) :=
  inferInstanceAs (Decidable (_ ∧ _ ∧ _ ∧ _))

end Block

/-- An answer of the system allocator: null or an address, and what is outside the blocks
afterwards. -/
structure Answer where
  base : Option ℕ
  junk : Memory

/-- The bytes in the blocks as they are, the others as given. -/
def settle (blocks : List Block) (m junk : Memory) : Memory := fun a =>
  if ∃ b ∈ blocks, b.Contains a then m a else junk a

/-- `std::alloc::alloc`. -/
def systemAlloc (size align : ℕ) (answer : Answer) : Host (Option ℕ) where
  run s :=
    let s := { s with sizes := s.sizes ++ [(size, align)] }
    if ¬ LayoutFits size align then .undefined s
    else
      match answer.base with
      | none => .returns none s
      | some base =>
        let block := ⟨base, size, align⟩
        if block.Fresh s.blocks then
          .returns (some base)
            { s with
              blocks := block :: s.blocks
              memory := settle s.blocks s.memory answer.junk }
        else .refused

/-- The memory after a reallocation: the first bytes of the old block are at the new one. -/
def moved (old : Block) (base newSize : ℕ) (others : List Block) (m junk : Memory) : Memory :=
  fun a =>
    if base ≤ a ∧ a < base + min old.size newSize then m (old.base + (a - base))
    else settle others m junk a

/-- `std::alloc::realloc`. -/
def systemRealloc (old : Block) (newSize : ℕ) (answer : Answer) : Host (Option ℕ) where
  run s :=
    let s := { s with sizes := s.sizes ++ [(newSize, old.align)] }
    if old ∉ s.blocks ∨ ¬ LayoutFits newSize old.align then .undefined s
    else
      match answer.base with
      | none => .returns none s
      | some base =>
        let block := ⟨base, newSize, old.align⟩
        let others := s.blocks.erase old
        if block.Fresh others then
          .returns (some base)
            { s with
              blocks := block :: others
              memory := moved old base newSize others s.memory answer.junk }
        else .refused

/-- `std::alloc::dealloc`. -/
def systemDealloc (block : Block) (junk : Memory) : Host Unit where
  run s :=
    if block ∉ s.blocks then .undefined s
    else
      .returns ()
        { s with
          blocks := s.blocks.erase block
          memory := settle (s.blocks.erase block) s.memory junk }

/-! ## Arithmetic and counters -/

def checkedAdd (left right : ℕ) (context : String) : Host ℕ :=
  if left + right < 2 ^ 64 then pure (left + right) else fatal context

def normalizedAlignment (alignment : ℕ) : Host ℕ :=
  let alignment := max (max alignment wordAlign) wordAlign
  if ¬ alignment.isPowerOfTwo then fatal "alignment is not a power of two" else pure alignment

def roundUp (value alignment : ℕ) : Host ℕ := do
  let mask := alignment - 1
  let sum ← checkedAdd value mask "allocation prefix overflow"
  pure (sum &&& (2 ^ 64 - 1 - mask))

def allocated : AllocationKind → Host Unit
  | .ordinary => pure ()
  | .requestBody => Host.modify fun s =>
    { s with
      activeRequestBodies := s.activeRequestBodies + 1
      requestBodyHighWater := max s.requestBodyHighWater (s.activeRequestBodies + 1) }
  | .seamlessBytes => Host.modify fun s =>
    { s with
      activeSeamlessBackings := s.activeSeamlessBackings + 1
      seamlessBackingHighWater := max s.seamlessBackingHighWater (s.activeSeamlessBackings + 1) }

def deallocated : AllocationKind → Host Unit
  | .ordinary => pure ()
  | .requestBody => do
    let s ← Host.get
    fatalIf (s.activeRequestBodies = 0) "host-owned allocation accounting underflow"
    Host.modify fun s => { s with activeRequestBodies := s.activeRequestBodies - 1 }
  | .seamlessBytes => do
    let s ← Host.get
    fatalIf (s.activeSeamlessBackings = 0) "host-owned allocation accounting underflow"
    Host.modify fun s => { s with activeSeamlessBackings := s.activeSeamlessBackings - 1 }

section Debug

variable (debug : Bool)

def debugRegister (userPtr : ℕ) (entry : DebugAllocation) : Host Unit := do
  if debug then
    let s ← Host.get
    fatalIf (s.debugAllocations userPtr).isSome "duplicate live allocation address"
    Host.modify fun s =>
      { s with debugAllocations := Function.update s.debugAllocations userPtr (some entry) }

def debugLookup (userPtr : ℕ) : Host DebugAllocation := do
  let s ← Host.get
  unwrap (s.debugAllocations userPtr) "foreign or duplicate deallocation"

/-- The entry that `validate_header` compares with. -/
def debugRecorded (userPtr : ℕ) : Host (Option DebugAllocation) := do
  if debug then return some (← debugLookup userPtr) else return none

def debugRemove (userPtr : ℕ) : Host Unit := do
  if debug then
    let _ ← debugLookup userPtr
    Host.modify fun s =>
      { s with debugAllocations := Function.update s.debugAllocations userPtr none }

/-- The check of `validate_header` on the alignment that the caller gave. -/
def validateSupplied (alignment : ℕ) : Option ℕ → Host Unit
  | none => pure ()
  | some value => do
    let supplied ← normalizedAlignment value
    fatalIf (supplied ≠ alignment) "deallocation alignment does not match allocation"

/-- The checks of `validate_header` on the fields of a header. -/
def validateFields (userPtr : ℕ) (suppliedAlignment : Option ℕ) (header : AllocationHeader) :
    Host AllocationKind := do
  fatalIf (header.magic ≠ allocationMagic) "bad allocation magic"
  fatalIf (header.version ≠ allocationVersion) "unsupported allocation header version"
  fatalIf (header.headerCanary ≠ headerCanary) "allocation header canary was overwritten"
  let kind ← unwrap (AllocationKind.fromRaw header.kind) "invalid allocation kind"
  let alignment ← normalizedAlignment header.requestedAlignment
  fatalIf (alignment ≠ header.requestedAlignment ∨ userPtr &&& (alignment - 1) ≠ 0)
    "allocation alignment metadata is invalid"
  validateSupplied alignment suppliedAlignment
  fatalIf (header.prefixSize < headerSize ∨ header.prefixSize % alignment ≠ 0)
    "allocation-base recovery metadata is invalid"
  let size ← checkedAdd header.prefixSize header.requestedSize "allocation size overflow"
  let expectedTotal ← checkedAdd size (tailBytes debug) "allocation tail size overflow"
  fatalIf (header.totalSize ≠ expectedTotal) "allocation size metadata is invalid"
  fatalIf (kind = .ordinary ∧ header.dropFn.isSome)
    "ordinary allocation unexpectedly has a finalizer"
  fatalIf (kind ≠ .ordinary ∧ header.dropFn.isNone)
    "host-owned allocation is missing its finalizer"
  pure kind

/-- The checks of `validate_header` in debug builds. -/
def validateRecorded (m : Memory) (userPtr : ℕ) (header : AllocationHeader) (kind : AllocationKind) :
    Option DebugAllocation → Host Unit
  | none => pure ()
  | some recorded => do
    fatalIf (recorded ≠ ⟨kind, header.requestedSize, header.requestedAlignment⟩)
      "live-allocation ledger disagrees with allocation metadata"
    fatalIf (read m (userPtr + header.requestedSize) 8 ≠ tailCanary)
      "allocation tail canary was overwritten"

def validateHeader (userPtr : ℕ) (suppliedAlignment : Option ℕ) : Host AllocationHeader := do
  fatalIf (userPtr = 0) "null allocation pointer"
  let recorded ← debugRecorded debug userPtr
  let s ← Host.get
  let header := AllocationHeader.read s.memory (userPtr - headerSize)
  let kind ← validateFields debug userPtr suppliedAlignment header
  validateRecorded s.memory userPtr header kind recorded
  pure header

/-- The write of the canary after the bytes of an allocation. -/
def writeTail (address : ℕ) : Host Unit := do
  if debug then
    Host.modify fun s => { s with memory := write s.memory address 8 tailCanary }

/-! ## The operations -/

/-- `allocate` from the call of the system allocator on. -/
def allocateBlock (header : AllocationHeader) (kind : AllocationKind) (answer : Answer) : Host ℕ := do
  let base ← systemAlloc header.totalSize header.requestedAlignment answer
  let base ← unwrap base "out of memory"
  let userPtr := base + header.prefixSize
  Host.modify fun s =>
    { s with memory := AllocationHeader.write s.memory (userPtr - headerSize) header }
  writeTail debug (userPtr + header.requestedSize)
  debugRegister debug userPtr ⟨kind, header.requestedSize, header.requestedAlignment⟩
  allocated kind
  pure userPtr

def allocate (requestedSize requestedAlignment : ℕ) (kind : AllocationKind) (dropFn : Option ℕ)
    (answer : Answer) : Host ℕ := do
  fatalIf (decide (kind = .ordinary) ≠ dropFn.isNone) "allocation kind/finalizer mismatch"
  let alignment ← normalizedAlignment requestedAlignment
  let prefixSize ← roundUp headerSize alignment
  let size ← checkedAdd prefixSize requestedSize "allocation size overflow"
  let totalSize ← checkedAdd size (tailBytes debug) "allocation tail size overflow"
  fatalIf (¬ LayoutFits totalSize alignment) "invalid allocation layout"
  allocateBlock debug ⟨allocationMagic, headerCanary, requestedSize, totalSize, prefixSize, alignment,
    dropFn, allocationVersion, kind.raw⟩ kind answer

def allocateHostOwned (requestedSize requestedAlignment : ℕ) (kind : AllocationKind) (dropFn : ℕ)
    (answer : Answer) : Host ℕ := do
  fatalIf (kind = .ordinary) "host-owned allocation cannot use the ordinary kind"
  allocate debug requestedSize requestedAlignment kind (some dropFn) answer

def rocAlloc (length alignment : ℕ) (answer : Answer) : Host ℕ :=
  allocate debug length alignment .ordinary none answer

def rocDealloc (userPtr alignment : ℕ) (junk : Memory) : Host Unit := do
  let header ← validateHeader debug userPtr (some alignment)
  debugRemove debug userPtr
  fatalIf (¬ LayoutFits header.totalSize header.requestedAlignment) "invalid deallocation layout"
  let base := userPtr - header.prefixSize
  let kind ← unwrap (AllocationKind.fromRaw header.kind) "invalid allocation kind"
  Host.modify fun s =>
    { s with memory := write s.memory (userPtr - headerSize) 8 deadAllocationMagic }
  Host.modify fun s =>
    { s with finalized := s.finalized ++ (header.dropFn.map fun finalize => (finalize, userPtr)).toList }
  deallocated kind
  systemDealloc ⟨base, header.totalSize, header.requestedAlignment⟩ junk

/-- `roc_realloc` from the call of the system allocator on. -/
def reallocBlock (header : AllocationHeader) (oldUserPtr newLength newTotalSize : ℕ)
    (answer : Answer) : Host ℕ := do
  let oldBase := oldUserPtr - header.prefixSize
  let newBase ← systemRealloc ⟨oldBase, header.totalSize, header.requestedAlignment⟩ newTotalSize
    answer
  let newBase ← unwrap newBase "out of memory"
  let newUserPtr := newBase + header.prefixSize
  let newHeader := newUserPtr - headerSize
  Host.modify fun s =>
    { s with
      memory := write (write (write s.memory (newHeader + 16) 8 newLength) (newHeader + 24) 8
        newTotalSize) newHeader 8 allocationMagic }
  writeTail debug (newUserPtr + newLength)
  debugRegister debug newUserPtr ⟨.ordinary, newLength, header.requestedAlignment⟩
  pure newUserPtr

def rocRealloc (oldUserPtr newLength alignment : ℕ) (answer : Answer) : Host ℕ := do
  let header ← validateHeader debug oldUserPtr (some alignment)
  fatalIf (AllocationKind.fromRaw header.kind ≠ some .ordinary)
    "Roc attempted to reallocate immutable host-owned backing"
  debugRemove debug oldUserPtr
  fatalIf (¬ LayoutFits header.totalSize header.requestedAlignment) "invalid reallocation layout"
  let size ← checkedAdd header.prefixSize newLength "reallocation size overflow"
  let newTotalSize ← checkedAdd size (tailBytes debug) "reallocation tail size overflow"
  reallocBlock debug header oldUserPtr newLength newTotalSize answer

end Debug

/-! ## Clients -/

/-- What a client knows of an allocation of its own. -/
structure Live where
  ptr : ℕ
  length : ℕ
  alignment : ℕ
  kind : AllocationKind
  dropFn : Option ℕ

inductive Status
  | running
  | aborted (message : String)
  | undefined

/-- The process with its client. The logs `made` and `released` are the allocations and the
deallocations of host-owned ones so far. -/
structure Process where
  system : System
  live : List Live
  made : List Live
  released : List Live
  status : Status

/-- The calls of a client, and its writes to its own bytes. It names its allocations by their
position. -/
inductive Action
  | alloc (length alignment : ℕ) (answer : Answer)
  | allocHostOwned (length alignment : ℕ) (kind : AllocationKind) (dropFn : ℕ) (answer : Answer)
  | realloc (j newLength : ℕ) (answer : Answer)
  | dealloc (j : ℕ) (junk : Memory)
  | write (j offset : ℕ) (byte : UInt8)

/-- The process after a call. -/
def Process.after {α : Type} (p : Process) (outcome : Outcome α) (next : α → System → Process) :
    Option Process :=
  match outcome with
  | .returns value s => some (next value s)
  | .aborts message s => some { p with system := s, status := .aborted message }
  | .undefined s => some { p with system := s, status := .undefined }
  | .refused => none

/-- A length and an alignment that a client may ask for. -/
def Askable (length alignment : ℕ) : Prop :=
  length < 2 ^ 64 ∧ alignment < 2 ^ 64 ∧ alignment.isPowerOfTwo

instance (length alignment : ℕ) : Decidable (Askable length alignment) :=
  inferInstanceAs (Decidable (_ ∧ _ ∧ _))

section Clients

variable (debug : Bool)

def call (p : Process) : Action → Option Process
  | .alloc length alignment answer =>
    if Askable length alignment then
      p.after ((rocAlloc debug length alignment answer).run p.system) fun ptr system =>
        { p with system, live := ⟨ptr, length, alignment, .ordinary, none⟩ :: p.live }
    else none
  | .allocHostOwned length alignment kind dropFn answer =>
    if Askable length alignment ∧ kind ≠ .ordinary ∧ dropFn ≠ 0 ∧ dropFn < 2 ^ 64 then
      p.after ((allocateHostOwned debug length alignment kind dropFn answer).run p.system)
        fun ptr system =>
          let l := ⟨ptr, length, alignment, kind, some dropFn⟩
          { p with system, live := l :: p.live, made := l :: p.made }
    else none
  | .realloc j newLength answer =>
    (takeAt p.live j).bind fun (l, live) =>
      if newLength < 2 ^ 64 then
        p.after ((rocRealloc debug l.ptr newLength l.alignment answer).run p.system) fun ptr system =>
          { p with system, live := { l with ptr, length := newLength } :: live }
      else none
  | .dealloc j junk =>
    (takeAt p.live j).bind fun (l, live) =>
      p.after ((rocDealloc debug l.ptr l.alignment junk).run p.system) fun _ system =>
        { p with
          system, live
          released := if l.kind = .ordinary then p.released else p.released ++ [l] }
  | .write j offset byte =>
    (takeAt p.live j).bind fun (l, _) =>
      if offset < l.length then
        some { p with
          system.memory := Function.update p.system.memory (l.ptr + offset) byte }
      else none

def step (p : Process) (a : Action) : Option Process :=
  match p.status with
  | .running => call debug p a
  | _ => none

def Process.init (memory : Memory) : Process where
  system := ⟨memory, [], fun _ => none, 0, 0, 0, 0, [], []⟩
  live := []
  made := []
  released := []
  status := .running

def machine (memory : Memory) : Machine Process Action := ⟨Process.init memory, step debug⟩

end Clients

end BasicWebserver.RocAlloc
