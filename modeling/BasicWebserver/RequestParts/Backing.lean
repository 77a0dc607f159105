import BasicWebserver.HostResource.References
import BasicWebserver.RequestParts.Agreement

/-!
# The backing of a converted request

`RequestPartsBacking` of `src/request_parts.rs`, in a slot of the host resource heap, and the check
of a response body in `src/request_body.rs`. A response body that is a seamless slice must lie in
the bytes that its allocation keeps alive; for a request these are the texts of its parts.
-/

namespace BasicWebserver.RequestParts

open Transition Ascii Http RequestTarget HostResource Fallible

def maxLiveRequestBackings : ℕ := 65535

/-- `RequestPartsResource`. -/
structure Resource where
  parts : Parts
  metadata : RequestMetadata

/-- The heap of request parts and its users. -/
abbrev backings (L : Layout) : Machine (System Resource) (Action Resource) :=
  HostResource.machine Resource L maxLiveRequestBackings

/-! ## Checking a response body -/

/-- A byte list from Roc: its own bytes, or a seamless slice. -/
inductive ByteList
  | owned (bytes : Bytes)
  | seamless (allocation address length : ℕ)

/-- An allocation of `roc_alloc`, with what the checks read of it. -/
inductive Allocation
  | ordinary (requestedSize : ℕ)
  | requestBody
  | seamlessBytes (originalPtr originalLen : ℕ)

/-- What is at the bases outside the heap of request parts. -/
structure Memory where
  refcount : ℕ → ℤ
  allocation : ℕ → Allocation

section Check

variable (lits : Literals) (L : Layout) (heap : Heap Resource) (memory : Memory)

def checkedAdd (a b : ℕ) (message : String) : Except String ℕ :=
  if a + b < 2 ^ 64 then .ok (a + b) else .error message

/-- The text has the given range. -/
def containsRange (start stop : ℕ) (text : Text) : Bool :=
  text.address + text.length < 2 ^ 64 && text.address ≤ start && stop ≤ text.address + text.length

/-- The range is in one of the texts of the request. -/
def Parts.contains (parts : Parts) (start stop : ℕ) : Bool :=
  containsRange start stop parts.methodText ||
    parts.uri.pathAndQuery.any (fun value => containsRange start stop (value.asStr lits)) ||
    parts.uri.authority.any (containsRange start stop) ||
    parts.headers.toList.any fun (name, value) =>
      containsRange start stop (parts.nameText name) || containsRange start stop value.asBytes

/-- `request_parts::validate_seamless_range`. -/
def validateSeamlessRange (allocation address length : ℕ) : Except String Unit :=
  match heap.get L maxLiveRequestBackings allocation with
  | .error _ | .ok none => .error "fatal: stale request metadata seamless allocation"
  | .ok (some resource) => do
    let stop ← checkedAdd address length "fatal: request metadata seamless range overflow"
    if Parts.contains lits resource.parts address stop then .ok ()
    else .error "fatal: seamless response slice escapes its request metadata backing"

/-- `request_body::validate_seamless_range`, from the check of the allocation on. -/
def validateBytesRange (originalPtr originalLen address length : ℕ) : Except String Unit := do
  let backingStop ← checkedAdd originalPtr originalLen "fatal: seamless Bytes backing range overflow"
  let stop ← checkedAdd address length "fatal: seamless request-body slice range overflow"
  if address < originalPtr ∨ stop > backingStop then
    .error "fatal: seamless request-body slice escapes its Bytes backing"
  else .ok ()

/-- `roc_alloc::validate_range`, from the check of the header on. -/
def validateOrdinaryRange (base requestedSize address length : ℕ) : Except String Unit := do
  let stop ← checkedAdd base requestedSize
    "fatal: Roc allocation invariant failed: allocation range overflow"
  let rangeStop ← checkedAdd address length
    "fatal: Roc allocation invariant failed: seamless slice range overflow"
  if address < base ∨ rangeStop > stop then
    .error ("fatal: Roc allocation invariant failed: " ++
      "seamless slice escapes its ordinary backing allocation")
  else .ok ()

/-- The reference count before an allocation. -/
def refcountAt (base : ℕ) : ℤ :=
  match indexForBase L maxLiveRequestBackings base with
  | some index => (heap.cells index).refcount
  | none => memory.refcount base

/-- `validate_response_body`; an error is an abort with that text. -/
def validateResponseBody : ByteList → Except String Unit
  | .owned _ => .ok ()
  | .seamless allocation address length =>
    let base := allocation - tokenOffset
    if length = 0 then .ok ()
    else if refcountAt L heap memory base = 0 then .ok ()
    else if containsAddress L maxLiveRequestBackings base then
      validateSeamlessRange lits L heap allocation address length
    else
      match memory.allocation base with
      | .seamlessBytes originalPtr originalLen =>
        validateBytesRange originalPtr originalLen address length
      | .ordinary requestedSize => validateOrdinaryRange base requestedSize address length
      | .requestBody =>
        .error "fatal: response bytes referred to a request-body capability allocation"

end Check

/-! ## Slices of a live request -/

section Live

variable {lits : Literals} {L : Layout} {memory : Memory} {s : System Resource}
  {as : List (Action Resource)} {r : Reservation} {parts : Parts} {m : RequestMetadata}

theorem maxLiveRequestBackings_le : maxLiveRequestBackings ≤ tokenIndexMask := Nat.le_refl _

theorem checkedAdd_eq_ok {a b stop : ℕ} {message : String} :
    checkedAdd a b message = .ok stop ↔ a + b < 2 ^ 64 ∧ stop = a + b := by
  unfold checkedAdd
  split_ifs with h
  · rw [Except.ok.injEq, eq_comm]
    exact (and_iff_right h).symm
  · exact ⟨nofun, fun hand => absurd hand.1 h⟩

theorem good_backings (h : (backings L).exec (System.init maxLiveRequestBackings) as = some s) :
    ∃ life, Good maxLiveRequestBackings s life := by
  obtain ⟨life, good, -⟩ := good_of_exec maxLiveRequestBackings_le (good_init _) h
  exact ⟨life, good⟩

theorem validateResponseBody_live
    (h : (backings L).exec (System.init maxLiveRequestBackings) as = some s)
    (hin : (r, ⟨parts, m⟩) ∈ s.inserted) (hheld : 0 < s.held r) (address : ℕ) {length : ℕ}
    (hlength : length ≠ 0) :
    validateResponseBody lits L s.heap memory (.seamless (L.handle r.index) address length) =
      (checkedAdd address length "fatal: request metadata seamless range overflow" >>= fun stop =>
        if Parts.contains lits parts address stop then .ok ()
        else .error "fatal: seamless response slice escapes its request metadata backing") := by
  obtain ⟨life, good⟩ := good_backings h
  obtain ⟨hget, hi⟩ := get_of_held L maxLiveRequestBackings_le good hin hheld
  obtain ⟨-, hcell, -⟩ := live_of_held good hin hheld
  have hbase : L.handle r.index - tokenOffset = L.basePtr r.index := Nat.add_sub_cancel ..
  have hcount : refcountAt L s.heap memory (L.basePtr r.index) ≠ 0 := by
    unfold refcountAt
    rw [indexForBase_basePtr L hi]
    show (s.heap.cells r.index).refcount ≠ 0
    rw [hcell]
    exact Int.natCast_ne_zero.mpr (Nat.ne_of_gt hheld)
  have hcontains : containsAddress L maxLiveRequestBackings (L.basePtr r.index) := by
    have hmul : (r.index + 1) * L.stride ≤ maxLiveRequestBackings * L.stride :=
      Nat.mul_le_mul_right _ hi
    have hstride := L.token_fits
    unfold containsAddress Layout.basePtr
    rw [Nat.succ_mul] at hmul
    simp only [Bool.and_eq_true, decide_eq_true_eq]
    omega
  unfold validateResponseBody
  dsimp only
  rw [hbase, if_neg hlength, if_neg hcount, if_pos hcontains]
  unfold validateSeamlessRange
  rw [hget]

/-- A slice of a live request passes exactly when it is in one of the texts. -/
theorem validateResponseBody_eq
    (h : (backings L).exec (System.init maxLiveRequestBackings) as = some s)
    (hin : (r, ⟨parts, m⟩) ∈ s.inserted) (hheld : 0 < s.held r) (address : ℕ) {length : ℕ}
    (hlength : length ≠ 0) :
    validateResponseBody lits L s.heap memory (.seamless (L.handle r.index) address length) = .ok () ↔
      address + length < 2 ^ 64 ∧ Parts.contains lits parts address (address + length) := by
  rw [validateResponseBody_live h hin hheld address hlength, bind_eq_ok]
  constructor
  · rintro ⟨stop, hstop, hrange⟩
    obtain ⟨hfits, rfl⟩ := checkedAdd_eq_ok.mp hstop
    split_ifs at hrange with hcontains
    · exact ⟨hfits, hcontains⟩
  · rintro ⟨hfits, hcontains⟩
    exact ⟨_, checkedAdd_eq_ok.mpr ⟨hfits, rfl⟩, if_pos hcontains⟩

end Live

end BasicWebserver.RequestParts
