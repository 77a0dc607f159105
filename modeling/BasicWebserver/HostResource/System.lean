import BasicWebserver.Foundation.Bag
import BasicWebserver.Foundation.Machine
import BasicWebserver.HostResource.Heap

/-!
# A heap and its users

`machine` runs one heap with any number of threads. A label names the next critical section or the
next access of one of the values and calls in progress, by its position in the bag it is in: open
reservations, references to a box, lookups, and deallocations before their first critical section,
inside the drop of the resource, and before their second critical section.

References are counted correctly: a box starts with one, `incref` needs one and makes another, and
`decref` uses one up; a lookup keeps the reference it was made with. The thread that takes the count
to zero goes on to `route_dealloc`; Roc's debug runtime may store its poison in the count before.
That is what the safety section of `get` asks of its callers.

The logs `handedOut`, `inserted`, `dropped`, `results` and `routes` only record what happened, and
`panicked` that an assertion failed.
-/

namespace BasicWebserver.HostResource

open Transition Bag

/-- What a lookup has read so far. -/
inductive GetPc
  | readToken (index : ℕ)
  | lockState (index : ℕ) (decoded : ℕ × ℕ)
  deriving DecidableEq

structure System (τ : Type*) where
  heap : Heap τ
  reservations : List Reservation
  references : List Reservation
  gets : List (Reservation × GetPc)
  finalized : List Reservation
  closing : List (Reservation × Option τ)
  closed : List Reservation
  handedOut : List Reservation
  inserted : List (Reservation × τ)
  dropped : List (Reservation × τ)
  results : List (Reservation × Except LookupError (Option τ))
  routes : List DeallocRoute
  panicked : Bool

inductive Action (τ : Type*)
  | reserve
  | insert (j : ℕ) (resource : τ)
  | dropReservation (j : ℕ)
  | incref (j : ℕ)
  | decref (j : ℕ) (poison : Bool)
  | beginDealloc (j : ℕ)
  | dropResource (j : ℕ)
  | finishDealloc (j : ℕ)
  | get (j : ℕ)
  | getNext (j : ℕ)

variable {τ : Type*}

def Heap.setRefcount (h : Heap τ) (index : ℕ) (count : ℤ) : Heap τ :=
  { h with cells := Function.update h.cells index { h.cells index with refcount := count } }

theorem Heap.setRefcount_self (h : Heap τ) (index : ℕ) (count : ℤ) :
    (h.setRefcount index count).cells index = { h.cells index with refcount := count } :=
  Function.update_self ..

theorem Heap.setRefcount_other (h : Heap τ) {index k : ℕ} (count : ℤ) (hk : k ≠ index) :
    (h.setRefcount index count).cells k = h.cells k :=
  Function.update_of_ne hk ..

/-- `incref_box`; a count of zero marks static data. -/
def incref (h : Heap τ) (index : ℕ) : Heap τ :=
  let count := (h.cells index).refcount
  if count = 0 then h else h.setRefcount index (count + 1)

/-- `decref_box`; the second component says that the box is to be freed. -/
def decref (h : Heap τ) (index : ℕ) (poison : Bool) : Heap τ × Bool :=
  let count := (h.cells index).refcount
  if count = 0 then (h, false)
  else if count = 1 then
    (h.setRefcount index (if poison then rocDebugRefcountPoison else 0), true)
  else (h.setRefcount index (count - 1), false)

theorem incref_live {h : Heap τ} {index n : ℕ} (hc : (h.cells index).refcount = n + 1) :
    incref h index = h.setRefcount index ((n + 1 : ℕ) + 1) := by
  have hne : (n : ℤ) + 1 ≠ 0 := by omega
  unfold incref
  dsimp only
  rw [hc, if_neg hne]
  rfl

theorem decref_last {h : Heap τ} {index : ℕ} (poison : Bool)
    (hc : (h.cells index).refcount = 1) :
    decref h index poison =
      (h.setRefcount index (if poison then rocDebugRefcountPoison else 0), true) := by
  unfold decref
  dsimp only
  rw [hc, if_neg (by decide), if_pos rfl]

theorem decref_live {h : Heap τ} {index n : ℕ} (poison : Bool)
    (hc : (h.cells index).refcount = (n + 1 : ℕ) + 1) :
    decref h index poison = (h.setRefcount index (n + 1), false) := by
  have hzero : ((n + 1 : ℕ) : ℤ) + 1 ≠ 0 := by omega
  have hone : ((n + 1 : ℕ) : ℤ) + 1 ≠ 1 := by omega
  unfold decref
  dsimp only
  rw [hc, if_neg hzero, if_neg hone, show ((n + 1 : ℕ) : ℤ) + 1 - 1 = n + 1 by omega]

namespace System

/-- The lookup made with `r` ends with `result`, and its reference is free again. -/
def finishGet (s : System τ) (r : Reservation) (result : Except LookupError (Option τ)) : System τ :=
  { s with references := r :: s.references, results := s.results ++ [(r, result)] }

/-- `reserve`. -/
def stepReserve (s : System τ) : System τ :=
  match reserve s.heap with
  | (heap, .ok r) =>
    { s with heap, reservations := r :: s.reservations, handedOut := s.handedOut ++ [r] }
  | (heap, .error _) => { s with heap }

/-- `ResourceReservation::insert`. -/
def stepInsert (s : System τ) (r : Reservation) (resource : τ) : System τ :=
  match commit s.heap r.index r.generation resource with
  | some heap =>
    { s with
      heap, references := r :: s.references, inserted := s.inserted ++ [(r, resource)] }
  | none => { s with panicked := true }

def stepDecref (s : System τ) (r : Reservation) (poison : Bool) : System τ :=
  match decref s.heap r.index poison with
  | (heap, true) => { s with heap, finalized := r :: s.finalized }
  | (heap, false) => { s with heap }

def stepBeginDealloc (L : Layout) (capacity : ℕ) (s : System τ) (r : Reservation) : System τ :=
  match beginDealloc L capacity s.heap (L.basePtr r.index) with
  | (heap, .inl route) => { s with heap, routes := s.routes ++ [route] }
  | (heap, .inr call) => { s with heap, closing := call :: s.closing }

/-- The drop of the resource that `route_dealloc` moved out. -/
def stepDropResource (s : System τ) (r : Reservation) (resource : Option τ) : System τ :=
  { s with
    closed := r :: s.closed
    dropped := s.dropped ++ (resource.map fun x => (r, x)).toList }

def stepFinishDealloc (s : System τ) (r : Reservation) : System τ :=
  match finishDealloc s.heap r.index r.generation with
  | some heap => { s with heap, routes := s.routes ++ [.deallocated] }
  | none => { s with panicked := true }

def stepGet (L : Layout) (capacity : ℕ) (s : System τ) (r : Reservation) : System τ :=
  match getIndex L capacity s.heap (L.handle r.index) with
  | .ok index => { s with gets := (r, .readToken index) :: s.gets }
  | .error e => s.finishGet r (.error e)

def stepGetNext (s : System τ) (r : Reservation) : GetPc → System τ
  | .readToken index =>
    match getToken s.heap index with
    | .ok decoded => { s with gets := (r, .lockState index decoded) :: s.gets }
    | .error e => s.finishGet r (.error e)
  | .lockState index decoded => s.finishGet r (getLocked s.heap index decoded)

end System

def step (L : Layout) (capacity : ℕ) (s : System τ) : Action τ → Option (System τ)
  | .reserve => some s.stepReserve
  | .insert j resource =>
    (takeAt s.reservations j).map fun (r, reservations) =>
      { s with reservations }.stepInsert r resource
  | .dropReservation j =>
    (takeAt s.reservations j).map fun (r, reservations) =>
      { s with reservations, heap := cancelReservation s.heap r.index r.generation }
  | .incref j =>
    (takeAt s.references j).map fun (r, _) =>
      { s with references := r :: s.references, heap := incref s.heap r.index }
  | .decref j poison =>
    (takeAt s.references j).map fun (r, references) => { s with references }.stepDecref r poison
  | .beginDealloc j =>
    (takeAt s.finalized j).map fun (r, finalized) =>
      { s with finalized }.stepBeginDealloc L capacity r
  | .dropResource j =>
    (takeAt s.closing j).map fun (call, closing) =>
      { s with closing }.stepDropResource call.1 call.2
  | .finishDealloc j =>
    (takeAt s.closed j).map fun (r, closed) => { s with closed }.stepFinishDealloc r
  | .get j =>
    (takeAt s.references j).map fun (r, references) => { s with references }.stepGet L capacity r
  | .getNext j =>
    (takeAt s.gets j).map fun (call, gets) => { s with gets }.stepGetNext call.1 call.2

def System.init (capacity : ℕ) : System τ where
  heap := Heap.new capacity
  reservations := []
  references := []
  gets := []
  finalized := []
  closing := []
  closed := []
  handedOut := []
  inserted := []
  dropped := []
  results := []
  routes := []
  panicked := false

variable (τ) in
def machine (L : Layout) (capacity : ℕ) : Machine (System τ) (Action τ) :=
  ⟨System.init capacity, step L capacity⟩

end BasicWebserver.HostResource
