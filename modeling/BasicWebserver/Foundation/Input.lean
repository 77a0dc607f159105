import Mathlib.Data.List.Basic

/-!
# Input in pieces

A source of elements that arrive in chunks. A call may also return nothing although there is more to
come (it was interrupted, or is pending), or fail. The events that a source has ahead of it decide all
of that; its `contents` do not depend on how they are divided.
-/

namespace Input

variable {ε α : Type*}

inductive Event (ε α : Type*)
  | chunk (first : α) (rest : List α)
  | pause
  | failed (error : ε)
  deriving DecidableEq

abbrev Source (ε α : Type*) := List (Event ε α)

def Event.contents : Event ε α → List α
  | .chunk first rest => first :: rest
  | .pause => []
  | .failed _ => []

def contents (source : Source ε α) : List α := source.flatMap Event.contents

/-- No call will fail. -/
def Clean (source : Source ε α) : Prop := ∀ error, Event.failed error ∉ source

/-- A source that has the given elements ahead of it. -/
def put (elements : List α) (source : Source ε α) : Source ε α :=
  match elements with
  | [] => source
  | first :: rest => .chunk first rest :: source

variable {source : Source ε α}

@[simp] theorem contents_nil : contents ([] : Source ε α) = [] := rfl

@[simp] theorem contents_chunk (first : α) (rest : List α) :
    contents (.chunk first rest :: source) = first :: rest ++ contents source := rfl

@[simp] theorem contents_put (elements : List α) :
    contents (put elements source) = elements ++ contents source := by
  cases elements with
  | nil => rfl
  | cons first rest => rfl

theorem clean_nil : Clean ([] : Source ε α) := fun _ => List.not_mem_nil

theorem Clean.tail {event : Event ε α} (h : Clean (event :: source)) : Clean source :=
  fun error hmem => h error (List.mem_cons_of_mem _ hmem)

theorem Clean.put {elements : List α} (h : Clean source) : Clean (put elements source) := by
  cases elements with
  | nil => exact h
  | cons first rest =>
    intro error hmem
    rcases List.mem_cons.mp hmem with he | hmem
    · cases he
    · exact h error hmem

end Input
