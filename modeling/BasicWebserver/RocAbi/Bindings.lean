import Mathlib.Data.Finset.Card
import Mathlib.Data.Int.Notation
import BasicWebserver.Foundation.Machine

/-!
# Concurrent release of bindings

`release_bindings` of `src/sqlite.rs`, called once by each of the threads that hold a reference to one
list of bindings. A call reads the count, releases the elements if the count was one, and drops its
reference; each of these is a step of its own.

The count is the number of threads that have not dropped their reference (`Inv.count`), so a check
reads one only in a thread that is the last. That happens exactly if its check comes after the
decrements of all others (`ChecksLast`), and is then the only time that elements are released
(`Inv.last`, `Inv.none`). If no check is that late, nobody releases them.
-/

namespace BasicWebserver.RocAbi.Bindings

open Transition

/-! ## The calls -/

/-- What a call does next: read the count, release the elements from the given index on, read the
count again and drop the reference in `decref`, free the allocation. -/
inductive Pc
  | check
  | release (next : ℕ)
  | load
  | sub
  | free
  | done
  deriving DecidableEq

inductive Action
  | check
  | release
  | load
  | sub
  | free
  deriving DecidableEq

/-- A thread takes its next step. -/
structure Label where
  thread : ℕ
  action : Action
  deriving DecidableEq

structure State where
  /-- The count of the allocation. -/
  count : ℤ
  pc : ℕ → Pc
  /-- The elements released so far, by index. -/
  released : List ℕ
  /-- How often the allocation was freed. -/
  freed : ℕ

/-- The loop over `allocation_items`. -/
def loop (length next : ℕ) : Pc := if next < length then .release next else .load

def step (length : ℕ) (s : State) (a : Label) : Option State :=
  match s.pc a.thread, a.action with
  | .check, .check =>
    -- `has_one_ref`
    let next := if s.count = 1 then loop length 0 else .load
    some { s with pc := Function.update s.pc a.thread next }
  | .release k, .release =>
    some { s with
      pc := Function.update s.pc a.thread (loop length (k + 1)), released := s.released ++ [k] }
  | .load, .load =>
    -- a count of zero is static data
    some { s with pc := Function.update s.pc a.thread (if s.count = 0 then .done else .sub) }
  | .sub, .sub =>
    some { s with
      pc := Function.update s.pc a.thread (if s.count = 1 then .free else .done), count := s.count - 1 }
  | .free, .free => some { s with pc := Function.update s.pc a.thread .done, freed := s.freed + 1 }
  | _, _ => none

/-- `n` threads with a reference each, to an allocation with `length` elements. -/
def machine (n length : ℕ) : Machine State Label where
  init := ⟨n, fun i => if i < n then .check else .done, [], 0⟩
  step := step length

/-- The thread has its reference. -/
def Pc.Holds (pc : Pc) : Prop := pc ≠ .free ∧ pc ≠ .done

instance : DecidablePred Pc.Holds := fun _ => inferInstanceAs (Decidable (_ ∧ _))

/-- The check of the thread comes after the decrements of all others. -/
def ChecksLast (n : ℕ) (w : List Label) (i : ℕ) : Prop :=
  ∃ before after, w = before ++ ⟨i, .check⟩ :: after ∧
    ∀ j < n, j ≠ i → ⟨j, .sub⟩ ∈ before

variable {n length : ℕ} {w : List Label} {s s' : State} {a : Label} {i : ℕ}

/-! ## Runs -/

theorem step_cases (h : step length s a = some s') :
    (s.pc a.thread = .check ∧ a.action = .check ∧ s' = { s with
      pc := Function.update s.pc a.thread (if s.count = 1 then loop length 0 else .load) }) ∨
    (∃ k, s.pc a.thread = .release k ∧ a.action = .release ∧ s' = { s with
      pc := Function.update s.pc a.thread (loop length (k + 1)), released := s.released ++ [k] }) ∨
    (s.pc a.thread = .load ∧ a.action = .load ∧ s' = { s with
      pc := Function.update s.pc a.thread (if s.count = 0 then .done else .sub) }) ∨
    (s.pc a.thread = .sub ∧ a.action = .sub ∧ s' = { s with
      pc := Function.update s.pc a.thread (if s.count = 1 then .free else .done),
      count := s.count - 1 }) ∨
    (s.pc a.thread = .free ∧ a.action = .free ∧ s' = { s with
      pc := Function.update s.pc a.thread .done, freed := s.freed + 1 }) := by
  unfold step at h
  split at h
  · exact .inl ⟨‹_›, ‹_›, (Option.some.inj h).symm⟩
  · exact .inr (.inl ⟨_, ‹_›, ‹_›, (Option.some.inj h).symm⟩)
  · exact .inr (.inr (.inl ⟨‹_›, ‹_›, (Option.some.inj h).symm⟩))
  · exact .inr (.inr (.inr (.inl ⟨‹_›, ‹_›, (Option.some.inj h).symm⟩)))
  · exact .inr (.inr (.inr (.inr ⟨‹_›, ‹_›, (Option.some.inj h).symm⟩)))
  · cases h

theorem checksLast_snoc : ChecksLast n (w ++ [a]) i ↔ ChecksLast n w i ∨
    (a = ⟨i, .check⟩ ∧ ∀ j < n, j ≠ i → ⟨j, .sub⟩ ∈ w) := by
  constructor
  · rintro ⟨before, after, hw, hsub⟩
    rcases List.eq_nil_or_concat after with rfl | ⟨after, b, rfl⟩
    · obtain ⟨rfl, ha⟩ := List.append_inj' hw rfl
      exact .inr ⟨List.singleton_inj.mp ha, hsub⟩
    · rw [List.concat_eq_append, ← List.cons_append, ← List.append_assoc] at hw
      exact .inl ⟨before, after, (List.append_inj' hw rfl).1, hsub⟩
  · rintro (⟨before, after, rfl, hsub⟩ | ⟨rfl, hsub⟩)
    · exact ⟨before, after ++ [a], by rw [List.append_assoc, List.cons_append], hsub⟩
    · exact ⟨w, [], rfl, hsub⟩

/-- The threads that have not dropped their reference. -/
def holders (n : ℕ) (s : State) : Finset ℕ := (Finset.range n).filter fun i => (s.pc i).Holds

theorem mem_holders : i ∈ holders n s ↔ i < n ∧ (s.pc i).Holds := by
  rw [holders, Finset.mem_filter, Finset.mem_range]

/-- The elements released so far by the thread that found itself to be the last. -/
def Progress (length : ℕ) (pc : Pc) (released : List ℕ) : Prop :=
  (∃ k < length, pc = .release k ∧ released = List.range k) ∨
    (pc ≠ .check ∧ (∀ k, pc ≠ .release k) ∧ released = List.range length)

theorem progress_loop {k : ℕ} (hk : k ≤ length) : Progress length (loop length k) (List.range k) := by
  unfold loop
  split_ifs with h
  · exact .inl ⟨k, h, rfl, rfl⟩
  · exact .inr ⟨nofun, fun _ => nofun, by rw [Nat.le_antisymm hk (Nat.le_of_not_lt h)]⟩

/-- What is known after the steps `w`. -/
structure Inv (n length : ℕ) (w : List Label) (s : State) : Prop where
  count : s.count = (holders n s).card
  outside : ∀ i, n ≤ i → s.pc i = .done
  subs : ∀ i < n, ⟨i, .sub⟩ ∈ w ↔ ¬ (s.pc i).Holds
  /-- The allocation is freed by the thread that dropped the last reference. -/
  freed : (s.freed = 0 ∧ (∀ i < n, s.pc i ≠ .free) ∧ 0 < s.count) ∨
    (s.freed = 0 ∧ s.count = 0 ∧ ∃ i < n, s.pc i = .free ∧ ∀ j < n, j ≠ i → s.pc j = .done) ∨
    (s.freed = 1 ∧ ∀ i < n, s.pc i = .done)
  none : (∀ i < n, ¬ ChecksLast n w i) → s.released = [] ∧ ∀ i < n, ∀ k, s.pc i ≠ .release k
  last : ∀ i < n, ChecksLast n w i → Progress length (s.pc i) s.released

namespace Inv

variable (h : Inv n length w s)

include h

theorem lt_of_ne_done (hi : s.pc i ≠ .done) : i < n := by
  by_contra hn
  exact hi (h.outside i (Nat.le_of_not_lt hn))

theorem eq_of_checksLast {j : ℕ} (hj : j < n) (hholds : (s.pc j).Holds) (hi : ChecksLast n w i) :
    i = j := by
  obtain ⟨before, after, rfl, hsub⟩ := hi
  by_contra hne
  exact (h.subs j hj).mp (List.mem_append_left _ (hsub j hj (Ne.symm hne))) hholds

theorem not_checksLast_of_check {j : ℕ} (hj : s.pc j = .check) : ∀ i < n, ¬ ChecksLast n w i := by
  intro i hi hlast
  have hjn : j < n := h.lt_of_ne_done (by rw [hj]; nofun)
  obtain rfl := h.eq_of_checksLast hjn (by rw [hj]; exact ⟨nofun, nofun⟩) hlast
  rcases h.last i hi hlast with ⟨k, -, hpc, -⟩ | ⟨hpc, -⟩
  · rw [hj] at hpc
    cases hpc
  · exact hpc hj

/-- The count is one exactly in front of the last thread. -/
theorem count_eq_one_iff (hi : i < n) (hholds : (s.pc i).Holds) :
    s.count = 1 ↔ ∀ j < n, j ≠ i → ⟨j, .sub⟩ ∈ w := by
  have hmem : i ∈ holders n s := mem_holders.mpr ⟨hi, hholds⟩
  rw [h.count, show (1 : ℤ) = ((1 : ℕ) : ℤ) from rfl, Int.natCast_inj]
  constructor
  · intro hone j hj hne
    obtain ⟨x, hx⟩ := Finset.card_eq_one.mp hone
    rw [hx, Finset.mem_singleton] at hmem
    refine (h.subs j hj).mpr fun hjholds => hne ?_
    have hj' : j ∈ holders n s := mem_holders.mpr ⟨hj, hjholds⟩
    rw [hx, Finset.mem_singleton] at hj'
    rw [hj', hmem]
  · intro hall
    refine Finset.card_eq_one.mpr ⟨i, Finset.eq_singleton_iff_unique_mem.mpr ⟨hmem, fun j hj => ?_⟩⟩
    obtain ⟨hjn, hjholds⟩ := mem_holders.mp hj
    by_contra hne
    exact (h.subs j hjn).mp (hall j hjn hne) hjholds

theorem count_pos (hi : i < n) (hholds : (s.pc i).Holds) : 0 < s.count := by
  rw [h.count]
  exact Int.natCast_pos.mpr (Finset.card_pos.mpr ⟨i, mem_holders.mpr ⟨hi, hholds⟩⟩)

theorem freed_of_count_pos (hpos : 0 < s.count) : s.freed = 0 ∧ ∀ i < n, s.pc i ≠ .free := by
  rcases h.freed with ⟨hfreed, hfree, -⟩ | ⟨-, hzero, -⟩ | ⟨-, hdone⟩
  · exact ⟨hfreed, hfree⟩
  · omega
  · have hempty : holders n s = ∅ := Finset.eq_empty_of_forall_notMem fun i hi => by
      obtain ⟨hin, hholds⟩ := mem_holders.mp hi
      exact hholds.2 (hdone i hin)
    rw [h.count, hempty] at hpos
    exact absurd hpos (by decide)

end Inv

theorem inv_init (hn : 0 < n) : Inv n length [] (machine n length).init where
  count := by
    have hall : holders n (machine n length).init = Finset.range n := by
      refine Finset.filter_true_of_mem fun i hi => ?_
      have hpc : (machine n length).init.pc i = .check := if_pos (Finset.mem_range.mp hi)
      rw [hpc]
      exact ⟨nofun, nofun⟩
    rw [hall, Finset.card_range]
    rfl
  outside i hi := if_neg (Nat.not_lt.mpr hi)
  subs i hi := by
    have hpc : (machine n length).init.pc i = .check := if_pos hi
    rw [hpc]
    exact iff_of_false List.not_mem_nil fun hnot => hnot ⟨nofun, nofun⟩
  freed := by
    refine .inl ⟨rfl, fun i hi => ?_, Int.natCast_pos.mpr hn⟩
    have hpc : (machine n length).init.pc i = .check := if_pos hi
    rw [hpc]
    nofun
  none _ := by
    refine ⟨rfl, fun i hi k => ?_⟩
    have hpc : (machine n length).init.pc i = .check := if_pos hi
    rw [hpc]
    nofun
  last i _ hlast := by
    obtain ⟨before, after, hw, -⟩ := hlast
    exact absurd hw.symm (List.append_ne_nil_of_right_ne_nil _ (List.cons_ne_nil _ _))

theorem Inv.keep {t : ℕ} {action : Action} {pc : Pc} {released : List ℕ} (h : Inv n length w s)
    (hholds : (s.pc t).Holds) (hpc : pc.Holds) (haction : action ≠ .sub)
    (hnone : (∀ i < n, ¬ ChecksLast n (w ++ [⟨t, action⟩]) i) → released = [] ∧ ∀ k, pc ≠ .release k)
    (hlast : ∀ i < n, ChecksLast n (w ++ [⟨t, action⟩]) i → i = t ∧ Progress length pc released) :
    Inv n length (w ++ [⟨t, action⟩])
      { s with pc := Function.update s.pc t pc, released := released } := by
  have ht : t < n := h.lt_of_ne_done hholds.2
  have hiff : ∀ i, (Function.update s.pc t pc i).Holds ↔ (s.pc i).Holds := by
    intro i
    by_cases hit : i = t
    · rw [hit, Function.update_self]
      exact iff_of_true hpc hholds
    · rw [Function.update_of_ne hit]
  have hpos := h.count_pos ht hholds
  obtain ⟨hfreed, hfree⟩ := h.freed_of_count_pos hpos
  refine ⟨?_, ?_, ?_, .inl ⟨hfreed, ?_, hpos⟩, ?_, ?_⟩
  · refine h.count.trans (congrArg (fun l : Finset ℕ => (l.card : ℤ)) ?_)
    exact Finset.filter_congr fun i _ => (hiff i).symm
  · intro i hi
    dsimp only
    rw [Function.update_of_ne (by omega)]
    exact h.outside i hi
  · intro i hi
    dsimp only
    rw [hiff, ← h.subs i hi, List.mem_append, List.mem_singleton, or_iff_left]
    intro he
    exact haction (congrArg Label.action he).symm
  · intro i hi
    dsimp only
    by_cases hit : i = t
    · rw [hit, Function.update_self]
      exact hpc.1
    · rw [Function.update_of_ne hit]
      exact hfree i hi
  · intro hno
    obtain ⟨hreleased, hpcs⟩ := hnone hno
    refine ⟨hreleased, fun i hi k => ?_⟩
    dsimp only
    by_cases hit : i = t
    · rw [hit, Function.update_self]
      exact hpcs k
    · rw [Function.update_of_ne hit]
      refine (h.none fun j hj hlast => ?_).2 i hi k
      exact hno j hj (checksLast_snoc.mpr (.inl hlast))
  · intro i hi hi'
    obtain ⟨rfl, hprogress⟩ := hlast i hi hi'
    dsimp only
    rwa [Function.update_self]

theorem holds_loop (length k : ℕ) : (loop length k).Holds := by
  unfold loop
  split_ifs
  · exact ⟨nofun, nofun⟩
  · exact ⟨nofun, nofun⟩

theorem inv_check {t : ℕ} (h : Inv n length w s) (hpc : s.pc t = .check) :
    Inv n length (w ++ [⟨t, .check⟩]) { s with
      pc := Function.update s.pc t (if s.count = 1 then loop length 0 else .load) } := by
  have hholds : (s.pc t).Holds := by rw [hpc]; exact ⟨nofun, nofun⟩
  have ht : t < n := h.lt_of_ne_done hholds.2
  have hno := h.not_checksLast_of_check hpc
  have hreleased := (h.none hno).1
  have hsnoc : ∀ i < n, ChecksLast n (w ++ [⟨t, .check⟩]) i → i = t ∧ s.count = 1 := by
    intro i hi hlast
    rcases checksLast_snoc.mp hlast with hlast | ⟨he, hsubs⟩
    · exact absurd hlast (hno i hi)
    · obtain rfl : t = i := congrArg Label.thread he
      exact ⟨rfl, (h.count_eq_one_iff ht hholds).mpr hsubs⟩
  by_cases hone : s.count = 1
  · rw [if_pos hone]
    refine h.keep hholds (holds_loop length 0) nofun (fun hnone => ?_) fun i hi hlast => ?_
    · have hsubs := (h.count_eq_one_iff ht hholds).mp hone
      exact absurd (checksLast_snoc.mpr (.inr ⟨rfl, hsubs⟩)) (hnone t ht)
    · rw [hreleased]
      exact ⟨(hsnoc i hi hlast).1, progress_loop (Nat.zero_le length)⟩
  · rw [if_neg hone]
    refine h.keep hholds ⟨nofun, nofun⟩ nofun (fun _ => ⟨hreleased, fun _ => nofun⟩) fun i hi hlast => ?_
    exact absurd (hsnoc i hi hlast).2 hone

theorem inv_release {t k : ℕ} (h : Inv n length w s) (hpc : s.pc t = .release k) :
    Inv n length (w ++ [⟨t, .release⟩]) { s with
      pc := Function.update s.pc t (loop length (k + 1)), released := s.released ++ [k] } := by
  have hholds : (s.pc t).Holds := by rw [hpc]; exact ⟨nofun, nofun⟩
  have ht : t < n := h.lt_of_ne_done hholds.2
  have hex : ∃ i < n, ChecksLast n w i := by
    by_contra hno
    simp only [not_exists, not_and] at hno
    exact (h.none hno).2 t ht k hpc
  obtain ⟨i, hi, hlast⟩ := hex
  obtain rfl := h.eq_of_checksLast ht hholds hlast
  rcases h.last i hi hlast with ⟨k', hk', hpc', hreleased⟩ | ⟨-, hrelease, -⟩
  · obtain rfl : k' = k := Pc.release.inj (hpc'.symm.trans hpc)
    refine h.keep hholds (holds_loop length _) nofun (fun hnone => ?_) fun j hj hlast' => ?_
    · exact absurd (checksLast_snoc.mpr (.inl hlast)) (hnone i hi)
    · rw [hreleased, ← List.range_succ]
      rcases checksLast_snoc.mp hlast' with hlast' | ⟨he, -⟩
      · exact ⟨h.eq_of_checksLast ht hholds hlast', progress_loop hk'⟩
      · cases he
  · exact absurd hpc (hrelease k)

theorem inv_load {t : ℕ} (h : Inv n length w s) (hpc : s.pc t = .load) :
    Inv n length (w ++ [⟨t, .load⟩]) { s with
      pc := Function.update s.pc t (if s.count = 0 then .done else .sub) } := by
  have hholds : (s.pc t).Holds := by rw [hpc]; exact ⟨nofun, nofun⟩
  have ht : t < n := h.lt_of_ne_done hholds.2
  have hpos := h.count_pos ht hholds
  rw [if_neg (by omega)]
  refine h.keep hholds ⟨nofun, nofun⟩ nofun (fun hnone => ⟨?_, fun _ => nofun⟩) fun i hi hlast => ?_
  · exact (h.none fun i hi hlast => hnone i hi (checksLast_snoc.mpr (.inl hlast))).1
  · rcases checksLast_snoc.mp hlast with hbefore | ⟨he, -⟩
    · obtain rfl := h.eq_of_checksLast ht hholds hbefore
      rcases h.last i hi hbefore with ⟨k, -, hpc', -⟩ | ⟨-, -, hreleased⟩
      · rw [hpc] at hpc'
        cases hpc'
      · exact ⟨rfl, .inr ⟨nofun, fun _ => nofun, hreleased⟩⟩
    · cases he

theorem Inv.released (h : Inv n length w s) (t : ℕ) (action : Action) (pc : Pc)
    (haction : action ≠ .check) (hold : ∀ k, s.pc t ≠ .release k) (hnew : pc ≠ .check)
    (hnew' : ∀ k, pc ≠ .release k) :
    ((∀ i < n, ¬ ChecksLast n (w ++ [⟨t, action⟩]) i) →
      s.released = [] ∧ ∀ i < n, ∀ k, Function.update s.pc t pc i ≠ .release k) ∧
    ∀ i < n, ChecksLast n (w ++ [⟨t, action⟩]) i →
      Progress length (Function.update s.pc t pc i) s.released := by
  have hsnoc : ∀ i, ChecksLast n (w ++ [⟨t, action⟩]) i ↔ ChecksLast n w i := by
    intro i
    rw [checksLast_snoc, or_iff_left]
    exact fun he => haction (congrArg Label.action he.1)
  simp only [hsnoc]
  constructor
  · intro hno
    refine ⟨(h.none hno).1, fun i hi k => ?_⟩
    by_cases hit : i = t
    · rw [hit, Function.update_self]
      exact hnew' k
    · rw [Function.update_of_ne hit]
      exact (h.none hno).2 i hi k
  · intro i hi hlast
    by_cases hit : i = t
    · subst hit
      rw [Function.update_self]
      rcases h.last i hi hlast with ⟨k, -, hpc, -⟩ | ⟨-, -, hreleased⟩
      · exact absurd hpc (hold k)
      · exact .inr ⟨hnew, hnew', hreleased⟩
    · rw [Function.update_of_ne hit]
      exact h.last i hi hlast

theorem inv_sub {t : ℕ} (h : Inv n length w s) (hpc : s.pc t = .sub) :
    Inv n length (w ++ [⟨t, .sub⟩]) { s with
      pc := Function.update s.pc t (if s.count = 1 then .free else .done), count := s.count - 1 } := by
  have hholds : (s.pc t).Holds := by rw [hpc]; exact ⟨nofun, nofun⟩
  have ht : t < n := h.lt_of_ne_done hholds.2
  have hpos := h.count_pos ht hholds
  obtain ⟨hfreed, hfree⟩ := h.freed_of_count_pos hpos
  have hnew : ¬ (if s.count = 1 then Pc.free else Pc.done).Holds := by
    split_ifs
    · exact fun hnot => hnot.1 rfl
    · exact fun hnot => hnot.2 rfl
  have herase : ∀ pc : Pc, ¬ pc.Holds → ∀ s' : State, s'.pc = Function.update s.pc t pc →
      holders n s' = (holders n s).erase t := by
    intro pc hpc' s' hs'
    ext i
    rw [Finset.mem_erase, mem_holders, mem_holders, hs']
    by_cases hit : i = t
    · rw [hit, Function.update_self]
      exact iff_of_false (fun hnot => hpc' hnot.2) fun hnot => hnot.1 rfl
    · rw [Function.update_of_ne hit, and_iff_right hit]
  have hreleased := h.released t .sub (if s.count = 1 then .free else .done)
    nofun (by rw [hpc]; nofun) (by split_ifs <;> nofun) (by split_ifs <;> nofun)
  refine ⟨?_, ?_, ?_, ?_, hreleased.1, hreleased.2⟩
  · rw [herase _ hnew _ rfl, Finset.card_erase_of_mem (mem_holders.mpr ⟨ht, hholds⟩)]
    have hcount := h.count
    dsimp only
    omega
  · intro i hi
    dsimp only
    rw [Function.update_of_ne (by omega)]
    exact h.outside i hi
  · intro i hi
    dsimp only
    rw [List.mem_append, List.mem_singleton]
    by_cases hit : i = t
    · subst hit
      rw [Function.update_self]
      exact iff_of_true (.inr rfl) hnew
    · rw [Function.update_of_ne hit, ← h.subs i hi, or_iff_left]
      exact fun he => hit (congrArg Label.thread he)
  · dsimp only
    by_cases hone : s.count = 1
    · -- the others have dropped theirs, so they are done
      refine .inr (.inl ⟨hfreed, by omega, t, ht, ?_, fun j hj hne => ?_⟩)
      · rw [Function.update_self, if_pos hone]
      · rw [Function.update_of_ne hne]
        have hnot := (h.subs j hj).mp ((h.count_eq_one_iff ht hholds).mp hone j hj hne)
        by_contra hdone
        exact hnot ⟨hfree j hj, hdone⟩
    · refine .inl ⟨hfreed, fun i hi => ?_, by omega⟩
      by_cases hit : i = t
      · rw [hit, Function.update_self, if_neg hone]
        nofun
      · rw [Function.update_of_ne hit]
        exact hfree i hi

theorem inv_free {t : ℕ} (h : Inv n length w s) (hpc : s.pc t = .free) :
    Inv n length (w ++ [⟨t, .free⟩]) { s with
      pc := Function.update s.pc t .done, freed := s.freed + 1 } := by
  have ht : t < n := h.lt_of_ne_done (by rw [hpc]; nofun)
  have hiff : ∀ i, (Function.update s.pc t .done i).Holds ↔ (s.pc i).Holds := by
    intro i
    by_cases hit : i = t
    · rw [hit, Function.update_self, hpc]
      exact iff_of_false (fun hnot => hnot.2 rfl) fun hnot => hnot.1 rfl
    · rw [Function.update_of_ne hit]
  have hreleased := h.released t .free .done nofun (by rw [hpc]; nofun) nofun nofun
  refine ⟨?_, ?_, ?_, ?_, hreleased.1, hreleased.2⟩
  · refine h.count.trans (congrArg (fun l : Finset ℕ => (l.card : ℤ)) ?_)
    exact Finset.filter_congr fun i _ => (hiff i).symm
  · intro i hi
    dsimp only
    rw [Function.update_of_ne (by omega)]
    exact h.outside i hi
  · intro i hi
    dsimp only
    rw [hiff, ← h.subs i hi, List.mem_append, List.mem_singleton, or_iff_left]
    exact fun he => absurd (congrArg Label.action he) nofun
  · rcases h.freed with ⟨-, hfree, -⟩ | ⟨hfreed, -, i, hi, hifree, hothers⟩ | ⟨-, hdone⟩
    · exact absurd hpc (hfree t ht)
    · obtain rfl : t = i := by
        by_contra hne
        rw [hothers t ht hne] at hpc
        cases hpc
      refine .inr (.inr ⟨by dsimp only; rw [hfreed], fun j hj => ?_⟩)
      dsimp only
      by_cases hjt : j = t
      · rw [hjt, Function.update_self]
      · rw [Function.update_of_ne hjt]
        exact hothers j hj hjt
    · rw [hdone t ht] at hpc
      cases hpc

theorem inv_step (h : Inv n length w s) (hstep : step length s a = some s') :
    Inv n length (w ++ [a]) s' := by
  obtain ⟨t, action⟩ := a
  rcases step_cases hstep with ⟨hpc, rfl, rfl⟩ | ⟨k, hpc, rfl, rfl⟩ | ⟨hpc, rfl, rfl⟩ |
    ⟨hpc, rfl, rfl⟩ | ⟨hpc, rfl, rfl⟩
  · exact inv_check h hpc
  · exact inv_release h hpc
  · exact inv_load h hpc
  · exact inv_sub h hpc
  · exact inv_free h hpc

theorem inv_run (hn : 0 < n) (h : (machine n length).exec (machine n length).init w = some s) :
    Inv n length w s :=
  (machine n length).run_induction (P := Inv n length) (inv_init hn)
    (fun _ _ _ _ _ hinv hstep => inv_step hinv hstep) h

/-! ## Complete runs -/

/-- **Concurrent release.** When all threads are done, the allocation was freed once; every element
was released once exactly if there are no elements or the check of some thread came after the
decrements of all others. -/
theorem release_bindings_iff (hn : 0 < n)
    (h : (machine n length).exec (machine n length).init w = some s)
    (hdone : ∀ i < n, s.pc i = .done) :
    s.freed = 1 ∧ ((∀ k < length, s.released.count k = 1) ↔
      length = 0 ∨ ∃ i < n, ChecksLast n w i) := by
  have hinv := inv_run hn h
  constructor
  · rcases hinv.freed with ⟨-, -, hpos⟩ | ⟨-, -, i, hi, hfree, -⟩ | ⟨hfreed, -⟩
    · have hempty : holders n s = ∅ := Finset.eq_empty_of_forall_notMem fun i hi => by
        obtain ⟨hin, hholds⟩ := mem_holders.mp hi
        exact hholds.2 (hdone i hin)
      rw [hinv.count, hempty] at hpos
      exact absurd hpos (by decide)
    · rw [hdone i hi] at hfree
      cases hfree
    · exact hfreed
  · constructor
    · intro hall
      by_contra hno
      simp only [not_or, not_exists, not_and] at hno
      have hcount := hall 0 (Nat.pos_of_ne_zero hno.1)
      rw [(hinv.none hno.2).1] at hcount
      cases hcount
    · rintro (rfl | ⟨i, hi, hlast⟩) k hk
      · exact absurd hk (Nat.not_lt_zero k)
      · rcases hinv.last i hi hlast with ⟨k', -, hpc, -⟩ | ⟨-, -, hreleased⟩
        · rw [hdone i hi] at hpc
          cases hpc
        · rw [hreleased]
          exact List.count_eq_one_of_mem List.nodup_range (List.mem_range.mpr hk)

/-- Two threads, one after the other. -/
def oneByOne : List Label :=
  [⟨0, .check⟩, ⟨0, .load⟩, ⟨0, .sub⟩, ⟨1, .check⟩, ⟨1, .release⟩, ⟨1, .load⟩, ⟨1, .sub⟩, ⟨1, .free⟩]

/-- The second of two threads that take turns releases the element. -/
theorem release_bindings_sequential :
    ∃ s, (machine 2 1).exec (machine 2 1).init oneByOne = some s ∧
      s.freed = 1 ∧ ∀ k < 1, s.released.count k = 1 := by
  have hrun : ((machine 2 1).exec (machine 2 1).init oneByOne).map (fun s => (s.pc 0, s.pc 1)) =
      some (.done, .done) := by decide
  obtain ⟨s, hexec, hpcs⟩ := Option.map_eq_some_iff.mp hrun
  have hdone : ∀ i < 2, s.pc i = .done := by
    intro i hi
    obtain rfl | rfl : i = 0 ∨ i = 1 := by omega
    · exact (Prod.mk.inj hpcs).1
    · exact (Prod.mk.inj hpcs).2
  obtain ⟨hfreed, hiff⟩ := release_bindings_iff (by decide) hexec hdone
  refine ⟨s, hexec, hfreed, hiff.mpr (.inr ⟨1, by decide, oneByOne.take 3, oneByOne.drop 4, rfl, ?_⟩)⟩
  decide

/-- Two threads that both read the count first: nobody releases the element. -/
theorem release_bindings_together :
    ((machine 2 1).exec (machine 2 1).init [⟨0, .check⟩, ⟨1, .check⟩, ⟨0, .load⟩, ⟨0, .sub⟩, ⟨1, .load⟩,
      ⟨1, .sub⟩, ⟨1, .free⟩]).map (fun s => (s.released, s.freed, s.pc 0, s.pc 1)) =
        some ([], 1, .done, .done) := by
  decide

end BasicWebserver.RocAbi.Bindings
