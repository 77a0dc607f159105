import Mathlib.Algebra.Group.Nat.Defs
import Mathlib.Data.List.Perm.Basic
import Mathlib.Data.List.Range
import Mathlib.Data.List.Nodup
import BasicWebserver.RocExecutor.State

/-!
# Accounting of the fixed-worker executor

`Accounting` is the inductive invariant: the counter is the queue plus the live guards, the jobs
picked up so far followed by the queue are the submissions in order with the handed-back ones
removed, and a ticket is its submission's number modulo `2 ^ 64`. `fixedExecutor_accounting` reads
the contract of the executor off it for every interleaving.
-/

namespace BasicWebserver.RocExecutor

open Transition

theorem map_eraseP_of_find? {α β : Type} [DecidableEq β] {p : α → Bool} {f : α → β} {l : List α}
    {a : α} (hl : (l.map f).Nodup) (h : l.find? p = some a) :
    (l.eraseP p).map f = (l.map f).filter (· ≠ f a) := by
  induction l with
  | nil => cases h
  | cons x l ih =>
    rw [List.map_cons, List.nodup_cons] at hl
    by_cases hx : p x = true
    · obtain rfl : x = a := by simpa [List.find?_cons, hx] using h
      rw [List.eraseP_cons_of_pos hx, List.map_cons, List.filter_cons_of_neg (by simp)]
      refine (List.filter_eq_self.mpr fun b hb => ?_).symm
      have hne : b ≠ f x := fun e => hl.1 (e ▸ hb)
      simpa using hne
    · have hfind : l.find? p = some a := by simpa [List.find?_cons, hx] using h
      have hne : f x ≠ f a := fun e =>
        hl.1 (e ▸ List.mem_map_of_mem (List.mem_of_find?_eq_some hfind))
      rw [List.eraseP_cons_of_neg hx, List.map_cons, List.map_cons,
        List.filter_cons_of_pos (by simpa using hne), ih hl.2 hfind]

section Invariant

variable {τ : Type} {inner : Inner}

/-- The jobs that were neither retired nor handed back. -/
def System.unretired (s : System τ) : List ℕ :=
  (List.range s.accepted.length).filter fun i => i ∉ s.retired ∧ i ∉ s.handedBack

/-- The inductive invariant of the executor. -/
structure Accounting (inner : Inner) (s : System τ) : Prop where
  outstanding_eq : s.state.outstanding = s.state.queue.length + s.guards.length
  outstanding_le : s.state.outstanding ≤ inner.capacity
  order : s.picked ++ s.queued = (List.range s.accepted.length).filter (· ∉ s.handedBack)
  handedBack_nodup : s.handedBack.Nodup
  handedBack_lt : ∀ i ∈ s.handedBack, i < s.accepted.length
  picked_perm : s.picked.Perm (s.guards ++ s.retired)
  nextTicket_eq : s.state.nextTicket = UInt64.ofNat s.accepted.length
  ticket_eq : ∀ (i : ℕ) (submission : Submission), s.accepted[i]? = some submission →
    submission.ticket = ⟨UInt64.ofNat i⟩
  entry_eq : ∀ entry ∈ s.state.queue,
    s.accepted[entry.job.serial]? = some ⟨entry.class_, entry.ticket⟩
  returned : (∃ k, s.worker k = .returned) → s.state.stopping = true ∧ s.state.queue = []

theorem accounting_init : Accounting inner (System.init τ) where
  outstanding_eq := rfl
  outstanding_le := Nat.zero_le _
  order := rfl
  handedBack_nodup := List.nodup_nil
  handedBack_lt := by intro i hi; cases hi
  picked_perm := List.Perm.refl _
  nextTicket_eq := rfl
  ticket_eq := by intro i submission h; cases h
  entry_eq := by intro entry h; cases h
  returned := by rintro ⟨k, hk⟩; cases hk

namespace Accounting

variable {s : System τ}

theorem nodup_order (h : Accounting inner s) : (s.picked ++ s.queued).Nodup := by
  rw [h.order]
  exact List.nodup_range.filter _

theorem nodup_queued (h : Accounting inner s) : s.queued.Nodup :=
  (List.nodup_append.mp h.nodup_order).2.1

theorem nodup_picked (h : Accounting inner s) : s.picked.Nodup :=
  (List.nodup_append.mp h.nodup_order).1

theorem mem_order (h : Accounting inner s) {i : ℕ} :
    i ∈ s.picked ∨ i ∈ s.queued ↔ i < s.accepted.length ∧ i ∉ s.handedBack := by
  rw [← List.mem_append, h.order, List.mem_filter, List.mem_range]
  simp

theorem notMem_picked_of_queued (h : Accounting inner s) {i : ℕ} (hi : i ∈ s.queued) :
    i ∉ s.picked :=
  fun hp => (List.nodup_append.mp h.nodup_order).2.2 i hp i hi rfl

theorem submitted (h : Accounting inner s) {build : AdmissionClass → τ} {submission : Submission}
    {state : State (Job τ)}
    (hok : trySubmit inner (fun class_ => ⟨s.accepted.length, build class_⟩) s.state =
      .ok (submission, state)) :
    Accounting inner { s with state, accepted := s.accepted ++ [submission] } := by
  obtain ⟨hstop, hfull, hsub, rfl⟩ := trySubmit_ok hok
  have hticket : submission.ticket = ⟨UInt64.ofNat s.accepted.length⟩ := by
    rw [hsub, h.nextTicket_eq]
  have hnew : s.accepted.length ∉ s.handedBack := fun hm => (h.handedBack_lt _ hm).false
  refine ⟨?_, ?_, ?_, h.handedBack_nodup, ?_, h.picked_perm, ?_, ?_, ?_, ?_⟩
  · have := h.outstanding_eq
    simp only [List.length_append, List.length_singleton]
    omega
  · have := h.outstanding_le
    show s.state.outstanding + 1 ≤ inner.capacity
    omega
  · have horder := h.order
    simp only [System.queued] at horder
    simp only [System.queued, List.map_append, List.map_singleton, List.length_append,
      List.length_singleton, List.range_succ, List.filter_append, ← List.append_assoc, horder]
    simp [hnew]
  · intro i hi
    have := h.handedBack_lt i hi
    simp only [List.length_append, List.length_singleton]
    omega
  · simp [h.nextTicket_eq, UInt64.ofNat_add]
  · intro i sub hi
    rcases Nat.lt_or_ge i s.accepted.length with hlt | hge
    · rw [List.getElem?_append_left hlt] at hi
      exact h.ticket_eq i sub hi
    · rw [List.getElem?_append_right hge] at hi
      obtain ⟨hzero, rfl⟩ : i - s.accepted.length = 0 ∧ submission = sub := by
        simpa [List.getElem?_singleton] using hi
      rw [hticket, show i = s.accepted.length by omega]
  · intro entry hentry
    rcases List.mem_append.mp hentry with hmem | hmem
    · have := h.entry_eq entry hmem
      have hlt := (List.getElem?_eq_some_iff.mp this).1
      rw [List.getElem?_append_left hlt, this]
    · rw [List.mem_singleton] at hmem
      subst hmem
      simp
  · intro hret
    have := (h.returned hret).1
    rw [hstop] at this
    cases this

theorem cancelled (h : Accounting inner s) {ticket : QueueTicket} {job : Job τ}
    {state : State (Job τ)} (hback : cancelQueued ticket s.state = .handedBack job state) :
    Accounting inner { s with state, handedBack := s.handedBack ++ [job.serial] } := by
  obtain ⟨entry, hfind, -, rfl, rfl⟩ := cancelQueued_handedBack hback
  have hmem : entry ∈ s.state.queue := List.mem_of_find?_eq_some hfind
  have hqueued : entry.job.serial ∈ s.queued := List.mem_map_of_mem hmem
  have herase : (s.state.queue.eraseP fun e => e.ticket = ticket).map (fun e => e.job.serial) =
      s.queued.filter (· ≠ entry.job.serial) :=
    map_eraseP_of_find? h.nodup_queued hfind
  have hticket := List.find?_some hfind
  have hlen : (s.state.queue.eraseP fun e => e.ticket = ticket).length =
      s.state.queue.length - 1 :=
    List.length_eraseP_of_mem hmem hticket
  have hpos : 0 < s.state.queue.length := List.length_pos_of_mem hmem
  refine ⟨?_, ?_, ?_, ?_, ?_, h.picked_perm, h.nextTicket_eq, h.ticket_eq, ?_, ?_⟩
  · have := h.outstanding_eq
    simp only [hlen]
    omega
  · have := h.outstanding_le
    show s.state.outstanding - 1 ≤ inner.capacity
    omega
  · -- the job is in the queue, so filtering it out leaves the picked jobs alone
    have hpicked : s.picked.filter (· ≠ entry.job.serial) = s.picked := by
      refine List.filter_eq_self.mpr fun i hi => ?_
      have hne : i ≠ entry.job.serial := fun e => h.notMem_picked_of_queued hqueued (e ▸ hi)
      simpa using hne
    have hfilter := congrArg (List.filter (· ≠ entry.job.serial)) h.order
    rw [List.filter_append, hpicked, List.filter_filter] at hfilter
    simp only [System.queued] at herase hfilter ⊢
    rw [herase, hfilter]
    refine List.filter_congr fun i _ => ?_
    simp [and_comm]
  · refine List.nodup_append.mpr ⟨h.handedBack_nodup, List.nodup_singleton _, ?_⟩
    intro i hi j hj
    rw [List.mem_singleton] at hj
    subst hj
    rintro rfl
    exact (h.mem_order.mp (.inr hqueued)).2 hi
  · intro i hi
    rcases List.mem_append.mp hi with hi | hi
    · exact h.handedBack_lt i hi
    · rw [List.mem_singleton] at hi
      exact hi ▸ (h.mem_order.mp (.inr hqueued)).1
  · intro e he
    exact h.entry_eq e (List.mem_of_mem_eraseP he)
  · intro hret
    have hnil := (h.returned hret).2
    rw [hnil] at hmem
    cases hmem

theorem pickedUp (h : Accounting inner s) {k : ℕ} {entry : Entry (Job τ)}
    {queue : List (Entry (Job τ))} (hq : s.state.queue = entry :: queue) :
    Accounting inner { s with
      state := { s.state with queue }
      worker := Function.update s.worker k (.executing entry.job.serial)
      guards := entry.job.serial :: s.guards
      picked := s.picked ++ [entry.job.serial] } := by
  refine ⟨?_, h.outstanding_le, ?_, h.handedBack_nodup, h.handedBack_lt, ?_, h.nextTicket_eq,
    h.ticket_eq, ?_, ?_⟩
  · have := h.outstanding_eq
    rw [hq, List.length_cons] at this
    simp only [List.length_cons]
    omega
  · rw [← h.order]
    simp [System.queued, hq]
  · refine (List.perm_append_singleton _ _).trans ?_
    exact h.picked_perm.cons _
  · intro e he
    exact h.entry_eq e (hq ▸ List.mem_cons_of_mem _ he)
  · rintro ⟨j, hj⟩
    by_cases hjk : j = k
    · subst hjk
      simp at hj
    · have hnil := (h.returned ⟨j, by simpa [hjk] using hj⟩).2
      rw [hq] at hnil
      cases hnil

theorem retiredGuard (h : Accounting inner s) {serial : ℕ} (hg : serial ∈ s.guards) :
    Accounting inner { s with
      state := retireJob s.state
      guards := s.guards.erase serial
      retired := s.retired ++ [serial] } := by
  refine ⟨?_, ?_, h.order, h.handedBack_nodup, h.handedBack_lt, ?_, h.nextTicket_eq,
    h.ticket_eq, h.entry_eq, h.returned⟩
  · have := h.outstanding_eq
    have hpos := List.length_pos_of_mem hg
    simp only [retireJob, List.length_erase_of_mem hg]
    omega
  · have := h.outstanding_le
    show s.state.outstanding - 1 ≤ inner.capacity
    omega
  · refine h.picked_perm.trans ?_
    refine ((List.perm_cons_erase hg).append_right _).trans ?_
    rw [List.cons_append, ← List.append_assoc]
    exact (List.perm_append_singleton _ _).symm

theorem setWorker (h : Accounting inner s) {k : ℕ} {w : Worker}
    (hw : w = .returned → s.state.stopping = true ∧ s.state.queue = []) :
    Accounting inner (s.setWorker k w) := by
  refine ⟨h.outstanding_eq, h.outstanding_le, h.order, h.handedBack_nodup, h.handedBack_lt,
    h.picked_perm, h.nextTicket_eq, h.ticket_eq, h.entry_eq, ?_⟩
  rintro ⟨j, hj⟩
  by_cases hjk : j = k
  · subst hjk
    exact hw (by simpa [System.setWorker] using hj)
  · exact h.returned ⟨j, by simpa [System.setWorker, hjk] using hj⟩

theorem step (h : Accounting inner s) {a : Action τ} {t : System τ}
    (ht : RocExecutor.step inner s a = some t) : Accounting inner t := by
  cases step_effect ht with
  | none => exact h
  | submitted build submission state ok => exact h.submitted ok
  | handedBack serial ticket job state accepted back => exact h.cancelled back
  | stopped =>
    exact ⟨h.outstanding_eq, h.outstanding_le, h.order, h.handedBack_nodup, h.handedBack_lt,
      h.picked_perm, h.nextTicket_eq, h.ticket_eq, h.entry_eq,
      fun hret => ⟨rfl, (h.returned hret).2⟩⟩
  | picked k entry queue front => exact h.pickedUp front
  | returned k empty stopping => exact h.setWorker fun _ => ⟨stopping, empty⟩
  | executed k => exact h.setWorker (by intro e; cases e)
  | retired serial live => exact h.retiredGuard live

end Accounting

theorem accounting_of_reachable {workers waiting : ℕ} {s : System τ}
    (h : (machine τ workers waiting).Reachable s) : Accounting (Inner.new workers waiting) s :=
  (machine τ workers waiting).invariant accounting_init (fun _ _ _ hs hstep => hs.step hstep) h

/-! ## The contract -/

theorem Accounting.length_guards {s : System τ} (h : Accounting inner s) :
    (s.picked.filter (· ∉ s.retired)).length = s.guards.length := by
  have hnodup : (s.guards ++ s.retired).Nodup := h.picked_perm.nodup_iff.mp h.nodup_picked
  have hguards : s.guards.filter (· ∉ s.retired) = s.guards := by
    refine List.filter_eq_self.mpr fun i hi => ?_
    have hne : i ∉ s.retired := fun hr => (List.nodup_append.mp hnodup).2.2 i hi i hr rfl
    simpa using hne
  have hretired : s.retired.filter (· ∉ s.retired) = [] := by
    refine List.filter_eq_nil_iff.mpr fun i hi => ?_
    simpa using hi
  have hperm := h.picked_perm.filter (· ∉ s.retired)
  rw [List.filter_append, hguards, hretired, List.append_nil] at hperm
  exact hperm.length_eq

theorem Accounting.length_unretired {s : System τ} (h : Accounting inner s) :
    s.unretired.length = s.state.outstanding := by
  have hsplit : s.unretired = (s.picked ++ s.queued).filter (· ∉ s.retired) := by
    rw [h.order, List.filter_filter, System.unretired]
    refine List.filter_congr fun i _ => ?_
    simp
  have hqueued : s.queued.filter (· ∉ s.retired) = s.queued := by
    refine List.filter_eq_self.mpr fun i hi => ?_
    have hne : i ∉ s.retired := fun hr =>
      h.notMem_picked_of_queued hi (h.picked_perm.mem_iff.mpr (List.mem_append_right _ hr))
    simpa using hne
  rw [hsplit, List.filter_append, List.length_append, h.length_guards, hqueued, h.outstanding_eq,
    System.queued, List.length_map, Nat.add_comm]

theorem Accounting.count_eq {s : System τ} (h : Accounting inner s) (i : ℕ) :
    s.picked.count i + s.handedBack.count i + s.queued.count i =
      if i < s.accepted.length then 1 else 0 := by
  have horder : s.picked.count i + s.queued.count i =
      if i < s.accepted.length ∧ i ∉ s.handedBack then 1 else 0 := by
    rw [← List.count_append]
    split_ifs with hi
    · exact List.count_eq_one_of_mem h.nodup_order (List.mem_append.mpr (h.mem_order.mpr hi))
    · exact List.count_eq_zero.mpr fun hm => hi (h.mem_order.mp (List.mem_append.mp hm))
  have hback : s.handedBack.count i = if i ∈ s.handedBack then 1 else 0 := by
    split_ifs with hi
    · exact List.count_eq_one_of_mem h.handedBack_nodup hi
    · exact List.count_eq_zero.mpr hi
  by_cases hm : i ∈ s.handedBack
  · rw [if_neg (fun hi => hi.2 hm)] at horder
    rw [if_pos hm] at hback
    rw [if_pos (h.handedBack_lt i hm)]
    omega
  · simp only [hm, not_false_eq_true, and_true, if_false] at horder hback
    omega

/-- Below `2 ^ 64` submissions a ticket determines its submission. -/
theorem Accounting.serial_of_ticket {s : System τ} (h : Accounting inner s)
    (hlt : s.accepted.length ≤ 2 ^ 64) {i : ℕ} {submission : Submission}
    (hi : s.accepted[i]? = some submission) {entry : Entry (Job τ)} (he : entry ∈ s.state.queue)
    (hticket : entry.ticket = submission.ticket) :
    entry.job.serial = i ∧ entry.class_ = submission.class_ := by
  have hentry := h.entry_eq entry he
  have h1 := h.ticket_eq _ _ hentry
  have h2 := h.ticket_eq i submission hi
  have hj := (List.getElem?_eq_some_iff.mp hentry).1
  have hi' := (List.getElem?_eq_some_iff.mp hi).1
  have heq : UInt64.ofNat entry.job.serial = UInt64.ofNat i := by
    simpa [hticket, h2] using h1.symm
  have hserial : entry.job.serial = i := by
    have := congrArg UInt64.toNat heq
    rwa [UInt64.toNat_ofNat_of_lt' (by show _ < 2 ^ 64; omega),
      UInt64.toNat_ofNat_of_lt' (by show _ < 2 ^ 64; omega)] at this
  refine ⟨hserial, ?_⟩
  rw [hserial, hi, Option.some.injEq] at hentry
  exact congrArg Submission.class_ hentry.symm

theorem stopping_step {s t : System τ} {a : Action τ} (h : step inner s a = some t)
    (hs : s.state.stopping = true) : t.state.stopping = true ∧ t.accepted = s.accepted := by
  cases step_effect h with
  | none => exact ⟨hs, rfl⟩
  | submitted build submission state ok =>
    have := (trySubmit_ok ok).1
    rw [hs] at this
    cases this
  | handedBack serial ticket job state accepted back =>
    obtain ⟨entry, -, -, -, rfl⟩ := cancelQueued_handedBack back
    exact ⟨hs, rfl⟩
  | stopped => exact ⟨rfl, rfl⟩
  | picked k entry queue front => exact ⟨hs, rfl⟩
  | returned k empty stopping => exact ⟨hs, rfl⟩
  | executed k => exact ⟨hs, rfl⟩
  | retired serial live => exact ⟨hs, rfl⟩

end Invariant

end BasicWebserver.RocExecutor
