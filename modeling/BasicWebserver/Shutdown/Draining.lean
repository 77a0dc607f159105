import BasicWebserver.Foundation.Machine
import Mathlib.Logic.Function.Basic

/-!
# Shutdown and draining

`ShutdownController` and `RequestTracker` of `src/shutdown.rs`, for any number of tasks. A critical
section is one step: what runs beside it (`notified`, `subscribe`, a wake-up) does not read what the
mutex protects, so it comes before or after it as well. A call of `requested` or `wait_for_idle` is a
task of its own; one that is dropped takes no further step. A guard takes memory, so the count of
them does not overflow.

A `notified` future remembers the number of `notify_waiters` calls when it was created and is ready
once there were more; a watch receiver does the same with the number of values sent.
-/

namespace BasicWebserver.Shutdown

open Transition

/-! ## `ShutdownController` -/

inductive ShutdownReason
  | applicationRequested (exitCode : Int64)
  | interrupt
  | terminate
  | startupFailed (detail : String)
  | runtimeFailed (detail : String)
  deriving DecidableEq

inductive ShutdownRequest
  | started
  | alreadyDraining
  deriving DecidableEq

/-- Where a call of `requested` is. -/
inductive Requested
  | entered
  | subscribing
  /-- before `borrow_and_update` -/
  | borrowing
  /-- in `changed`, with the number of values it has seen -/
  | parked (seen : ℕ)
  | returned (reason : ShutdownReason)

/-- What a call of the controller returned. -/
inductive Answer
  | request (reason : ShutdownReason) (result : ShutdownRequest)
  | reason (answer : Option ShutdownReason)
  | requested (reason : ShutdownReason)

structure Controller where
  reason : Option ShutdownReason
  /-- The value of the watch, and how many were sent. -/
  value : Option ShutdownReason
  sent : ℕ
  waiters : ℕ → Requested
  /-- The calls that returned, in order. -/
  answers : List Answer

def Controller.new : Controller := ⟨none, none, 0, fun _ => .entered, []⟩

inductive ControllerLabel
  | request (reason : ShutdownReason)
  | reason
  /-- the next step of a call of `requested` -/
  | requested (id : ℕ)

def Controller.setWaiter (c : Controller) (id : ℕ) (waiter : Requested) : Controller :=
  { c with waiters := Function.update c.waiters id waiter }

/-- The call returns. -/
def Controller.wake (c : Controller) (id : ℕ) (reason : ShutdownReason) : Controller :=
  { c.setWaiter id (.returned reason) with answers := c.answers ++ [.requested reason] }

def Controller.request (c : Controller) (reason : ShutdownReason) : Controller :=
  if c.reason.isSome then
    { c with answers := c.answers ++ [.request reason .alreadyDraining] }
  else
    { c with
      reason := some reason
      value := some reason
      sent := c.sent + 1
      answers := c.answers ++ [.request reason .started] }

def Controller.requested (c : Controller) (id : ℕ) : Option Controller :=
  match c.waiters id with
  | .entered =>
    match c.reason with
    | some reason => some (c.wake id reason)
    | none => some (c.setWaiter id .subscribing)
  | .subscribing => some (c.setWaiter id .borrowing)
  | .borrowing =>
    match c.value with
    | some reason => some (c.wake id reason)
    | none => some (c.setWaiter id (.parked c.sent))
  | .parked seen => if c.sent = seen then none else some (c.setWaiter id .borrowing)
  | .returned _ => none

def Controller.step (c : Controller) : ControllerLabel → Option Controller
  | .request reason => some (c.request reason)
  | .reason => some { c with answers := c.answers ++ [.reason c.reason] }
  | .requested id => c.requested id

/-! ## `RequestTracker` -/

/-- Where a call of `wait_for_idle` is. -/
inductive IdleWait
  /-- before `notified` -/
  | registering
  /-- before the count is read, with the notifications when the future was created -/
  | checking (seen : ℕ)
  | parked (seen : ℕ)
  | returned

inductive TrackerEvent
  | issued
  | refused
  | draining
  | idle
  deriving DecidableEq

structure Tracker where
  accepting : Bool
  active : ℕ
  /-- The number of `notify_waiters` calls. -/
  notifications : ℕ
  /-- The live guards. -/
  guards : List ℕ
  waiters : ℕ → IdleWait
  /-- A call has panicked with the mutex locked. -/
  poisoned : Bool
  /-- What `begin`, `begin_draining` and `wait_for_idle` did, in order. -/
  events : List TrackerEvent

def Tracker.new : Tracker := ⟨true, 0, 0, [], fun _ => .registering, false, []⟩

inductive TrackerLabel
  | begin (guard : ℕ)
  | beginDraining
  | drop (guard : ℕ)
  /-- the next step of a call of `wait_for_idle` -/
  | waitForIdle (id : ℕ)

def Tracker.begin (t : Tracker) (guard : ℕ) : Tracker :=
  if t.accepting then
    { t with
      active := t.active + 1
      guards := guard :: t.guards
      events := t.events ++ [.issued] }
  else { t with events := t.events ++ [.refused] }

/-- `notify_waiters` is called when there is no guard. -/
def Tracker.notifyIdle (t : Tracker) : Tracker :=
  if t.active = 0 then { t with notifications := t.notifications + 1 } else t

def Tracker.beginDraining (t : Tracker) : Tracker :=
  Tracker.notifyIdle { t with accepting := false, events := t.events ++ [.draining] }

/-- The assertion on the count fails with the mutex locked. -/
def Tracker.drop (t : Tracker) (guard : ℕ) : Tracker :=
  if t.active = 0 then { t with poisoned := true }
  else Tracker.notifyIdle { t with active := t.active - 1, guards := t.guards.erase guard }

def Tracker.setWaiter (t : Tracker) (id : ℕ) (waiter : IdleWait) : Tracker :=
  { t with waiters := Function.update t.waiters id waiter }

def Tracker.waitForIdle (t : Tracker) (id : ℕ) : Option Tracker :=
  match t.waiters id with
  | .registering => some (t.setWaiter id (.checking t.notifications))
  | .checking seen =>
    if t.poisoned then none
    else if t.active = 0 then some { t.setWaiter id .returned with events := t.events ++ [.idle] }
    else some (t.setWaiter id (.parked seen))
  | .parked seen => if t.notifications = seen then none else some (t.setWaiter id .registering)
  | .returned => none

/-- A guard is dropped once, and a new one is none of the live ones. -/
def Tracker.step (t : Tracker) : TrackerLabel → Option Tracker
  | .begin guard => if t.poisoned || t.guards.contains guard then none else some (t.begin guard)
  | .beginDraining => if t.poisoned then none else some t.beginDraining
  | .drop guard =>
    if t.poisoned || !t.guards.contains guard then none else some (t.drop guard)
  | .waitForIdle id => t.waitForIdle id

/-! ## Together -/

structure State where
  controller : Controller
  tracker : Tracker

inductive Label
  | controller (label : ControllerLabel)
  | tracker (label : TrackerLabel)

def step (s : State) : Label → Option State
  | .controller label => (s.controller.step label).map fun controller => { s with controller }
  | .tracker label => (s.tracker.step label).map fun tracker => { s with tracker }

def machine : Machine State Label := ⟨⟨.new, .new⟩, step⟩

/-! ## The first reason -/

/-- An answer that agrees with a shutdown that has started for this reason. -/
def Answer.Follows (first : ShutdownReason) : Answer → Prop
  | .request _ result => result = .alreadyDraining
  | .reason answer => answer = some first
  | .requested seen => seen = first

/-- Before the first request there is no reason to be seen, and after it every answer agrees. -/
def History : Option ShutdownReason → List Answer → Prop
  | none, answers => ∀ answer ∈ answers, answer = .reason none
  | some first, answers => ∃ before after, answers = before ++ .request first .started :: after ∧
    (∀ answer ∈ before, answer = .reason none) ∧ ∀ answer ∈ after, answer.Follows first

theorem History.append {first : ShutdownReason} {answers : List Answer} {answer : Answer}
    (h : History (some first) answers) (hanswer : answer.Follows first) :
    History (some first) (answers ++ [answer]) := by
  obtain ⟨before, after, rfl, hbefore, hafter⟩ := h
  refine ⟨before, after ++ [answer], by simp, hbefore, ?_⟩
  rintro a ha
  rcases List.mem_append.mp ha with hold | hnew
  · exact hafter a hold
  · exact List.mem_singleton.mp hnew ▸ hanswer

structure Controller.Good (c : Controller) : Prop where
  value : c.value = c.reason
  history : History c.reason c.answers
  returned : ∀ id reason, c.waiters id = .returned reason → c.reason = some reason
  seen : ∀ id seen, c.waiters id = .parked seen → seen ≤ c.sent
  /-- A parked call is woken by the first value. -/
  woken : ∀ id seen, c.waiters id = .parked seen → c.reason ≠ none → seen ≠ c.sent

theorem Controller.Good.request {c : Controller} (h : c.Good) (reason : ShutdownReason) :
    (c.request reason).Good := by
  unfold Controller.request
  cases hreason : c.reason with
  | some first =>
    have hhistory := h.history
    rw [hreason] at hhistory
    rw [if_pos (Option.isSome_some)]
    refine ⟨h.value.trans hreason, hhistory.append rfl, ?_, h.seen, ?_⟩
    · rw [← hreason]
      exact h.returned
    · rw [← hreason]
      exact h.woken
  | none =>
    have hhistory := h.history
    rw [hreason] at hhistory
    rw [if_neg (by decide)]
    refine ⟨rfl, ⟨c.answers, [], rfl, hhistory, ?_⟩, ?_, ?_, ?_⟩
    · rintro a ⟨⟩
    · intro id reason' hreturned
      have hsome := h.returned id reason' hreturned
      rw [hreason] at hsome
      cases hsome
    · intro id seen hparked
      exact Nat.le_succ_of_le (h.seen id seen hparked)
    · intro id seen hparked _
      exact Nat.ne_of_lt (Nat.lt_succ_of_le (h.seen id seen hparked))

theorem Controller.Good.setWaiter {c : Controller} (h : c.Good) (id : ℕ) {waiter : Requested}
    (hreturned : ∀ reason, waiter = .returned reason → c.reason = some reason)
    (hparked : ∀ seen, waiter = .parked seen → seen ≤ c.sent ∧ c.reason = none) :
    (c.setWaiter id waiter).Good := by
  have hcases (k : ℕ) : (c.setWaiter id waiter).waiters k = c.waiters k ∨
      (c.setWaiter id waiter).waiters k = waiter := by
    by_cases hk : k = id
    · subst hk
      exact .inr (Function.update_self _ _ _)
    · exact .inl (Function.update_of_ne hk _ _)
  refine ⟨h.value, h.history, fun k reason hk => ?_, fun k seen hk => ?_, fun k seen hk => ?_⟩
  · rcases hcases k with hold | hnew
    · exact h.returned k reason (hold.symm.trans hk)
    · exact hreturned reason (hnew.symm.trans hk)
  · rcases hcases k with hold | hnew
    · exact h.seen k seen (hold.symm.trans hk)
    · exact (hparked seen (hnew.symm.trans hk)).1
  · rcases hcases k with hold | hnew
    · exact h.woken k seen (hold.symm.trans hk)
    · exact absurd (hparked seen (hnew.symm.trans hk)).2

theorem Controller.Good.wake {c : Controller} (h : c.Good) (id : ℕ) {reason : ShutdownReason}
    (hreason : c.reason = some reason) : (c.wake id reason).Good := by
  have hset : (c.setWaiter id (.returned reason)).Good := by
    refine h.setWaiter id ?_ ?_
    · rintro reason' ⟨⟩
      exact hreason
    · rintro seen ⟨⟩
  refine ⟨hset.value, ?_, hset.returned, hset.seen, hset.woken⟩
  show History c.reason _
  have hhistory := h.history
  rw [hreason] at hhistory ⊢
  exact hhistory.append rfl

theorem Controller.Good.step {c c' : Controller} {label : ControllerLabel} (h : c.Good)
    (hc : c.step label = some c') : c'.Good := by
  cases label with
  | request reason =>
    obtain rfl := Option.some.inj hc
    exact h.request reason
  | reason =>
    obtain rfl := Option.some.inj hc
    refine ⟨h.value, ?_, h.returned, h.seen, h.woken⟩
    show History c.reason _
    have hhistory := h.history
    cases hreason : c.reason with
    | some first =>
      rw [hreason] at hhistory
      exact hhistory.append rfl
    | none =>
      rw [hreason] at hhistory
      rintro a ha
      rcases List.mem_append.mp ha with hold | hnew
      · exact hhistory a hold
      · exact List.mem_singleton.mp hnew
  | requested id =>
    replace hc : c.requested id = some c' := hc
    unfold Controller.requested at hc
    split at hc
    next =>
      split at hc
      next reason hreason =>
        obtain rfl := Option.some.inj hc
        exact h.wake id hreason
      next =>
        obtain rfl := Option.some.inj hc
        exact h.setWaiter id (by rintro _ ⟨⟩) (by rintro _ ⟨⟩)
    next =>
      obtain rfl := Option.some.inj hc
      exact h.setWaiter id (by rintro _ ⟨⟩) (by rintro _ ⟨⟩)
    next =>
      split at hc
      next reason hvalue =>
        obtain rfl := Option.some.inj hc
        exact h.wake id (h.value.symm.trans hvalue)
      next hvalue =>
        obtain rfl := Option.some.inj hc
        refine h.setWaiter id (by rintro _ ⟨⟩) ?_
        rintro seen ⟨⟩
        exact ⟨Nat.le_refl _, h.value.symm.trans hvalue⟩
    next =>
      split_ifs at hc
      obtain rfl := Option.some.inj hc
      exact h.setWaiter id (by rintro _ ⟨⟩) (by rintro _ ⟨⟩)
    next => cases hc

/-! ## The guards -/

/-- What holds between a change of the count and the notification. -/
structure Tracker.Sound (t : Tracker) : Prop where
  poisoned : t.poisoned = false
  active : t.active = t.guards.length
  checking : ∀ id seen, t.waiters id = .checking seen → seen ≤ t.notifications
  parked : ∀ id seen, t.waiters id = .parked seen → seen ≤ t.notifications
  accepting : t.accepting = true → .draining ∉ t.events
  issued : t.events.Pairwise fun earlier later => earlier = .draining → later ≠ .issued
  idle : (t.events.Pairwise fun earlier later => earlier = .draining → later ≠ .idle) ∨
    t.accepting = false ∧ t.active = 0

structure Tracker.Good (t : Tracker) : Prop extends t.Sound where
  /-- A parked call is notified when there is no guard. -/
  notified : ∀ id seen, t.waiters id = .parked seen → t.active = 0 → t.notifications ≠ seen

theorem Tracker.Sound.notifyIdle {t : Tracker} (h : t.Sound) : t.notifyIdle.Good := by
  unfold Tracker.notifyIdle
  split_ifs with hactive
  · refine ⟨⟨h.poisoned, h.active, fun id seen hid => ?_, fun id seen hid => ?_, h.accepting,
      h.issued, h.idle⟩, fun id seen hid _ => ?_⟩
    · exact Nat.le_succ_of_le (h.checking id seen hid)
    · exact Nat.le_succ_of_le (h.parked id seen hid)
    · exact Nat.ne_of_gt (Nat.lt_succ_of_le (h.parked id seen hid))
  · exact ⟨h, fun id seen _ hzero => absurd hzero hactive⟩

theorem pairwise_snoc {target event : TrackerEvent} {events : List TrackerEvent}
    (h : events.Pairwise fun earlier later => earlier = .draining → later ≠ target)
    (hevent : event = target → .draining ∉ events) :
    (events ++ [event]).Pairwise fun earlier later => earlier = .draining → later ≠ target := by
  refine List.pairwise_append.mpr ⟨h, List.pairwise_singleton _ _, fun earlier hearlier later hlater => ?_⟩
  obtain rfl := List.mem_singleton.mp hlater
  rintro rfl htarget
  exact hevent htarget hearlier

theorem Tracker.Good.begin {t : Tracker} (h : t.Good) (guard : ℕ) : (t.begin guard).Good := by
  unfold Tracker.begin
  split_ifs with haccepting
  · have hdraining := h.accepting haccepting
    have hidle : t.events.Pairwise fun earlier later => earlier = .draining → later ≠ .idle :=
      h.idle.resolve_right fun hdone => absurd (haccepting.symm.trans hdone.1) (by decide)
    refine ⟨⟨h.poisoned, congrArg Nat.succ h.active, h.checking, h.parked, fun _ hmem => ?_,
      pairwise_snoc h.issued fun _ => hdraining, .inl (pairwise_snoc hidle (by rintro ⟨⟩))⟩,
      fun id seen _ hzero => absurd hzero (Nat.succ_ne_zero _)⟩
    rcases List.mem_append.mp hmem with hold | hnew
    · exact hdraining hold
    · cases List.mem_singleton.mp hnew
  · refine ⟨⟨h.poisoned, h.active, h.checking, h.parked, fun htrue => absurd htrue haccepting,
      pairwise_snoc h.issued (by rintro ⟨⟩), ?_⟩, h.notified⟩
    exact h.idle.imp_left fun hidle => pairwise_snoc hidle (by rintro ⟨⟩)

theorem Tracker.Good.beginDraining {t : Tracker} (h : t.Good) : t.beginDraining.Good := by
  refine Tracker.Sound.notifyIdle ⟨h.poisoned, h.active, h.checking, h.parked, ?_,
    pairwise_snoc h.issued (by rintro ⟨⟩), ?_⟩
  · rintro ⟨⟩
  · rcases h.idle with hidle | hdone
    · exact .inl (pairwise_snoc hidle (by rintro ⟨⟩))
    · exact .inr ⟨rfl, hdone.2⟩

theorem Tracker.Good.drop {t : Tracker} (h : t.Good) {guard : ℕ} (hguard : guard ∈ t.guards) :
    (t.drop guard).Good := by
  have hpos : 0 < t.guards.length := List.length_pos_of_mem hguard
  unfold Tracker.drop
  rw [if_neg (by rw [h.active]; exact Nat.ne_of_gt hpos)]
  refine Tracker.Sound.notifyIdle ⟨h.poisoned, ?_, h.checking, h.parked, h.accepting, h.issued, ?_⟩
  · show t.active - 1 = (t.guards.erase guard).length
    rw [List.length_erase_of_mem hguard, h.active]
  · rcases h.idle with hidle | hdone
    · exact .inl hidle
    · exact absurd (h.active.symm.trans hdone.2) (Nat.ne_of_gt hpos)

theorem Tracker.Good.setWaiter {t : Tracker} (h : t.Good) (id : ℕ) {waiter : IdleWait}
    (hchecking : ∀ seen, waiter = .checking seen → seen ≤ t.notifications)
    (hparked : ∀ seen, waiter = .parked seen → seen ≤ t.notifications ∧ t.active ≠ 0) :
    (t.setWaiter id waiter).Good := by
  have hcases (k : ℕ) : (t.setWaiter id waiter).waiters k = t.waiters k ∨
      (t.setWaiter id waiter).waiters k = waiter := by
    by_cases hk : k = id
    · subst hk
      exact .inr (Function.update_self _ _ _)
    · exact .inl (Function.update_of_ne hk _ _)
  refine ⟨⟨h.poisoned, h.active, fun k seen hk => ?_, fun k seen hk => ?_, h.accepting, h.issued,
    h.idle⟩, fun k seen hk => ?_⟩
  · rcases hcases k with hold | hnew
    · exact h.checking k seen (hold.symm.trans hk)
    · exact hchecking seen (hnew.symm.trans hk)
  · rcases hcases k with hold | hnew
    · exact h.parked k seen (hold.symm.trans hk)
    · exact (hparked seen (hnew.symm.trans hk)).1
  · rcases hcases k with hold | hnew
    · exact h.notified k seen (hold.symm.trans hk)
    · exact fun hzero => absurd hzero (hparked seen (hnew.symm.trans hk)).2

theorem Tracker.Good.waitForIdle {t t' : Tracker} {id : ℕ} (h : t.Good)
    (ht : t.waitForIdle id = some t') : t'.Good := by
  unfold Tracker.waitForIdle at ht
  split at ht
  next =>
    obtain rfl := Option.some.inj ht
    refine h.setWaiter id ?_ (by rintro _ ⟨⟩)
    rintro seen ⟨⟩
    exact Nat.le_refl _
  next seen hwaiter =>
    split_ifs at ht with hpoisoned hactive
    · -- the call returns: if it comes after `begin_draining`, no guard is issued any more
      obtain rfl := Option.some.inj ht
      have hset : (t.setWaiter id .returned).Good := h.setWaiter id (by rintro _ ⟨⟩) (by rintro _ ⟨⟩)
      refine ⟨⟨hset.poisoned, hset.active, hset.checking, hset.parked, fun haccepting hmem => ?_,
        pairwise_snoc h.issued (by rintro ⟨⟩), ?_⟩, hset.notified⟩
      · rcases List.mem_append.mp hmem with hold | hnew
        · exact h.accepting haccepting hold
        · cases List.mem_singleton.mp hnew
      · cases haccepting : t.accepting with
        | false => exact .inr ⟨haccepting, hactive⟩
        | true =>
          refine .inl (pairwise_snoc ?_ fun _ => h.accepting haccepting)
          exact h.idle.resolve_right fun hdone => absurd (haccepting.symm.trans hdone.1) (by decide)
    · obtain rfl := Option.some.inj ht
      refine h.setWaiter id (by rintro _ ⟨⟩) ?_
      rintro seen' ⟨⟩
      exact ⟨h.checking id seen hwaiter, hactive⟩
  next =>
    split_ifs at ht
    obtain rfl := Option.some.inj ht
    exact h.setWaiter id (by rintro _ ⟨⟩) (by rintro _ ⟨⟩)
  next => cases ht

theorem Tracker.Good.step {t t' : Tracker} {label : TrackerLabel} (h : t.Good)
    (ht : t.step label = some t') : t'.Good := by
  cases label with
  | begin guard =>
    obtain ⟨-, ht⟩ := Option.ite_none_left_eq_some.mp ht
    obtain rfl := Option.some.inj ht
    exact h.begin guard
  | beginDraining =>
    obtain ⟨-, ht⟩ := Option.ite_none_left_eq_some.mp ht
    obtain rfl := Option.some.inj ht
    exact h.beginDraining
  | drop guard =>
    obtain ⟨hlive, ht⟩ := Option.ite_none_left_eq_some.mp ht
    obtain rfl := Option.some.inj ht
    have hguard : guard ∈ t.guards := by simpa [h.poisoned] using hlive
    exact h.drop hguard
  | waitForIdle id => exact h.waitForIdle ht

/-- No guard is left and none is issued any more. -/
def Tracker.Quiet (t : Tracker) : Prop := t.accepting = false ∧ t.active = 0

theorem Tracker.Quiet.notifyIdle {t : Tracker} (h : t.Quiet) : t.notifyIdle.Quiet := by
  unfold Tracker.notifyIdle
  split_ifs
  · exact h
  · exact h

theorem Tracker.Quiet.waitForIdle {t t' : Tracker} {id : ℕ} (h : t.Quiet)
    (ht : t.waitForIdle id = some t') : t'.Quiet := by
  unfold Tracker.waitForIdle at ht
  split at ht
  next =>
    obtain rfl := Option.some.inj ht
    exact h
  next =>
    split_ifs at ht
    · obtain rfl := Option.some.inj ht
      exact h
    · obtain rfl := Option.some.inj ht
      exact h
  next =>
    split_ifs at ht
    obtain rfl := Option.some.inj ht
    exact h
  next => cases ht

theorem Tracker.Quiet.step {t t' : Tracker} {label : TrackerLabel} (h : t.Quiet)
    (ht : t.step label = some t') : t'.Quiet := by
  cases label with
  | begin guard =>
    obtain ⟨-, ht⟩ := Option.ite_none_left_eq_some.mp ht
    obtain rfl := Option.some.inj ht
    unfold Tracker.begin
    rw [h.1, if_neg (by decide)]
    exact ⟨rfl, h.2⟩
  | beginDraining =>
    obtain ⟨-, ht⟩ := Option.ite_none_left_eq_some.mp ht
    obtain rfl := Option.some.inj ht
    exact Tracker.Quiet.notifyIdle ⟨rfl, h.2⟩
  | drop guard =>
    obtain ⟨-, ht⟩ := Option.ite_none_left_eq_some.mp ht
    obtain rfl := Option.some.inj ht
    unfold Tracker.drop
    rw [if_pos h.2]
    exact h
  | waitForIdle id => exact h.waitForIdle ht

/-! ## Whole runs -/

theorem step_cases {s s' : State} {label : Label} (h : step s label = some s') :
    (∃ l c, s.controller.step l = some c ∧ s' = { s with controller := c }) ∨
      ∃ l t, s.tracker.step l = some t ∧ s' = { s with tracker := t } := by
  cases label with
  | controller l =>
    obtain ⟨c, hc, rfl⟩ := Option.map_eq_some_iff.mp h
    exact .inl ⟨l, c, hc, rfl⟩
  | tracker l =>
    obtain ⟨t, ht, rfl⟩ := Option.map_eq_some_iff.mp h
    exact .inr ⟨l, t, ht, rfl⟩

theorem good_of_reachable {s : State} (hs : machine.Reachable s) :
    s.controller.Good ∧ s.tracker.Good := by
  refine machine.invariant (P := fun s => s.controller.Good ∧ s.tracker.Good) ⟨?_, ?_⟩ ?_ hs
  · exact ⟨rfl, by rintro _ ⟨⟩, by rintro _ _ ⟨⟩, by rintro _ _ ⟨⟩, by rintro _ _ ⟨⟩⟩
  · refine ⟨⟨rfl, rfl, by rintro _ _ ⟨⟩, by rintro _ _ ⟨⟩, ?_, .nil, .inl .nil⟩, by rintro _ _ ⟨⟩⟩
    rintro - ⟨⟩
  · rintro s label s' ⟨hc, ht⟩ hstep
    rcases step_cases hstep with ⟨l, c, hl, rfl⟩ | ⟨l, t, hl, rfl⟩
    · exact ⟨hc.step hl, ht⟩
    · exact ⟨hc, ht.step hl⟩

theorem quiet_exec {s t : State} {labels : List Label} (hs : s.tracker.Quiet)
    (h : machine.exec s labels = some t) : t.tracker.Quiet := by
  refine machine.invariant_exec (P := fun s => s.tracker.Quiet) (fun s label s' hs hstep => ?_) hs h
  rcases step_cases hstep with ⟨l, c, hl, rfl⟩ | ⟨l, t, hl, rfl⟩
  · exact hs
  · exact hs.step hl

theorem not_pairwise {target : TrackerEvent} {before between after : List TrackerEvent} :
    ¬ (before ++ .draining :: between ++ target :: after).Pairwise fun earlier later =>
      earlier = .draining → later ≠ target := by
  intro h
  rw [List.append_assoc, List.pairwise_append] at h
  have hcons := (List.pairwise_cons.mp h.2.1).1 target
  exact hcons (List.mem_append_right _ List.mem_cons_self) rfl rfl

/-- The last guard is dropped while a call sleeps. -/
def lastGuard : List Label :=
  [.tracker (.begin 0), .tracker (.waitForIdle 7), .tracker .beginDraining,
    .controller (.request .terminate), .tracker (.waitForIdle 7), .tracker (.drop 0),
    .tracker (.waitForIdle 7), .tracker (.waitForIdle 7), .tracker (.waitForIdle 7)]

end BasicWebserver.Shutdown
