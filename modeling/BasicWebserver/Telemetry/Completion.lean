import BasicWebserver.Telemetry.Requests
import Mathlib.Algebra.BigOperators.Fin

/-!
# One completion for each request

A request is `Waiting` until its completion is recorded, and `Recorded` from then on; the steps of a
request lead from one to the other and not back (`Request.Good.step`). The counters follow the list
of records.
-/

namespace BasicWebserver.Telemetry

open Transition

/-! ## What a body has returned -/

def dataLength : Polled → ℕ
  | .frame (some length) _ => length
  | _ => 0

/-- The bytes of the data frames, saturating. -/
def yielded (polled : List Polled) : ℕ := min (polled.map dataLength).sum (2 ^ 64 - 1)

theorem yielded_nil : yielded [] = 0 := rfl

/-- The completion of a body that returned this. -/
def CompletionBody.completion (body : CompletionBody) : Completion :=
  if .failed ∈ body.polled then .bodyFailure
  else if body.hasEnded then .endOfStream
  else .bodyDropped

/-- A request without an instrumented response is dropped. -/
def Request.completion (r : Request) : Completion :=
  match r.body with
  | some body => body.completion
  | none => .bodyDropped

theorem CompletionBody.hasEnded_count (body : CompletionBody) (polled : Polled) :
    (body.count polled).hasEnded = (body.hasEnded || polled.reportsEnd) := by
  show (body.endedAtOnce || (body.polled ++ [polled]).any Polled.reportsEnd) = _
  rw [List.any_append, List.any_cons, List.any_nil, Bool.or_false, ← Bool.or_assoc]
  rfl

theorem CompletionBody.responseBytes_count {body : CompletionBody}
    (h : body.responseBytes = yielded body.polled) (polled : Polled) :
    (body.count polled).responseBytes = yielded (body.polled ++ [polled]) := by
  have hsum : ((body.polled ++ [polled]).map dataLength).sum =
      (body.polled.map dataLength).sum + dataLength polled := by
    rw [List.map_append, List.sum_append]
    rfl
  unfold yielded at h ⊢
  rw [hsum]
  cases polled with
  | frame data last =>
    cases data with
    | some length =>
      show saturatingAdd body.responseBytes (min length (2 ^ 64 - 1)) =
        min ((body.polled.map dataLength).sum + length) (2 ^ 64 - 1)
      rw [saturatingAdd, h]
      omega
    | none => exact h
  | failed => exact h
  | ended => exact h
  | pending => exact h

/-! ## One request -/

/-- A request whose completion is not recorded: a handle is left, and its body has neither failed nor
ended. -/
structure Request.Waiting (r : Request) : Prop where
  held : r.held = true
  finished : ∀ body, r.body = some body → body.finished = false
  dropped : ∀ body, r.body = some body → body.dropped = false
  endedAtOnce : ∀ body, r.body = some body → body.endedAtOnce = false
  polled : ∀ body, r.body = some body → ∀ polled ∈ body.polled, polled.completion = none
  responseBytes : ∀ body, r.body = some body → body.responseBytes = yielded body.polled

/-- A request whose completion is recorded: nothing that its body still returns changes it. -/
structure Request.Recorded (r : Request) (record : Record) : Prop where
  method : record.method = r.method
  completion : record.completion = r.completion
  polled : record.polled <+: r.polled
  responseBytes : record.responseBytes = yielded record.polled
  finished : ∀ body, r.body = some body → body.finished = true
  dropped : ∀ body, r.body = some body → body.dropped = true ∨ record.completion ≠ .bodyDropped
  released : r.body = none → r.handles = 0

/-- A request and its records. -/
def Request.Good (r : Request) (records : List Record) : Prop :=
  r.finished = false ∧ records = [] ∧ r.Waiting ∨
    r.finished = true ∧ ∃ record, records = [record] ∧ r.Recorded record

theorem Request.release_of_finished {r : Request} (h : r.finished = true) : r.release = (r, []) := by
  unfold Request.release Request.finish
  rw [if_pos h, ite_self]

theorem Request.finish_of_not {r : Request} (h : r.finished = false) (completion : Completion)
    (responseBytes : ℕ) :
    r.finish completion responseBytes =
      ({ r with finished := true }, [⟨completion, responseBytes⟩]) := by
  unfold Request.finish
  rw [h, if_neg (by decide)]

theorem Request.good_finish {r : Request} (id : ℕ) (h : r.finished = false) {completion : Completion}
    {responseBytes : ℕ} (hcompletion : completion = r.completion)
    (hbytes : responseBytes = yielded r.polled)
    (hfinished : ∀ body, r.body = some body → body.finished = true)
    (hdropped : ∀ body, r.body = some body → body.dropped = true ∨ completion ≠ .bodyDropped)
    (hreleased : r.body = none → r.handles = 0) :
    Request.Good (r.finish completion responseBytes).1
      ((r.finish completion responseBytes).2.map
        ((r.finish completion responseBytes).1.record id)) := by
  rw [Request.finish_of_not h]
  exact .inr ⟨rfl, _, rfl, rfl, hcompletion, List.prefix_rfl, hbytes, hfinished, hdropped, hreleased⟩

theorem Request.Good.clone {r : Request} {records : List Record} (h : r.Good records)
    (hhandles : r.handles ≠ 0) : Request.Good { r with handles := r.handles + 1 } records := by
  rcases h with ⟨hfinished, hrecords, hwaiting⟩ | ⟨hfinished, record, hrecords, hrecorded⟩
  · refine .inl ⟨hfinished, hrecords, ?_, hwaiting.finished, hwaiting.dropped, hwaiting.endedAtOnce,
      hwaiting.polled, hwaiting.responseBytes⟩
    unfold Request.held
    rw [decide_eq_true (Nat.succ_pos _), Bool.true_or]
  · refine .inr ⟨hfinished, record, hrecords, hrecorded.method, hrecorded.completion,
      hrecorded.polled, hrecorded.responseBytes, hrecorded.finished, hrecorded.dropped, ?_⟩
    exact fun hbody => absurd (hrecorded.released hbody) hhandles

theorem Request.Good.update {r : Request} {records : List Record} (h : r.Good records)
    (details : RequestDetails) : Request.Good { r with details } records := by
  rcases h with ⟨hfinished, hrecords, hwaiting⟩ | ⟨hfinished, record, hrecords, hrecorded⟩
  · exact .inl ⟨hfinished, hrecords, hwaiting.held, hwaiting.finished, hwaiting.dropped,
      hwaiting.endedAtOnce, hwaiting.polled, hwaiting.responseBytes⟩
  · exact .inr ⟨hfinished, record, hrecords, hrecorded.method, hrecorded.completion,
      hrecorded.polled, hrecorded.responseBytes, hrecorded.finished, hrecorded.dropped,
      hrecorded.released⟩

theorem Request.Good.dropHandle {r : Request} {records : List Record} (h : r.Good records) (id : ℕ)
    (hhandles : r.handles ≠ 0) {r' : Request} (hr' : r' = { r with handles := r.handles - 1 }) :
    Request.Good r'.release.1 (records ++ r'.release.2.map (r'.release.1.record id)) := by
  rcases h with ⟨hfinished, rfl, hwaiting⟩ | ⟨hfinished, record, rfl, hrecorded⟩
  · by_cases hheld : r'.held = true
    · rw [Request.release, if_pos hheld]
      subst hr'
      exact .inl ⟨hfinished, rfl, hheld, hwaiting.finished, hwaiting.dropped, hwaiting.endedAtOnce,
        hwaiting.polled, hwaiting.responseBytes⟩
    · -- the last handle, and there is no body: one that is there holds a handle
      have hbody : r.body = none := by
        cases hbody : r.body with
        | none => rfl
        | some body =>
          refine absurd ?_ hheld
          rw [hr', Request.held]
          dsimp only
          rw [hbody]
          dsimp only
          rw [hwaiting.dropped body hbody, Bool.not_false, Bool.or_true]
      have hbody' : r'.body = none := by rw [hr', hbody]
      have hzero : r'.handles = 0 := by
        unfold Request.held at hheld
        rw [hbody', Bool.or_false, decide_eq_true_iff] at hheld
        exact Nat.eq_zero_of_not_pos hheld
      rw [Request.release, if_neg hheld, List.nil_append]
      refine Request.good_finish id (by rw [hr', hfinished]) ?_ ?_ ?_ ?_ fun _ => hzero
      · rw [Request.completion, hbody']
      · rw [Request.polled, hbody', yielded_nil]
      · rw [hbody']
        rintro body ⟨⟩
      · rw [hbody']
        rintro body ⟨⟩
  · rw [Request.release_of_finished (by rw [hr', hfinished])]
    subst hr'
    exact .inr ⟨hfinished, record, rfl, hrecorded.method, hrecorded.completion, hrecorded.polled,
      hrecorded.responseBytes, hrecorded.finished, hrecorded.dropped,
      fun hbody => absurd (hrecorded.released hbody) hhandles⟩

theorem Request.Good.instrument {r : Request} {records : List Record} (h : r.Good records) (id : ℕ)
    (hhandles : r.handles ≠ 0) (hbody : r.body = none) (status : ℕ) (endedAtOnce : Bool) :
    Request.Good (r.instrument status endedAtOnce).1
      (records ++ (r.instrument status endedAtOnce).2.map
        ((r.instrument status endedAtOnce).1.record id)) := by
  rcases h with ⟨hfinished, rfl, hwaiting⟩ | ⟨hfinished, record, rfl, hrecorded⟩
  · unfold Request.instrument
    cases endedAtOnce with
    | true =>
      dsimp only
      rw [if_pos rfl, List.nil_append]
      refine Request.good_finish id ?_ rfl rfl ?_ ?_ ?_
      · exact hfinished
      · rintro body ⟨⟩
        rfl
      · rintro body ⟨⟩
        exact .inr (by decide)
      · rintro ⟨⟩
    | false =>
      dsimp only
      rw [if_neg (by decide)]
      refine .inl ⟨hfinished, rfl, ?_, ?_, ?_, ?_, ?_, ?_⟩
      · exact Bool.or_true _
      all_goals rintro body ⟨⟩
      · rfl
      · rfl
      · rfl
      · rintro polled ⟨⟩
      · rfl
  · exact absurd (hrecorded.released hbody) hhandles

section Running

-- a body that was neither at its end nor failed
variable {body : CompletionBody} (hended : body.endedAtOnce = false)
  (hpolled : ∀ polled ∈ body.polled, polled.completion = none)

include hpolled in
theorem CompletionBody.failed_notMem : .failed ∉ body.polled := by
  intro hmem
  cases hpolled _ hmem

include hended hpolled in
theorem CompletionBody.not_hasEnded : body.hasEnded = false := by
  unfold CompletionBody.hasEnded
  rw [hended, Bool.false_or, List.any_eq_false]
  intro p hp hend
  have hnone := hpolled p hp
  cases p with
  | frame data last =>
    cases last with
    | true => cases hnone
    | false => cases hend
  | failed => cases hend
  | ended => cases hnone
  | pending => cases hend

include hended hpolled in
theorem CompletionBody.completion_running : body.completion = .bodyDropped := by
  unfold CompletionBody.completion
  rw [if_neg (CompletionBody.failed_notMem hpolled), CompletionBody.not_hasEnded hended hpolled]
  rfl

include hended hpolled in
theorem CompletionBody.completion_count (polled : Polled) :
    (body.count polled).completion = polled.completion.getD .bodyDropped := by
  have hfailed : .failed ∈ body.polled ++ [polled] ↔ polled = .failed := by
    rw [List.mem_append, List.mem_singleton, eq_comm]
    exact or_iff_right (CompletionBody.failed_notMem hpolled)
  unfold CompletionBody.completion
  rw [CompletionBody.hasEnded_count, CompletionBody.not_hasEnded hended hpolled, Bool.false_or]
  show (if .failed ∈ body.polled ++ [polled] then _ else _) = _
  simp only [hfailed]
  cases polled with
  | frame data last => cases last <;> rfl
  | failed => rfl
  | ended => rfl
  | pending => rfl

end Running

theorem CompletionBody.completion_count_of_ne {body : CompletionBody} {polled : Polled}
    (hreturn : body.mayReturn polled = true) (hne : body.completion ≠ .bodyDropped) :
    (body.count polled).completion = body.completion := by
  unfold CompletionBody.completion at hne ⊢
  rw [CompletionBody.hasEnded_count]
  show (if .failed ∈ body.polled ++ [polled] then _ else _) = _
  by_cases hfailed : .failed ∈ body.polled
  · rw [if_pos (List.mem_append_left _ hfailed), if_pos hfailed]
  · rw [if_neg hfailed] at hne
    have hended : body.hasEnded = true := by
      by_contra hended
      exact hne (if_neg hended)
    have hnot : .failed ∉ body.polled ++ [polled] := by
      rw [List.mem_append, List.mem_singleton]
      rintro (hmem | rfl)
      · exact hfailed hmem
      · unfold CompletionBody.mayReturn at hreturn
        rw [hended] at hreturn
        cases hreturn
    rw [hended, Bool.true_or, if_neg hfailed, if_neg hnot]

theorem Request.completion_of_body {r : Request} {body : CompletionBody}
    (h : r.body = some body) : r.completion = body.completion := by
  unfold Request.completion
  rw [h]

theorem Request.polled_of_body {r : Request} {body : CompletionBody} (h : r.body = some body) :
    r.polled = body.polled := by
  unfold Request.polled
  rw [h]

theorem Polled.completion_ne {polled : Polled} {completion : Completion}
    (h : polled.completion = some completion) : completion ≠ .bodyDropped := by
  rintro rfl
  cases polled with
  | frame data last => cases last <;> cases h
  | failed => cases h
  | ended => cases h
  | pending => cases h

theorem Request.Good.poll {r : Request} {records : List Record} (h : r.Good records) (id : ℕ)
    {body : CompletionBody} (hbody : r.body = some body) (hdropped : body.dropped = false)
    {polled : Polled} (hreturn : body.mayReturn polled = true) :
    Request.Good (r.poll body polled).1
      (records ++ (r.poll body polled).2.map ((r.poll body polled).1.record id)) := by
  rcases h with ⟨hfinished, rfl, hwaiting⟩ | ⟨hfinished, record, rfl, hrecorded⟩
  · have hcompletion := CompletionBody.completion_count (hwaiting.endedAtOnce body hbody)
      (hwaiting.polled body hbody) polled
    have hbytes := CompletionBody.responseBytes_count (hwaiting.responseBytes body hbody) polled
    unfold Request.poll
    cases hpolled : polled.completion with
    | some completion =>
      rw [hpolled] at hcompletion
      dsimp only
      rw [Request.finishBody, if_neg (by
        show ¬ body.finished = true
        rw [hwaiting.finished body hbody]
        decide), List.nil_append]
      refine Request.good_finish id ?_ ?_ ?_ ?_ ?_ ?_
      · exact hfinished
      · exact hcompletion.symm
      · exact hbytes
      · rintro body' ⟨⟩
        rfl
      · rintro body' ⟨⟩
        exact .inr (Polled.completion_ne hpolled)
      · rintro ⟨⟩
    | none =>
      dsimp only
      refine .inl ⟨hfinished, rfl, ?_, ?_, ?_, ?_, ?_, ?_⟩
      · show (0 < r.handles || !body.dropped) = true
        rw [hdropped, Bool.not_false, Bool.or_true]
      all_goals rintro body' ⟨⟩
      · exact hwaiting.finished body hbody
      · exact hdropped
      · exact hwaiting.endedAtOnce body hbody
      · intro p hp
        rcases List.mem_append.mp hp with hold | hnew
        · exact hwaiting.polled body hbody p hold
        · rw [List.mem_singleton.mp hnew]
          exact hpolled
      · exact hbytes
  · have hne : body.completion ≠ .bodyDropped := by
      rw [← Request.completion_of_body hbody, ← hrecorded.completion]
      exact (hrecorded.dropped body hbody).resolve_left (by rw [hdropped]; decide)
    have hkeep := CompletionBody.completion_count_of_ne hreturn hne
    have hrecord : Request.Recorded { r with body := some (body.count polled) } record := by
      refine ⟨hrecorded.method, ?_, ?_, hrecorded.responseBytes, ?_, ?_, ?_⟩
      · rw [hrecorded.completion, Request.completion_of_body hbody, ← hkeep]
        rfl
      · have hpolled := hrecorded.polled
        rw [Request.polled_of_body hbody] at hpolled
        exact hpolled.trans (List.prefix_append _ _)
      · rintro body' ⟨⟩
        exact hrecorded.finished body hbody
      · rintro body' ⟨⟩
        exact hrecorded.dropped body hbody
      · rintro ⟨⟩
    have hsame : r.poll body polled = ({ r with body := some (body.count polled) }, []) := by
      unfold Request.poll
      dsimp only
      cases polled.completion with
      | some completion =>
        have hfinished : (body.count polled).finished = true := hrecorded.finished body hbody
        dsimp only
        rw [Request.finishBody, if_pos hfinished]
      | none => rfl
    rw [hsame]
    exact .inr ⟨hfinished, record, rfl, hrecord⟩

theorem Request.Good.dropBody {r : Request} {records : List Record} (h : r.Good records) (id : ℕ)
    {body : CompletionBody} (hbody : r.body = some body) :
    Request.Good (r.dropBody body).1
      (records ++ (r.dropBody body).2.map ((r.dropBody body).1.record id)) := by
  rcases h with ⟨hfinished, rfl, hwaiting⟩ | ⟨hfinished, record, rfl, hrecorded⟩
  · have hdrop : r.finishBody { body with dropped := true } .bodyDropped =
        ({ r with
            body := some { body with dropped := true, finished := true }
            finished := true }, [⟨.bodyDropped, body.responseBytes⟩]) := by
      have hrunning : ¬ body.finished = true := by
        rw [hwaiting.finished body hbody]
        decide
      rw [Request.finishBody, if_neg hrunning]
      exact Request.finish_of_not
        (r := { r with body := some { body with dropped := true, finished := true } }) hfinished _ _
    unfold Request.dropBody
    rw [hdrop]
    dsimp only
    rw [Request.release_of_finished rfl]
    refine .inr ⟨rfl, _, rfl, rfl, ?_, List.prefix_rfl, hwaiting.responseBytes body hbody, ?_, ?_, ?_⟩
    · exact (CompletionBody.completion_running (hwaiting.endedAtOnce body hbody)
        (hwaiting.polled body hbody)).symm
    · rintro body' ⟨⟩
      rfl
    · rintro body' ⟨⟩
      exact .inl rfl
    · rintro ⟨⟩
  · have hdrop : r.finishBody { body with dropped := true } .bodyDropped =
        ({ r with body := some { body with dropped := true } }, []) := by
      rw [Request.finishBody, if_pos (hrecorded.finished body hbody)]
    unfold Request.dropBody
    rw [hdrop]
    dsimp only
    rw [Request.release_of_finished (r := { r with body := some { body with dropped := true } })
      hfinished]
    refine .inr ⟨hfinished, record, rfl, hrecorded.method, ?_, ?_, hrecorded.responseBytes, ?_, ?_, ?_⟩
    · rw [hrecorded.completion, Request.completion_of_body hbody]
      rfl
    · have hpolled := hrecorded.polled
      rw [Request.polled_of_body hbody] at hpolled
      exact hpolled
    · rintro body' ⟨⟩
      exact hrecorded.finished body hbody
    · rintro body' ⟨⟩
      exact .inl rfl
    · rintro ⟨⟩

/-- **One step of a request.** Its records are right after it, with those it adds. -/
theorem Request.Good.step {r : Request} {records : List Record} (h : r.Good records) (id : ℕ)
    {label : RequestLabel} {next : Request × List Finish} (hnext : r.step label = some next) :
    next.1.Good (records ++ next.2.map (next.1.record id)) := by
  cases label with
  | clone =>
    obtain ⟨hhandles, hnext⟩ := Option.ite_none_left_eq_some.mp hnext
    obtain rfl := Option.some.inj hnext
    rw [List.map_nil, List.append_nil]
    exact h.clone hhandles
  | update update =>
    obtain ⟨-, hnext⟩ := Option.ite_none_left_eq_some.mp hnext
    obtain rfl := Option.some.inj hnext
    rw [List.map_nil, List.append_nil]
    exact h.update _
  | dropHandle =>
    obtain ⟨hhandles, hnext⟩ := Option.ite_none_left_eq_some.mp hnext
    obtain rfl := Option.some.inj hnext
    exact h.dropHandle id hhandles rfl
  | instrument status endedAtOnce =>
    obtain ⟨hguard, hnext⟩ := Option.ite_none_left_eq_some.mp hnext
    obtain rfl := Option.some.inj hnext
    rw [Bool.or_eq_true, not_or, decide_eq_true_iff, Option.not_isSome_iff_eq_none] at hguard
    exact h.instrument id hguard.1 hguard.2 status endedAtOnce
  | poll polled =>
    cases hbody : r.body with
    | none =>
      rw [Request.step, hbody] at hnext
      cases hnext
    | some body =>
      rw [Request.step, hbody] at hnext
      obtain ⟨hguard, hnext⟩ := Option.ite_none_left_eq_some.mp hnext
      obtain rfl := Option.some.inj hnext
      rw [Bool.or_eq_true, not_or, Bool.not_eq_true, Bool.not_eq_true', Bool.not_eq_false] at hguard
      exact h.poll id hbody hguard.1 hguard.2
  | dropBody =>
    cases hbody : r.body with
    | none =>
      rw [Request.step, hbody] at hnext
      cases hnext
    | some body =>
      rw [Request.step, hbody] at hnext
      obtain ⟨-, hnext⟩ := Option.ite_none_left_eq_some.mp hnext
      obtain rfl := Option.some.inj hnext
      exact h.dropBody id hbody

theorem Request.Good.step_cases {r : Request} {records : List Record} (h : r.Good records) (id : ℕ)
    {label : RequestLabel} {next : Request × List Finish} (hnext : r.step label = some next) :
    next.2 = [] ∧ next.1.finished = r.finished ∨
      ∃ finish, next.2 = [finish] ∧ r.finished = false ∧ next.1.finished = true := by
  have hgood := h.step id hnext
  rcases h with ⟨hfinished, rfl, -⟩ | ⟨hfinished, record, rfl, -⟩
  · rcases hgood with ⟨hfinished', hrecords, -⟩ | ⟨hfinished', record', hrecords, -⟩
    · rw [List.nil_append, List.map_eq_nil_iff] at hrecords
      exact .inl ⟨hrecords, hfinished'.trans hfinished.symm⟩
    · rw [List.nil_append, List.map_eq_singleton_iff] at hrecords
      obtain ⟨finish, hfinish, -⟩ := hrecords
      exact .inr ⟨finish, hfinish, hfinished, hfinished'⟩
  · rcases hgood with ⟨-, hrecords, -⟩ | ⟨hfinished', record', hrecords, -⟩
    · cases hrecords
    · rw [List.singleton_append, List.cons.injEq, List.map_eq_nil_iff] at hrecords
      exact .inl ⟨hrecords.2, hfinished'.trans hfinished.symm⟩

/-! ## The server -/

def State.recordsOf (s : State) (id : ℕ) : List Record := s.records.filter fun r => r.request = id

def State.isFinished (s : State) (id : ℕ) : Bool := (s.request id).any Request.finished

/-- The requests whose completion was recorded. -/
def State.finishedIds (s : State) : Finset ℕ := (Finset.range s.started).filter (s.isFinished ·)

def Record.index (record : Record) : Fin (5 * 11 * 3) :=
  requestIndex record.destination record.method record.completion

structure State.Good (s : State) : Prop where
  request : ∀ id r, s.request id = some r → r.Good (s.recordsOf id)
  started : ∀ id r, s.request id = some r → id < s.started
  records : ∀ record ∈ s.records, record.request < s.started
  active : s.metrics.requests.current + s.records.length = s.started
  underflowed : s.metrics.requests.underflowed = false
  finished : s.finishedIds.card = s.records.length
  totals : ∀ index, s.metrics.requestTotals index = s.records.countP (·.index = index)

theorem State.good_init : State.init.Good := by
  refine ⟨?_, ?_, ?_, rfl, rfl, rfl, fun _ => rfl⟩
  · rintro id r ⟨⟩
  · rintro id r ⟨⟩
  · rintro record ⟨⟩

theorem State.put_self (s : State) (id : ℕ) (r : Request) : (s.put id r).request id = some r :=
  Function.update_self _ _ _

theorem State.put_of_ne {s : State} {id k : ℕ} (hk : k ≠ id) (r : Request) :
    (s.put id r).request k = s.request k := Function.update_of_ne hk _ _

theorem State.mem_finishedIds {s : State} {id : ℕ} :
    id ∈ s.finishedIds ↔ id < s.started ∧ s.isFinished id = true := by
  rw [State.finishedIds, Finset.mem_filter, Finset.mem_range]

theorem State.isFinished_of_request {s : State} {id : ℕ} {r : Request} (h : s.request id = some r) :
    s.isFinished id = r.finished := by
  unfold State.isFinished
  rw [h]
  rfl

theorem State.isFinished_congr {s s' : State} {id : ℕ} (h : s'.request id = s.request id) :
    s'.isFinished id = s.isFinished id := by
  unfold State.isFinished
  rw [h]

/-- The state after `start_request`. -/
def State.start (s : State) (r : Request) : State :=
  { s.put s.started r with
    metrics := s.metrics.requestStarted
    started := s.started + 1 }

theorem State.Good.start {s : State} (h : s.Good) {r : Request} (hfinished : r.finished = false)
    (hwaiting : r.Waiting) : (s.start r).Good := by
  have hself : (s.start r).request s.started = some r := s.put_self _ r
  have hother {id : ℕ} (hid : id ≠ s.started) : (s.start r).request id = s.request id :=
    State.put_of_ne hid r
  have hnone : s.recordsOf s.started = [] := by
    refine List.filter_eq_nil_iff.mpr fun record hrecord => ?_
    rw [decide_eq_true_iff]
    exact Nat.ne_of_lt (h.records record hrecord)
  have hids : (s.start r).finishedIds = s.finishedIds := by
    ext id
    rw [State.mem_finishedIds, State.mem_finishedIds]
    by_cases hid : id = s.started
    · rw [hid, State.isFinished_of_request hself, hfinished]
      simp
    · rw [State.isFinished_congr (hother hid)]
      refine and_congr_left fun _ => ?_
      show id < s.started + 1 ↔ id < s.started
      omega
  refine ⟨fun id q hq => ?_, fun id q hq => ?_, fun record hrecord => ?_, ?_, h.underflowed, ?_,
    h.totals⟩
  · by_cases hid : id = s.started
    · subst hid
      obtain rfl := Option.some.inj (hself.symm.trans hq)
      exact .inl ⟨hfinished, hnone, hwaiting⟩
    · exact h.request id q ((hother hid).symm.trans hq)
  · show id < s.started + 1
    by_cases hid : id = s.started
    · omega
    · exact Nat.lt_succ_of_lt (h.started id q ((hother hid).symm.trans hq))
  · exact Nat.lt_succ_of_lt (h.records record hrecord)
  · show s.metrics.requests.current + 1 + s.records.length = s.started + 1
    rw [← h.active]
    omega
  · rw [hids]
    exact h.finished

theorem State.Good.put {s : State} (h : s.Good) {id : ℕ} {r r' : Request}
    (hr : s.request id = some r) (hfinished : r'.finished = r.finished)
    (hgood : r'.Good (s.recordsOf id)) : (s.put id r').Good := by
  have hids : (s.put id r').finishedIds = s.finishedIds := by
    ext k
    rw [State.mem_finishedIds, State.mem_finishedIds]
    by_cases hk : k = id
    · rw [hk, State.isFinished_of_request (s.put_self id r'), State.isFinished_of_request hr,
        hfinished]
      rfl
    · rw [State.isFinished_congr (State.put_of_ne hk r')]
      rfl
  refine ⟨fun k q hq => ?_, fun k q hq => ?_, h.records, h.active, h.underflowed, ?_, h.totals⟩
  · by_cases hk : k = id
    · subst hk
      obtain rfl := Option.some.inj ((s.put_self k r').symm.trans hq)
      exact hgood
    · exact h.request k q ((State.put_of_ne hk r').symm.trans hq)
  · by_cases hk : k = id
    · rw [hk]
      exact h.started id r hr
    · exact h.started k q ((State.put_of_ne hk r').symm.trans hq)
  · rw [hids]
    exact h.finished

theorem State.Good.finish {s : State} (h : s.Good) {id : ℕ} {r r' : Request} {f : Finish}
    (hr : s.request id = some r) (hopen : r.finished = false) (hfinished : r'.finished = true)
    (hgood : r'.Good (s.recordsOf id ++ [r'.record id f])) :
    (State.finish r' id (s.put id r') f).Good := by
  have hself : (State.finish r' id (s.put id r') f).request id = some r' := s.put_self id r'
  have hother {k : ℕ} (hk : k ≠ id) :
      (State.finish r' id (s.put id r') f).request k = s.request k := State.put_of_ne hk r'
  have hid := h.started id r hr
  have hnot : id ∉ s.finishedIds := by
    rw [State.mem_finishedIds, State.isFinished_of_request hr, hopen]
    exact fun hmem => absurd hmem.2 (by decide)
  have hids : (State.finish r' id (s.put id r') f).finishedIds = insert id s.finishedIds := by
    ext k
    rw [Finset.mem_insert, State.mem_finishedIds, State.mem_finishedIds]
    by_cases hk : k = id
    · rw [hk, State.isFinished_of_request hself, hfinished]
      exact ⟨fun _ => .inl rfl, fun _ => ⟨hid, rfl⟩⟩
    · rw [State.isFinished_congr (hother hk), or_iff_right hk]
      rfl
  -- another request is still open, so the gauge is not at 0
  have hlt : s.records.length < s.started := by
    rw [← h.finished, ← Finset.card_range s.started]
    refine Finset.card_lt_card ⟨Finset.filter_subset _ _, fun hsub => hnot (hsub ?_)⟩
    exact Finset.mem_range.mpr hid
  have hpos : s.metrics.requests.current ≠ 0 := by
    have hactive := h.active
    omega
  have hdecrement : (State.finish r' id (s.put id r') f).metrics.requests =
      { s.metrics.requests with current := s.metrics.requests.current - 1 } := if_neg hpos
  refine ⟨fun k q hq => ?_, fun k q hq => ?_, fun record hrecord => ?_, ?_, ?_, ?_, fun index => ?_⟩
  · show q.Good ((s.records ++ [r'.record id f]).filter fun r => r.request = k)
    rw [List.filter_append]
    by_cases hk : k = id
    · subst hk
      obtain rfl := Option.some.inj (hself.symm.trans hq)
      rw [List.filter_singleton, show (r'.record k f).request = k from rfl, decide_eq_true rfl]
      exact hgood
    · have hne : ¬ (r'.record id f).request = k := Ne.symm hk
      rw [List.filter_singleton, decide_eq_false hne]
      rw [hother hk] at hq
      simpa [State.recordsOf] using h.request k q hq
  · by_cases hk : k = id
    · rw [hk]
      exact hid
    · exact h.started k q ((hother hk).symm.trans hq)
  · rcases List.mem_append.mp hrecord with hold | hnew
    · exact h.records record hold
    · rw [List.mem_singleton.mp hnew]
      exact hid
  · rw [hdecrement]
    show s.metrics.requests.current - 1 + (s.records ++ [_]).length = s.started
    rw [List.length_append, List.length_singleton, ← h.active]
    omega
  · rw [hdecrement]
    exact h.underflowed
  · rw [hids, Finset.card_insert_of_notMem hnot, h.finished]
    show s.records.length + 1 = (s.records ++ [r'.record id f]).length
    rw [List.length_append, List.length_singleton]
  · show fetchAdd s.metrics.requestTotals (r'.record id f).index 1 index =
      (s.records ++ [r'.record id f]).countP _
    rw [List.countP_append, List.countP_singleton, fetchAdd]
    by_cases hindex : index = (r'.record id f).index
    · rw [hindex, Function.update_self, h.totals, decide_eq_true rfl]
      rfl
    · rw [Function.update_of_ne hindex, h.totals, decide_eq_false (Ne.symm hindex)]
      rfl

theorem State.Good.step {s s' : State} {label : Label} (h : s.Good)
    (hs : Telemetry.step s label = some s') : s'.Good := by
  cases label with
  | start method =>
    obtain rfl := Option.some.inj hs
    refine h.start (r := ⟨.fromMethod method, .default, false, 1, none⟩) rfl ⟨rfl, ?_, ?_, ?_, ?_, ?_⟩
    all_goals rintro body ⟨⟩
  | request id label =>
    cases hr : s.request id with
    | none =>
      rw [Telemetry.step, hr] at hs
      cases hs
    | some r =>
      rw [Telemetry.step, hr] at hs
      obtain ⟨next, hnext, rfl⟩ := Option.map_eq_some_iff.mp hs
      have hgood := (h.request id r hr).step id hnext
      rcases (h.request id r hr).step_cases id hnext with ⟨hnil, hsame⟩ | ⟨f, hf, hopen, hfinished⟩
      · rw [hnil] at hgood ⊢
        rw [List.map_nil, List.append_nil] at hgood
        exact h.put hr hsame hgood
      · rw [hf] at hgood ⊢
        exact h.finish hr hopen hfinished hgood

theorem State.good_of_reachable {s : State} (hs : machine.Reachable s) : s.Good :=
  machine.invariant (P := State.Good) State.good_init (fun _ _ _ h hstep => h.step hstep) hs

/-! ## The cells -/

theorem Destination.index_inj {a b : Destination} (h : a.index = b.index) : a = b := by
  revert h
  cases a <;> cases b <;> decide

theorem MethodClass.index_inj {a b : MethodClass} (h : a.index = b.index) : a = b := by
  revert h
  cases a <;> cases b <;> decide

theorem Completion.index_inj {a b : Completion} (h : a.index = b.index) : a = b := by
  revert h
  cases a <;> cases b <;> decide

theorem requestIndex_inj {destination destination' : Destination} {method method' : MethodClass}
    {completion completion' : Completion} :
    requestIndex destination method completion = requestIndex destination' method' completion' ↔
      destination = destination' ∧ method = method' ∧ completion = completion' := by
  constructor
  · intro h
    have hval := congrArg Fin.val h
    have hmethod := method.index.isLt
    have hmethod' := method'.index.isLt
    have hcompletion := completion.index.isLt
    have hcompletion' := completion'.index.isLt
    unfold requestIndex at hval
    dsimp only at hval
    refine ⟨Destination.index_inj (Fin.ext ?_), MethodClass.index_inj (Fin.ext ?_),
      Completion.index_inj (Fin.ext ?_)⟩
    all_goals omega
  · rintro ⟨rfl, rfl, rfl⟩
    rfl

theorem sum_countP_index (records : List Record) :
    ∑ index, records.countP (·.index = index) = records.length := by
  induction records with
  | nil => exact Finset.sum_const_zero
  | cons record records ih =>
    have hone : ∑ index, (if decide (record.index = index) = true then 1 else 0) = 1 := by
      simp
    calc ∑ index, (record :: records).countP (·.index = index)
        = ∑ index, (records.countP (·.index = index) +
            if decide (record.index = index) = true then 1 else 0) :=
          Finset.sum_congr rfl fun index _ => List.countP_cons
      _ = records.length + 1 := by rw [Finset.sum_add_distrib, ih, hone]

/-- Two requests: the body of the first fails after a frame, the second has no response. -/
def twoRequests : List Label :=
  [.start .get, .start .post, .request 0 .clone, .request 0 (.update (.setDestination .roc)),
    .request 0 (.instrument 200 false), .request 1 (.update (.reject .shutdown)),
    .request 0 (.poll (.frame (some 5) false)), .request 0 (.poll .pending), .request 1 .dropHandle,
    .request 0 (.poll .failed), .request 0 (.poll (.frame (some 9) true)), .request 0 .dropHandle,
    .request 0 .dropBody]

end BasicWebserver.Telemetry
