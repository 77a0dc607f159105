import BasicWebserver.Foundation.Machine
import Mathlib.Algebra.Group.Nat.Defs
import Mathlib.Logic.Function.Basic

/-!
# Histograms

`Histogram` of `src/telemetry.rs`. A call of `record` adds to the counters one after the other, and a
call of `render` loads them one after the other; both go through the buckets in the order of their
bounds. Here each addition and each load is a step of its own, and any number of calls of either kind
is under way at the same time.

What is loaded last is not behind: `record` adds to `count` first and `render` loads it last. But a
`record` that is between two buckets when `render` loads the second one is in the first and not in the
second. The text around the numbers is left out.
-/

namespace BasicWebserver.Telemetry

open Transition

/-- The bounds as they are written, in thousandths of a second. -/
def durationBucketsSeconds : List ℕ :=
  [5, 10, 25, 50, 75, 100, 250, 500, 750, 1000, 2500, 5000, 7500, 10000]

def durationBucketsMicros : List ℕ :=
  [5000, 10000, 25000, 50000, 75000, 100000, 250000, 500000, 750000, 1000000, 2500000, 5000000,
    7500000, 10000000]

inductive Counter
  | count
  | sumMicros
  | bucket (i : ℕ)
  deriving DecidableEq

structure Histogram where
  buckets : ℕ → ℕ := fun _ => 0
  count : ℕ := 0
  sumMicros : ℕ := 0

namespace Histogram

def load (h : Histogram) : Counter → ℕ
  | .count => h.count
  | .sumMicros => h.sumMicros
  | .bucket i => h.buckets i

/-- `fetch_add` on a counter. -/
def fetchAdd (h : Histogram) (counter : Counter) (n : ℕ) : Histogram :=
  match counter with
  | .count => { h with count := (h.count + n) % 2 ^ 64 }
  | .sumMicros => { h with sumMicros := (h.sumMicros + n) % 2 ^ 64 }
  | .bucket i => { h with buckets := Function.update h.buckets i ((h.buckets i + n) % 2 ^ 64) }

theorem load_fetchAdd (h : Histogram) (counter : Counter) (n : ℕ) (c : Counter) :
    (h.fetchAdd counter n).load c =
      if c = counter then (h.load c + n) % 2 ^ 64 else h.load c := by
  cases counter with
  | count => cases c <;> rfl
  | sumMicros => cases c <;> rfl
  | bucket i =>
    cases c with
    | count => rfl
    | sumMicros => rfl
    | bucket j =>
      simp only [load, fetchAdd, Function.update_apply, Counter.bucket.injEq]
      by_cases hj : j = i
      · rw [if_pos hj, if_pos hj, hj]
      · rw [if_neg hj, if_neg hj]

end Histogram

/-- `duration.as_micros()`, at most the largest word. -/
def asMicros (nanos : ℕ) : ℕ := min (nanos / 1000) (2 ^ 64 - 1)

/-- The counters that `record` adds to, in order. -/
def recorded (micros : ℕ) : List Counter :=
  .count :: .sumMicros ::
    (durationBucketsMicros.zipIdx.filter (micros ≤ ·.1)).map fun bucket => .bucket bucket.2

/-- What a call adds to a counter. -/
def amount (micros : ℕ) : Counter → ℕ
  | .sumMicros => micros
  | _ => 1

/-- A call of `record`, with the counters that it has added to and those that are left. -/
structure RecordCall where
  micros : ℕ
  done : List Counter := []
  rest : List Counter := recorded micros

/-- A call of `render`, with what it has loaded. -/
structure RenderCall where
  buckets : List ℕ := []
  count : Option ℕ := none
  sumMicros : Option ℕ := none

/-- The numbers of an exposition; each bucket is below its bound. -/
structure Exposition where
  buckets : List (ℕ × ℕ)
  infinity : ℕ
  sumMicros : ℕ
  count : ℕ
  deriving DecidableEq

namespace RenderCall

def next (r : RenderCall) (h : Histogram) : Option RenderCall :=
  if r.buckets.length < durationBucketsSeconds.length then
    some { r with buckets := r.buckets ++ [h.load (.bucket r.buckets.length)] }
  else
    match r.count, r.sumMicros with
    | none, _ => some { r with count := some (h.load .count) }
    | some _, none => some { r with sumMicros := some (h.load .sumMicros) }
    | some _, some _ => none

/-- What is written once everything is loaded. -/
def exposition (r : RenderCall) : Option Exposition := do
  let count ← r.count
  let sumMicros ← r.sumMicros
  some ⟨durationBucketsSeconds.zip r.buckets, count, sumMicros, count⟩

end RenderCall

namespace Exposition

/-- The last finite bucket is at most the bucket without a bound, which is the count. -/
def Bounded (e : Exposition) : Prop :=
  e.infinity = e.count ∧ ∀ bucket ∈ e.buckets.getLast?, bucket.2 ≤ e.count

/-- Each bucket is at most those with a larger bound. -/
def Cumulative (e : Exposition) : Prop :=
  e.buckets.Pairwise (fun b b' => b.1 < b'.1 ∧ b.2 ≤ b'.2) ∧ e.Bounded

end Exposition

/-! ## Interleavings -/

structure Recording where
  histogram : Histogram := {}
  records : List RecordCall := []
  renders : List RenderCall := []

namespace Recording

inductive Action
  | record (nanos : ℕ)
  /-- The next addition of a call of `record`. -/
  | add (k : ℕ)
  | render
  /-- The next load of a call of `render`. -/
  | load (k : ℕ)

def step (s : Recording) : Action → Option Recording
  | .record nanos => some { s with records := s.records ++ [{ micros := asMicros nanos }] }
  | .add k => do
    let call ← s.records[k]?
    match call.rest with
    | [] => none
    | counter :: rest =>
      some { s with
        histogram := s.histogram.fetchAdd counter (amount call.micros counter)
        records := s.records.set k { call with done := call.done ++ [counter], rest } }
  | .render => some { s with renders := s.renders ++ [{}] }
  | .load k => do
    let call ← s.renders[k]?
    let call ← call.next s.histogram
    some { s with renders := s.renders.set k call }

def machine : Machine Recording Action := ⟨{}, step⟩

/-- The calls of `record` that have added to a counter. -/
def passed (s : Recording) (counter : Counter) : ℕ := s.records.countP (counter ∈ ·.done)

/-- When `render` loads a bucket, no call of `record` is between the bucket before it and this one. -/
def Settled (s : Recording) : Action → Prop
  | .load k => ∀ r ∈ s.renders[k]?, ∀ i < durationBucketsSeconds.length - 1,
    r.buckets.length = i + 1 →
    ∀ call ∈ s.records, .bucket i ∈ call.done → .bucket (i + 1) ∈ call.done
  | _ => True

instance (s : Recording) (a : Action) : Decidable (Settled s a) := by
  cases a <;> unfold Settled <;> infer_instance

/-! ## What the counters count -/

theorem recorded_nodup (micros : ℕ) : (recorded micros).Nodup := by
  have hall : (Counter.count :: .sumMicros ::
      durationBucketsMicros.zipIdx.map fun bucket => Counter.bucket bucket.2).Nodup := by decide
  have hbuckets := (List.filter_sublist (p := fun b : ℕ × ℕ => decide (micros ≤ b.1))
    (l := durationBucketsMicros.zipIdx)).map fun bucket => Counter.bucket bucket.2
  exact ((hbuckets.cons_cons _).cons_cons _).nodup hall

variable {s t : Recording} {a : Action} {r r' : RenderCall} {c : Counter}

/-- What holds of the calls of `record` in every state. -/
structure Sound (s : Recording) : Prop where
  split : ∀ call ∈ s.records, call.done ++ call.rest = recorded call.micros
  counts : ∀ c ≠ .sumMicros, s.histogram.load c = s.passed c % 2 ^ 64

theorem passed_le (s : Recording) (c : Counter) : s.passed c ≤ s.records.length := List.countP_le_length

/-- A call that has added to anything has added to `count`. -/
theorem Sound.passed_le_count (h : Sound s) (c : Counter) : s.passed c ≤ s.passed .count := by
  refine List.countP_mono_left fun call hcall hc => ?_
  have hsplit := h.split call hcall
  have hmem : c ∈ call.done := of_decide_eq_true hc
  cases hdone : call.done with
  | nil =>
    rw [hdone] at hmem
    cases hmem
  | cons first done =>
    rw [hdone, List.cons_append] at hsplit
    rw [(List.cons.inj hsplit).1]
    exact decide_eq_true List.mem_cons_self

theorem Sound.passed_add (h : Sound s) {k : ℕ} {call : RecordCall} {counter : Counter}
    {rest : List Counter} (hcall : s.records[k]? = some call) (hrest : call.rest = counter :: rest)
    (c : Counter) :
    (s.records.set k { call with done := call.done ++ [counter], rest }).countP (c ∈ ·.done) =
      s.passed c + if c = counter then 1 else 0 := by
  obtain ⟨hk, hget⟩ := List.getElem?_eq_some_iff.mp hcall
  have hnodup := h.split call (List.mem_of_getElem? hcall) ▸ recorded_nodup call.micros
  have hnew : counter ∉ call.done := by
    rw [hrest] at hnodup
    exact fun hmem => (List.nodup_append.mp hnodup).2.2 counter hmem counter List.mem_cons_self rfl
  have hpos : c ∈ call.done → 0 < s.passed c := fun hmem =>
    List.countP_pos_iff.mpr ⟨call, List.mem_of_getElem? hcall, decide_eq_true hmem⟩
  rw [List.countP_set hk, hget]
  change s.passed c - _ + _ = _
  simp only [decide_eq_true_eq, List.mem_append, List.mem_singleton]
  by_cases hc : c = counter
  · subst hc
    rw [if_neg hnew, if_pos (.inr rfl), if_pos rfl, Nat.sub_zero]
  · by_cases hmem : c ∈ call.done
    · rw [if_pos hmem, if_pos (.inl hmem), if_neg hc]
      have := hpos hmem
      omega
    · rw [if_neg hmem, if_neg (not_or.mpr ⟨hmem, hc⟩), if_neg hc, Nat.sub_zero]

/-- What a step does: it starts a call, adds to a counter or loads one. -/
inductive Steps (s : Recording) : Action → Recording → Prop
  | record (nanos : ℕ) :
    Steps s (.record nanos) { s with records := s.records ++ [{ micros := asMicros nanos }] }
  | add (k : ℕ) (call : RecordCall) (counter : Counter) (rest : List Counter)
    (hcall : s.records[k]? = some call) (hrest : call.rest = counter :: rest) :
    Steps s (.add k) { s with
      histogram := s.histogram.fetchAdd counter (amount call.micros counter)
      records := s.records.set k { call with done := call.done ++ [counter], rest } }
  | render : Steps s .render { s with renders := s.renders ++ [{}] }
  | load (k : ℕ) (call call' : RenderCall) (hcall : s.renders[k]? = some call)
    (hnext : call.next s.histogram = some call') :
    Steps s (.load k) { s with renders := s.renders.set k call' }

theorem steps_of_step (h : step s a = some t) : Steps s a t := by
  cases a with
  | record nanos =>
    cases h
    exact .record nanos
  | add k =>
    obtain ⟨call, hcall, h⟩ := Option.bind_eq_some_iff.mp h
    cases hrest : call.rest with
    | nil =>
      rw [hrest] at h
      cases h
    | cons counter rest =>
      rw [hrest] at h
      cases h
      exact .add k call counter rest hcall hrest
  | render =>
    cases h
    exact .render
  | load k =>
    obtain ⟨call, hcall, h⟩ := Option.bind_eq_some_iff.mp h
    obtain ⟨call', hnext, h⟩ := Option.bind_eq_some_iff.mp h
    cases h
    exact .load k call call' hcall hnext

theorem Sound.mono_of_step (h : Sound s) (hstep : Steps s a t) :
    s.records.length ≤ t.records.length ∧ ∀ c, s.passed c ≤ t.passed c := by
  cases hstep with
  | record nanos =>
    refine ⟨by simp, fun c => ?_⟩
    unfold passed
    rw [List.countP_append]
    exact Nat.le_add_right _ _
  | add k call counter rest hcall hrest =>
    refine ⟨by simp, fun c => ?_⟩
    unfold passed
    rw [h.passed_add hcall hrest c]
    exact Nat.le_add_right _ _
  | render => exact ⟨Nat.le_refl _, fun _ => Nat.le_refl _⟩
  | load => exact ⟨Nat.le_refl _, fun _ => Nat.le_refl _⟩

theorem Sound.of_step (h : Sound s) (hstep : Steps s a t) : Sound t := by
  cases hstep with
  | record nanos =>
    refine ⟨fun call hcall => ?_, fun c hc => ?_⟩
    · rcases List.mem_append.mp hcall with hcall | hcall
      · exact h.split call hcall
      · rw [List.mem_singleton.mp hcall]
        rfl
    · rw [h.counts c hc]
      unfold passed
      rw [List.countP_append]
      rfl
  | add k call counter rest hcall hrest =>
    refine ⟨fun call' hcall' => ?_, fun c hc => ?_⟩
    · rcases List.mem_or_eq_of_mem_set hcall' with hcall' | rfl
      · exact h.split call' hcall'
      · have hsplit := h.split call (List.mem_of_getElem? hcall)
        rw [hrest] at hsplit
        rw [← hsplit, List.append_assoc]
        rfl
    · have hamount : amount call.micros c = 1 := by
        cases c with
        | sumMicros => exact absurd rfl hc
        | count => rfl
        | bucket => rfl
      change (s.histogram.fetchAdd counter _).load c = _ % 2 ^ 64
      rw [Histogram.load_fetchAdd, passed, h.passed_add hcall hrest c, h.counts c hc]
      split_ifs with hcounter
      · rw [← hcounter, hamount, Nat.mod_add_mod]
      · rfl
  | render => exact ⟨h.split, h.counts⟩
  | load => exact ⟨h.split, h.counts⟩

/-! ## What a call of `render` has loaded -/

/-- No bucket that was loaded is ahead of the calls, and `count` is not behind the last bucket. -/
structure Read (s : Recording) (r : RenderCall) : Prop where
  seen : ∀ i, ∀ n ∈ r.buckets[i]?, n ≤ s.passed (.bucket i)
  length : r.buckets.length ≤ durationBucketsSeconds.length
  full : r.count.isSome → r.buckets.length = durationBucketsSeconds.length
  last : ∀ count ∈ r.count, ∀ n ∈ r.buckets.getLast?, n ≤ count

theorem Read.mono (h : Read s r) (hle : ∀ c, s.passed c ≤ t.passed c) : Read t r :=
  { h with seen := fun i n hn => Nat.le_trans (h.seen i n hn) (hle _) }

theorem Read.last_le (h : Read s r) {n i : ℕ} (hn : n ∈ r.buckets.getLast?)
    (hi : r.buckets.length = i + 1) : n ≤ s.passed (.bucket i) := by
  rw [List.getLast?_eq_getElem?, hi, Nat.add_sub_cancel] at hn
  exact h.seen i n hn

theorem Sound.load_eq (h : Sound s) (hwords : s.records.length < 2 ^ 64) (hc : c ≠ .sumMicros) :
    s.histogram.load c = s.passed c := by
  rw [h.counts c hc, Nat.mod_eq_of_lt (Nat.lt_of_le_of_lt (s.passed_le c) hwords)]

theorem Read.next (hs : Sound s) (hwords : s.records.length < 2 ^ 64) (h : Read s r)
    (hnext : r.next s.histogram = some r') : Read s r' := by
  unfold RenderCall.next at hnext
  split_ifs at hnext with hlength
  · obtain rfl := Option.some.inj hnext
    have hcount : r.count = none := by
      cases hcount : r.count with
      | none => rfl
      | some count => exact absurd (h.full (by rw [hcount]; rfl)) (Nat.ne_of_lt hlength)
    refine ⟨fun i n hn => ?_, ?_, ?_, ?_⟩
    · rw [List.getElem?_append] at hn
      split_ifs at hn with hi
      · exact h.seen i n hn
      · obtain ⟨hj, rfl⟩ := List.getElem?_eq_some_iff.mp hn
        have hi' : i = r.buckets.length := by
          rw [List.length_singleton] at hj
          omega
        refine Nat.le_of_eq ?_
        rw [List.getElem_singleton, hi', hs.load_eq hwords (by simp)]
    · rw [List.length_append, List.length_singleton]
      omega
    · rw [hcount]
      simp
    · rw [hcount]
      simp
  · cases hcount : r.count with
    | none =>
      rw [hcount] at hnext
      obtain rfl := Option.some.inj hnext
      have hfull : r.buckets.length = durationBucketsSeconds.length :=
        Nat.le_antisymm h.length (Nat.le_of_not_lt hlength)
      refine { h with full := fun _ => hfull, last := fun count hc n hn => ?_ }
      obtain rfl := Option.some.inj hc
      rw [hs.load_eq hwords (by simp)]
      exact Nat.le_trans (h.last_le hn hfull) (hs.passed_le_count _)
    | some count =>
      rw [hcount] at hnext
      cases hsum : r.sumMicros with
      | none =>
        rw [hsum] at hnext
        obtain rfl := Option.some.inj hnext
        rw [← hcount]
        exact { h with }
      | some sum =>
        rw [hsum] at hnext
        cases hnext

/-- As long as no counter can have wrapped around. -/
structure Tracked (s : Recording) : Prop where
  sound : Sound s
  reads : s.records.length < 2 ^ 64 → ∀ r ∈ s.renders, Read s r

theorem Tracked.of_step (h : Tracked s) (hstep : Steps s a t) : Tracked t := by
  obtain ⟨hlength, hpassed⟩ := h.sound.mono_of_step hstep
  refine ⟨h.sound.of_step hstep, fun hwords r hr => ?_⟩
  have hreads := h.reads (Nat.lt_of_le_of_lt hlength hwords)
  cases hstep with
  | record | add => exact (hreads r hr).mono hpassed
  | render =>
    rcases List.mem_append.mp hr with hr | hr
    · exact (hreads r hr).mono hpassed
    · rw [List.mem_singleton.mp hr]
      exact ⟨by simp, Nat.zero_le _, by simp, by simp⟩
  | load k call call' hcall hnext =>
    rcases List.mem_or_eq_of_mem_set hr with hr | rfl
    · exact (hreads r hr).mono hpassed
    · exact ((hreads call (List.mem_of_getElem? hcall)).next h.sound hwords hnext).mono hpassed

theorem tracked_init : Tracked {} :=
  ⟨⟨by simp, fun c _ => by cases c <;> rfl⟩, by simp⟩

/-- A load that meets the condition keeps the buckets in order. -/
theorem ordered_of_next (h : Tracked s) (hwords : s.records.length < 2 ^ 64) {k : ℕ}
    (hr : s.renders[k]? = some r) (hsettled : Settled s (.load k))
    (hordered : r.buckets.Pairwise (· ≤ ·)) (hnext : r.next s.histogram = some r') :
    r'.buckets.Pairwise (· ≤ ·) := by
  have hread := h.reads hwords r (List.mem_of_getElem? hr)
  unfold RenderCall.next at hnext
  split_ifs at hnext with hlength
  · obtain rfl := Option.some.inj hnext
    rcases List.eq_nil_or_concat r.buckets with hnil | ⟨before, last, hconcat⟩
    · rw [hnil]
      exact List.pairwise_singleton _ _
    · rw [List.concat_eq_append] at hconcat
      have hi : r.buckets.length = before.length + 1 := by
        rw [hconcat, List.length_append, List.length_singleton]
      have hlast : last ≤ s.passed (.bucket before.length) :=
        hread.last_le (by rw [hconcat]; exact List.getLast?_concat) hi
      -- no call is between the two buckets, so the second one has all of the first
      have hbuckets : s.passed (.bucket before.length) ≤ s.passed (.bucket (before.length + 1)) := by
        refine List.countP_mono_left fun call hcall hc => decide_eq_true ?_
        exact hsettled r hr before.length (by omega) hi call hcall (of_decide_eq_true hc)
      rw [hi, h.sound.load_eq hwords (by simp)]
      refine List.pairwise_append.mpr ⟨hordered, List.pairwise_singleton _ _, fun n hn m hm => ?_⟩
      rw [List.mem_singleton.mp hm]
      refine Nat.le_trans ?_ (Nat.le_trans hlast hbuckets)
      rw [hconcat] at hn hordered
      rcases List.mem_append.mp hn with hn | hn
      · exact (List.pairwise_append.mp hordered).2.2 n hn last (List.mem_singleton_self _)
      · exact Nat.le_of_eq (List.mem_singleton.mp hn)
  · split at hnext
    · cases hnext
      exact hordered
    · cases hnext
      exact hordered
    · cases hnext

theorem ordered_of_step (h : Tracked s) (hwords : s.records.length < 2 ^ 64)
    (hordered : ∀ r ∈ s.renders, r.buckets.Pairwise (· ≤ ·)) (hsettled : Settled s a)
    (hstep : Steps s a t) : ∀ r ∈ t.renders, r.buckets.Pairwise (· ≤ ·) := by
  intro r hr
  cases hstep with
  | record | add => exact hordered r hr
  | render =>
    rcases List.mem_append.mp hr with hr | hr
    · exact hordered r hr
    · rw [List.mem_singleton.mp hr]
      exact .nil
  | load k call call' hcall hnext =>
    rcases List.mem_or_eq_of_mem_set hr with hr | rfl
    · exact hordered r hr
    · exact ordered_of_next h hwords hcall hsettled (hordered call (List.mem_of_getElem? hcall)) hnext

theorem Read.bounded (h : Read s r) {e : Exposition} (he : r.exposition = some e) : e.Bounded := by
  obtain ⟨count, hcount, he⟩ := Option.bind_eq_some_iff.mp he
  obtain ⟨sum, hsum, he⟩ := Option.bind_eq_some_iff.mp he
  obtain rfl := Option.some.inj he
  refine ⟨rfl, fun bucket hbucket => ?_⟩
  have hlength := h.full (by rw [hcount]; rfl)
  rw [List.getLast?_eq_getElem?, List.length_zip, hlength, Nat.min_self] at hbucket
  have hlast : bucket.2 ∈ r.buckets[durationBucketsSeconds.length - 1]? :=
    (List.getElem?_zip_eq_some.mp hbucket).2
  refine h.last count hcount bucket.2 ?_
  rw [List.getLast?_eq_getElem?, hlength]
  exact hlast

theorem cumulative_of_ordered (h : Read s r) (hordered : r.buckets.Pairwise (· ≤ ·)) {e : Exposition}
    (he : r.exposition = some e) : e.Cumulative := by
  refine ⟨?_, h.bounded he⟩
  obtain ⟨count, hcount, he⟩ := Option.bind_eq_some_iff.mp he
  obtain ⟨sum, hsum, he⟩ := Option.bind_eq_some_iff.mp he
  obtain rfl := Option.some.inj he
  have hbounds : durationBucketsSeconds.Pairwise (· < ·) := by decide
  refine List.pairwise_iff_getElem.mpr fun i j hi hj hij => ?_
  simp only [List.getElem_zip]
  exact ⟨List.pairwise_iff_getElem.mp hbounds i j _ _ hij,
    List.pairwise_iff_getElem.mp hordered i j _ _ hij⟩

/-- **Histograms.** While fewer than `2 ^ 64` durations are recorded, in every interleaving the last
finite bucket that `render` writes is at most the count; and if no call of `record` is between two
buckets when `render` loads the second one, the buckets are cumulative. -/
theorem exposition_cumulative_of_settled {as : List Action}
    (h : machine.exec machine.init as = some s) (hwords : s.records.length < 2 ^ 64) :
    (∀ r ∈ s.renders, ∀ e, r.exposition = some e → e.Bounded) ∧
    (machine.Always Settled machine.init as →
      ∀ r ∈ s.renders, ∀ e, r.exposition = some e → e.Cumulative) := by
  have htracked : Tracked s :=
    machine.invariant_exec (fun _ _ _ hs hstep => hs.of_step (steps_of_step hstep)) tracked_init h
  refine ⟨fun r hr e he => (htracked.reads hwords r hr).bounded he, fun hsettled r hr e he => ?_⟩
  have hboth : Tracked s ∧
      (s.records.length < 2 ^ 64 → ∀ r ∈ s.renders, r.buckets.Pairwise (· ≤ ·)) := by
    refine machine.invariant_of_always (P := fun s => Tracked s ∧
      (s.records.length < 2 ^ 64 → ∀ r ∈ s.renders, r.buckets.Pairwise (· ≤ ·)))
      (fun q a q' hq hC hstep => ?_) ⟨tracked_init, by simp⟩ hsettled h
    have hsteps := steps_of_step hstep
    refine ⟨hq.1.of_step hsteps, fun hwords' => ?_⟩
    have hq' := Nat.lt_of_le_of_lt (hq.1.sound.mono_of_step hsteps).1 hwords'
    exact ordered_of_step hq.1 hq' (hq.2 hq') hC hsteps
  exact cumulative_of_ordered (htracked.reads hwords r hr) (hboth.2 hwords r hr) he

/-- A millisecond is recorded up to its first bucket, and then everything is loaded. -/
def overtakingRun : List Action :=
  .record 1000000 :: .render :: (List.replicate 3 (.add 0) ++ List.replicate 16 (.load 0))

theorem exposition_of_overtakingRun :
    ∃ s, machine.exec machine.init overtakingRun = some s ∧ ∃ r ∈ s.renders, ∃ e,
      r.exposition = some e ∧ e.buckets.take 2 = [(5, 1), (10, 0)] ∧ ¬ e.Cumulative := by
  have hrun : (machine.exec machine.init overtakingRun).bind
      (fun s => s.renders[0]?.bind RenderCall.exposition) =
      some ⟨durationBucketsSeconds.zip (1 :: List.replicate 13 0), 1, 1000, 1⟩ := by decide
  obtain ⟨s, hs, hrun⟩ := Option.bind_eq_some_iff.mp hrun
  obtain ⟨r, hr, he⟩ := Option.bind_eq_some_iff.mp hrun
  refine ⟨s, hs, r, List.mem_of_getElem? hr, _, he, rfl, fun hcumulative => ?_⟩
  have hfirst := List.pairwise_iff_getElem.mp hcumulative.1 0 1 (by decide) (by decide) (by decide)
  exact absurd hfirst.2 (by decide)

/-- A millisecond is recorded, and then everything is loaded. -/
def settledRun : List Action :=
  .record 1000000 :: .render :: (List.replicate 16 (.add 0) ++ List.replicate 16 (.load 0))

theorem exposition_of_settledRun :
    ∃ s, machine.exec machine.init settledRun = some s ∧ ∃ r ∈ s.renders, ∃ e,
      r.exposition = some e ∧ e.Cumulative := by
  have hrun : (machine.exec machine.init settledRun).bind (fun s =>
      if s.records.length < 2 ^ 64 then s.renders[0]?.bind RenderCall.exposition else none) =
      some ⟨durationBucketsSeconds.zip (List.replicate 14 1), 1, 1000, 1⟩ := by decide
  obtain ⟨s, hs, hrun⟩ := Option.bind_eq_some_iff.mp hrun
  obtain ⟨hwords, hrun⟩ := Option.ite_none_right_eq_some.mp hrun
  obtain ⟨r, hr, he⟩ := Option.bind_eq_some_iff.mp hrun
  exact ⟨s, hs, r, List.mem_of_getElem? hr, _, he, (exposition_cumulative_of_settled hs hwords).2
    (by decide) r (List.mem_of_getElem? hr) _ he⟩

end Recording

end BasicWebserver.Telemetry
