import BasicWebserver.Http2.Send

/-!
# Transmission of a response

Every branch of the frame loop is described by `Progress.Sends`: what it adds to the stream, and
which answers it leaves. `sendFrames_outcome` follows the frames by induction as long as no pooled
frame meets a zero grant; `sendFrames_length` counts the bytes of a successful call, which are too
few as soon as one does.
-/

namespace BasicWebserver.Http2

variable {τ : Type*}

/-- The bytes `p` were sent and the stream is open. -/
def Open (s : Sender τ) (p : List UInt8) : Prop :=
  s.bytes = p ∧ ∀ m ∈ s.sent, m.endsStream = false

/-- The bytes `p` were sent and the last thing sent ended the stream. -/
def Closed (s : Sender τ) (p : List UInt8) : Prop :=
  s.bytes = p ∧ ∃ before last, s.sent = before ++ [last] ∧ last.endsStream = true ∧
    ∀ m ∈ before, m.endsStream = false

section Sender

variable {refuse : ℕ → Option String} {s t : Sender τ} {p : List UInt8} {m : Sent τ}

theorem Open.queried (h : Open s p) : Open s.queried p := h

theorem bytes_of_sent (h : t.sent = s.sent ++ [m]) : t.bytes = s.bytes ++ m.bytes := by
  unfold Sender.bytes
  rw [h, List.flatMap_append, List.flatMap_singleton]

theorem sent_of_send (h : s.send refuse m = .ok t) : t.sent = s.sent ++ [m] := by
  unfold Sender.send at h
  split at h
  · cases h
  · cases h
    rfl

theorem Open.append (h : Open s p) (ht : t.sent = s.sent ++ [m]) (hm : m.endsStream = false) :
    Open t (p ++ m.bytes) := by
  refine ⟨by rw [bytes_of_sent ht, h.1], fun m' hm' => ?_⟩
  rw [ht, List.mem_append, List.mem_singleton] at hm'
  rcases hm' with hm' | rfl
  · exact h.2 m' hm'
  · exact hm

theorem Open.close (h : Open s p) (ht : t.sent = s.sent ++ [m]) (hm : m.endsStream = true) :
    Closed t (p ++ m.bytes) :=
  ⟨by rw [bytes_of_sent ht, h.1], s.sent, m, ht, hm, h.2⟩

theorem Open.reset (h : Open s p) (reason : Reason) : Open (s.reset reason) p := by
  have hopen := h.append (t := s.reset reason) (m := .reset reason) rfl rfl
  rwa [show (Sent.reset reason : Sent τ).bytes = [] from rfl, List.append_nil] at hopen

end Sender

/-! ## One frame -/

/-- A frame with the bytes `data`, sent after `p`, before the frames `rest`, and leaving the answers
`left`. -/
def Progress.Sends (rest : List DataFrame) (p data : List UInt8) (left : List Grant) :
    Progress τ → Prop
  | .waiting => True
  | .returned .ok s => rest = [] ∧ Closed s (p ++ data)
  | .returned (.err _) s => ∃ q, q <+: data ∧ Open s (p ++ q)
  | .next grants s => grants = left ∧ Open s (p ++ data)

section Frame

variable {b : Body τ} {refuse : ℕ → Option String} {rest : List DataFrame} {s : Sender τ}
  {p data : List UInt8} {left : List Grant}

theorem isEndStream_rest (h : b.isEndStream s rest = true) : rest = [] ∧ b.ending.isNone = true := by
  unfold Body.isEndStream at h
  rw [Bool.and_eq_true, Bool.and_eq_true, List.isEmpty_iff] at h
  exact ⟨h.1.2, h.2⟩

theorem Progress.Sends.prepend {x : Progress τ} {chunk : List UInt8}
    (h : x.Sends rest (p ++ chunk) data left) : x.Sends rest p (chunk ++ data) left := by
  cases x with
  | waiting => trivial
  | returned result s =>
    cases result with
    | ok =>
      refine ⟨h.1, ?_⟩
      rw [← List.append_assoc]
      exact h.2
    | err message =>
      obtain ⟨q, hq, hopen⟩ := h
      refine ⟨chunk ++ q, List.prefix_append_right_inj chunk |>.mpr hq, ?_⟩
      rw [← List.append_assoc]
      exact hopen
  | next grants s =>
    refine ⟨h.1, ?_⟩
    rw [← List.append_assoc]
    exact h.2

theorem sends_err (h : Open s p) (message : String) :
    (Progress.returned (.err message) s).Sends rest p data left :=
  ⟨[], List.nil_prefix, by rwa [List.append_nil]⟩

theorem sendData_last (h : Open s p) {endStream : Bool} (hend : endStream = true → rest = []) :
    (sendData refuse s data endStream (.next left)).Sends rest p data left := by
  unfold sendData
  cases hsend : s.send refuse (.data data endStream) with
  | error message => exact sends_err h message
  | ok t =>
    have ht := sent_of_send hsend
    dsimp only
    cases endStream with
    | true => exact ⟨hend rfl, h.close ht rfl⟩
    | false => exact ⟨rfl, h.append ht rfl⟩

theorem sendData_chunk (refuse : ℕ → Option String) (h : Open s p) {chunk : List UInt8}
    {next : Sender τ → Progress τ}
    (hnext : ∀ t, Open t (p ++ chunk) → (next t).Sends rest (p ++ chunk) data left) :
    (sendData refuse s chunk false next).Sends rest p (chunk ++ data) left := by
  unfold sendData
  cases hsend : s.send refuse (.data chunk false) with
  | error message => exact sends_err h message
  | ok t => exact (hnext t (h.append (sent_of_send hsend) rfl)).prepend

theorem capacityFailed_sends (h : Open s p) (failure : CapacityFailure) :
    (capacityFailed s failure).Sends rest p data left := by
  cases failure with
  | error message => exact sends_err h message
  | closed => exact sends_err h _
  | timeout => exact sends_err (h.reset .cancel) _

theorem sendPooled_sends (h : Open s p) (grants : List Grant)
    (hzero : grants.head? ≠ some (.capacity 0)) :
    (sendPooled b refuse rest data s grants).Sends rest p data grants.tail := by
  cases grants with
  | nil => trivial
  | cons grant grants =>
    cases grant with
    | failed failure => exact capacityFailed_sends h failure
    | capacity n =>
      cases n with
      | zero => exact absurd rfl hzero
      | succ n => exact sendData_last h.queried fun he => (isEndStream_rest he).1

theorem sendPlain_sends (grants : List Grant) : ∀ (s : Sender τ) (p data : List UInt8), Open s p →
    (sendPlain b refuse rest grants data s).Sends rest p data (afterPlain grants data.length) := by
  induction grants with
  | nil =>
    intro s p data h
    cases data with
    | nil => exact ⟨rfl, by rwa [List.append_nil]⟩
    | cons byte data => trivial
  | cons grant grants ih =>
    intro s p data h
    cases data with
    | nil => exact ⟨by simp [afterPlain], by rwa [List.append_nil]⟩
    | cons byte data =>
      cases grant with
      | failed failure => exact capacityFailed_sends h failure
      | capacity n =>
        cases n with
        | zero => exact ih s p (byte :: data) h
        | succ n =>
          have hlen : (byte :: data).length - (n + 1) = ((byte :: data).drop (n + 1)).length := by
            rw [List.length_drop]
          have hsplit := List.take_append_drop (n + 1) (byte :: data)
          unfold sendPlain
          dsimp only
          rw [List.length_cons, afterPlain, ← List.length_cons (a := byte), hlen]
          by_cases hleft : (byte :: data).drop (n + 1) = []
          · rw [hleft, List.append_nil] at hsplit
            rw [hleft, if_pos List.isEmpty_nil, hsplit, List.length_nil]
            have hlast : (sendData refuse s.queried (byte :: data) (b.isEndStream s rest)
                (.next grants)).Sends rest p (byte :: data) grants :=
              sendData_last h.queried fun he => (isEndStream_rest he).1
            simpa [afterPlain] using hlast
          · rw [if_neg (by rwa [List.isEmpty_iff])]
            have hchunk := sendData_chunk refuse h fun t ht =>
              ih t (p ++ (byte :: data).take (n + 1)) ((byte :: data).drop (n + 1)) ht
            rwa [hsplit] at hchunk

end Frame

/-! ## The frame loop -/

/-- What a returned call has sent after `p`, of the bytes `data` that were left. -/
def Outcome (p data : List UInt8) (s : Sender τ) : Result → Prop
  | .ok => Closed s (p ++ data)
  | .err _ => ∃ q, q <+: data ∧ Open s (p ++ q)

section Loop

variable {b : Body τ} {refuse : ℕ → Option String} {s t : Sender τ} {p : List UInt8}
  {result : Result}

theorem Outcome.prepend {data chunk : List UInt8} (h : Outcome (p ++ chunk) data t result) :
    Outcome p (chunk ++ data) t result := by
  cases result with
  | ok =>
    unfold Outcome at h ⊢
    rwa [← List.append_assoc]
  | err message =>
    obtain ⟨q, hq, hopen⟩ := h
    refine ⟨chunk ++ q, (List.prefix_append_right_inj chunk).mpr hq, ?_⟩
    rwa [← List.append_assoc]

theorem finish_outcome (refuse : ℕ → Option String) (h : Open s p) {m : Sent τ}
    (hm : m.endsStream = true) (hbytes : m.bytes = []) :
    Outcome p [] (finish refuse s m).2 (finish refuse s m).1 := by
  unfold finish
  cases hsend : s.send refuse m with
  | error message => exact ⟨[], List.nil_prefix, by rwa [List.append_nil]⟩
  | ok t =>
    have hclose := h.close (sent_of_send hsend) hm
    rw [hbytes] at hclose
    exact hclose

theorem sendFrames_nil (h : Open s p) {grants : List Grant}
    (hret : sendFrames b refuse [] grants s = some (result, t)) : Outcome p [] t result := by
  unfold sendFrames at hret
  cases hend : b.ending with
  | none =>
    rw [hend] at hret
    have hout := finish_outcome refuse h (m := .data [] true) rfl rfl
    rwa [Option.some.inj hret] at hout
  | trailers trailers =>
    rw [hend] at hret
    have hout := finish_outcome refuse h (m := .trailers trailers) rfl rfl
    rwa [Option.some.inj hret] at hout
  | error message =>
    rw [hend] at hret
    cases hret
    exact ⟨[], List.nil_prefix, by rw [List.append_nil]; exact h.reset _⟩
  | timeout =>
    rw [hend] at hret
    cases hret
    exact ⟨[], List.nil_prefix, by rw [List.append_nil]; exact h.reset _⟩

theorem outcome_of_sends {x : Progress τ} {rest : List DataFrame} {data : List UInt8}
    {left : List Grant} {loop : List Grant → Sender τ → Option (Result × Sender τ)}
    (hx : x.Sends rest p data left)
    (hloop : ∀ s, x = .next left s → Open s (p ++ data) → loop left s = some (result, t) →
      Outcome (p ++ data) (rest.flatMap DataFrame.bytes) t result)
    (hret : x.resume loop = some (result, t)) :
    Outcome p (data ++ rest.flatMap DataFrame.bytes) t result := by
  cases x with
  | waiting => cases hret
  | returned r s =>
    cases hret
    cases result with
    | ok =>
      obtain ⟨rfl, hclosed⟩ := hx
      rwa [List.flatMap_nil, List.append_nil]
    | err message =>
      obtain ⟨q, hq, hopen⟩ := hx
      exact ⟨q, hq.trans (List.prefix_append data _), hopen⟩
  | next grants s =>
    obtain ⟨rfl, hopen⟩ := hx
    exact (hloop s rfl hopen hret).prepend

theorem capacityFailed_ne_next (failure : CapacityFailure) (grants : List Grant) (u : Sender τ) :
    capacityFailed s failure ≠ .next grants u := by
  cases failure <;> exact nofun

theorem sendFrames_outcome (frames : List DataFrame) :
    ∀ (grants : List Grant) (s : Sender τ) (p : List UInt8), noZeroGrant frames grants = true →
      Open s p → sendFrames b refuse frames grants s = some (result, t) →
      Outcome p (frames.flatMap DataFrame.bytes) t result := by
  induction frames with
  | nil =>
    intro grants s p _ h hret
    exact sendFrames_nil h hret
  | cons frame rest ih =>
    intro grants s p hzero h hret
    unfold sendFrames at hret
    unfold noZeroGrant at hzero
    rw [List.flatMap_cons]
    split_ifs at hzero hret with hempty hpooled
    · rw [List.isEmpty_iff.mp hempty]
      exact ih grants s p hzero h hret
    · rcases grants with _ | ⟨_ | failure, grants⟩
      · cases hret
      · next n =>
        cases n with
        | zero => cases hzero
        | succ n =>
          have hrest : noZeroGrant rest grants = true := hzero
          exact outcome_of_sends (sendPooled_sends h _ (by simp))
            (fun s _ hs => ih grants s _ hrest hs) hret
      · have hx : (capacityFailed s failure).Sends rest p frame.bytes grants :=
          capacityFailed_sends h failure
        exact outcome_of_sends hx (fun s he => absurd he (capacityFailed_ne_next failure _ s)) hret
    · exact outcome_of_sends (sendPlain_sends grants s p frame.bytes h)
        (fun s _ hs => ih _ s _ hzero hs) hret

/-- The bytes of a successful call: at most those of the frames, and fewer once a pooled frame has
met a zero grant. -/
theorem sendFrames_length (frames : List DataFrame) :
    ∀ (grants : List Grant) (s : Sender τ) (p : List UInt8), Open s p →
      sendFrames b refuse frames grants s = some (.ok, t) →
      t.bytes.length ≤ p.length + (frames.flatMap DataFrame.bytes).length ∧
      (noZeroGrant frames grants = false →
        t.bytes.length < p.length + (frames.flatMap DataFrame.bytes).length) := by
  induction frames with
  | nil =>
    intro grants s p h hret
    have hclosed : Closed t (p ++ []) := sendFrames_nil h hret
    rw [hclosed.1, List.append_nil]
    exact ⟨Nat.le_add_right _ _, fun hzero => nomatch hzero⟩
  | cons frame rest ih =>
    -- a frame that is sent as it should moves on to the rest with all its bytes
    have sent : ∀ {x : Progress τ} {p : List UInt8} {left : List Grant},
        x.Sends rest p frame.bytes left →
        x.resume (fun grants s => sendFrames b refuse rest grants s) = some (.ok, t) →
        t.bytes.length ≤ p.length + (frame.bytes ++ rest.flatMap DataFrame.bytes).length ∧
        (noZeroGrant rest left = false →
          t.bytes.length < p.length + (frame.bytes ++ rest.flatMap DataFrame.bytes).length) := by
      intro x p left hx hret
      cases x with
      | waiting => cases hret
      | returned r s =>
        cases hret
        obtain ⟨rfl, hclosed⟩ := hx
        rw [hclosed.1]
        refine ⟨by simp, fun hzero => nomatch hzero⟩
      | next grants s =>
        obtain ⟨rfl, hopen⟩ := hx
        have hrest := ih grants s _ hopen hret
        rw [List.length_append] at hrest ⊢
        rw [← Nat.add_assoc]
        exact hrest
    intro grants s p h hret
    unfold sendFrames at hret
    unfold noZeroGrant
    rw [List.flatMap_cons]
    split_ifs at hret ⊢ with hempty hpooled
    · rw [List.isEmpty_iff.mp hempty]
      exact ih grants s p h hret
    · rcases grants with _ | ⟨_ | failure, grants⟩
      · cases hret
      · next n =>
        cases n with
        | zero =>
          -- the frame is dropped
          have hrest := (ih grants s p h hret).1
          have hpos : 0 < frame.bytes.length := by
            rw [List.length_pos_iff_ne_nil]
            exact fun he => hempty (by rw [he]; rfl)
          rw [List.length_append]
          omega
        | succ n => exact sent (sendPooled_sends h _ (by simp)) hret
      · cases failure <;> cases hret
    · exact sent (sendPlain_sends grants s p frame.bytes h) hret

end Loop

/-! ## The whole response -/

section Response

variable {b : Body τ} {refuse : ℕ → Option String} {grants : List Grant} {s : Sender τ}
  {result : Result}

theorem sendH2Response_cases (h : sendH2Response b grants refuse = some (result, s)) :
    (b.frames = [] ∧ Outcome [] [] s result) ∨ (result ≠ .ok ∧ s.sent = []) ∨
      ∃ t, Open t [] ∧ sendFrames b refuse b.frames grants t = some (result, s) := by
  have hinit : Open (Sender.init.queried : Sender τ) [] := ⟨rfl, by simp [Sender.init, Sender.queried]⟩
  unfold sendH2Response at h
  dsimp only at h
  cases hsend : Sender.init.queried.send refuse
      (.headers (b.isEndStream Sender.init b.frames)) with
  | error message =>
    rw [hsend] at h
    cases h
    exact .inr (.inl ⟨nofun, rfl⟩)
  | ok t =>
    have ht := sent_of_send hsend
    rw [hsend] at h
    dsimp only at h
    cases he : b.isEndStream Sender.init b.frames with
    | true =>
      rw [he] at h ht
      cases h
      exact .inl ⟨(isEndStream_rest he).1, hinit.close ht rfl⟩
    | false =>
      rw [he] at h ht
      exact .inr (.inr ⟨t, hinit.append ht rfl, h⟩)

theorem transmitted_of_outcome (h : Outcome [] b.bytes s result) : Transmitted b s result := by
  cases result with
  | ok => exact h
  | err message =>
    obtain ⟨q, hq, hopen⟩ := h
    exact ⟨hopen.1 ▸ hq, hopen.2⟩

end Response

def plainBody : Body Unit := ⟨[⟨false, [1, 2]⟩], .none, fun _ => true⟩

def pooledBody : Body Unit := ⟨[⟨true, [7]⟩], .none, fun _ => true⟩

end BasicWebserver.Http2
