import BasicWebserver.RequestBody.Steps

/-!
# Sizes and limits

Every chunk in the channel is a nonempty slice of at most `chunkSize` bytes. The count of delivered
bytes is the number of bytes returned as long as that fits in 64 bits. The limit that
`effective_limit` keeps is below every limit requested before, except that of a call which has not
recorded it yet and those of calls that found a terminal outcome first; after such a call nothing
is cleared for delivery.
-/

namespace BasicWebserver.RequestBody

theorem channel_wake (c : Config) (sent : Bool) (s : State) :
    (wake c sent s).channel = s.channel ∨ (wake c sent s).channel = s.channel ++ [.wake] := by
  unfold wake
  split
  · exact .inr rfl
  · exact .inl rfl

theorem wake_eq (c : Config) (sent : Bool) (s : State) :
    wake c sent s = { s with channel := (wake c sent s).channel } := by
  unfold wake
  split <;> rfl

/-! ## Sizes -/

def Config.Sized (c : Config) (bytes : Bytes) : Prop := bytes ≠ [] ∧ bytes.length ≤ c.chunkSize

structure Sliced (c : Config) (s : State) : Prop where
  inFlight : ∀ bytes, .chunk bytes ∈ s.reader.held ++ s.channel → c.Sized bytes
  returned : ∀ bytes ∈ s.chunks, c.Sized bytes
  stage : s.pump.stage.Sound

theorem sized_of_message {c : Config} {stage : Stage} {bytes : Bytes} (hsound : stage.Sound)
    (h : stage.message c = some (.chunk bytes)) : c.Sized bytes := by
  cases stage with
  | waiting => cases h
  | sending frame offset =>
    have hpos := c.chunkSize_pos
    have hlt : offset < frame.length := hsound
    cases h
    have hlen : ((frame.take (min (offset + c.chunkSize) frame.length)).drop offset).length =
        min (offset + c.chunkSize) frame.length - offset := by
      rw [List.length_drop, List.length_take]
      omega
    refine ⟨fun hnil => ?_, by omega⟩
    rw [hnil, List.length_nil] at hlen
    omega
  | closing message => exact absurd (Option.some.inj h) (hsound bytes)
  | returned => cases h

theorem sound_close {message : PumpMessage} (hmessage : ∀ bytes, message ≠ .chunk bytes) (p : Pump) :
    (p.close message).stage.Sound := by
  unfold Pump.close
  dsimp only
  split
  · trivial
  · exact hmessage

theorem message_ne_chunk (ending : SourceEnd) (bytes : Bytes) : ending.message ≠ .chunk bytes := by
  cases ending with
  | ended => exact nofun
  | failed error => cases error <;> exact nofun

theorem sound_frame (c : Config) (frame : Bytes) {p : Pump} (hstage : p.stage = .waiting) :
    (p.frame c frame).stage.Sound := by
  have hwaiting : p.stage.Sound := by
    rw [hstage]
    trivial
  unfold Pump.frame
  split
  · exact hwaiting
  · rename_i hempty
    dsimp only
    split
    · refine sound_close ?_ p
      exact fun bytes => nofun
    · split
      · exact hwaiting
      · show 0 < frame.length
        exact List.length_pos_of_ne_nil fun hnil => hempty (hnil ▸ rfl)

theorem Sliced.pump {c : Config} {s s' : State} (h : Sliced c s) (hmove : PumpMove c s s') :
    Sliced c s' := by
  cases hmove with
  | disturbed pump hready hsound => exact ⟨h.inFlight, h.returned, hsound⟩
  | send message hmessage hready =>
    refine ⟨fun bytes hmem => ?_, h.returned, sound_resume c .sent s.pump⟩
    rw [← List.append_assoc] at hmem
    rcases List.mem_append.mp hmem with hmem | hmem
    · exact h.inFlight bytes hmem
    · rw [← List.mem_singleton.mp hmem] at hmessage
      exact sized_of_message h.stage hmessage
  | next hstage =>
    unfold RequestBody.next
    split
    · exact ⟨h.inFlight, h.returned, sound_close (message_ne_chunk c.ending) s.pump⟩
    · exact ⟨h.inFlight, h.returned, sound_frame c _ hstage⟩
  | timeout hstage => exact ⟨h.inFlight, h.returned, fun bytes => nofun⟩

theorem Sliced.of_held {c : Config} {s s' : State} (h : Sliced c s) (hheld : s'.reader.held = [])
    (hchannel : s'.channel = s.channel ∨ s'.channel = s.channel ++ [.wake])
    (hchunks : s'.chunks = s.chunks) (hpump : s'.pump = s.pump) : Sliced c s' := by
  refine ⟨fun bytes hmem => ?_, hchunks ▸ h.returned, hpump ▸ h.stage⟩
  have hmem' : .chunk bytes ∈ s.channel := by
    rw [hheld, List.nil_append] at hmem
    rcases hchannel with he | he
    · rwa [he] at hmem
    · rw [he, List.mem_append, List.mem_singleton] at hmem
      exact hmem.resolve_right nofun
  exact h.inFlight bytes (List.mem_append_right _ hmem')

theorem Sliced.reader {c : Config} {s s' : State} (h : Sliced c s) (hmove : ReaderMove c s s') :
    Sliced c s' := by
  cases hmove with
  | goOn reader hheld hskip heffective hpending hstopping => exact h.of_held hheld (.inl rfl) rfl rfl
  | narrow limit reader hpending hheld hheld' heffective hstopping =>
    exact h.of_held hheld' (.inl rfl) rfl rfl
  | halt narrowLimit call error hnarrow => exact h.of_held rfl (.inl rfl) rfl rfl
  | signal call control hr => exact h.of_held rfl (.inl rfl) rfl rfl
  | wake call sent hr =>
    rw [wake_eq]
    exact h.of_held (held_done call) (channel_wake c sent s) rfl rfl
  | report call terminal ht hcleared => exact h.of_held (held_done call) (.inl rfl) rfl rfl
  | receive message channel reader hchannel hheld hpending hheld' hcleared heffective =>
    refine ⟨fun bytes hmem => h.inFlight bytes ?_, h.returned, h.stage⟩
    rw [hheld, hchannel]
    rwa [hheld'] at hmem
  | clear message reader ht hheld hpending hcleared heffective =>
    refine ⟨fun bytes hmem => h.inFlight bytes ?_, h.returned, h.stage⟩
    rw [hheld]
    rwa [Reader.held_eq hcleared] at hmem
  | deliver effective bytes reader hcleared heffective hle hpending hheld heffective' hstopping =>
    have hsized := h.inFlight bytes (by rw [Reader.held_eq hcleared]; exact List.mem_cons_self)
    refine ⟨fun bytes' hmem => h.inFlight bytes' ?_, fun bytes' hmem => ?_, h.stage⟩
    · rw [hheld, List.nil_append] at hmem
      exact List.mem_append_right _ hmem
    · rcases List.mem_append.mp hmem with hmem | hmem
      · exact h.returned bytes' hmem
      · exact List.mem_singleton.mp hmem ▸ hsized
  | finish call hcleared => exact h.of_held (held_done call) (.inl rfl) rfl rfl

theorem Sliced.step {c : Config} {s s' : State} {a : Label} (h : Sliced c s)
    (hstep : step c s a = some s') : Sliced c s' := by
  cases move_of_step hstep with
  | pump hmove => exact h.pump hmove
  | reader hmove => exact h.reader hmove
  | refused => exact h
  | begin limit reader hidle hheld heffective hpending hstopping => exact h.of_held hheld (.inl rfl) rfl rfl
  | stop error => exact ⟨h.inFlight, h.returned, h.stage⟩
  | signal control stops hstops => exact ⟨h.inFlight, h.returned, h.stage⟩
  | wake sent stops hstops =>
    refine ⟨fun bytes hmem => ?_, ?_, ?_⟩
    · rw [wake_eq] at hmem
      rcases channel_wake c sent s with he | he
      · rw [he] at hmem
        exact h.inFlight bytes hmem
      · rw [he, ← List.append_assoc, List.mem_append, List.mem_singleton] at hmem
        exact h.inFlight bytes (hmem.resolve_right nofun)
    · rw [wake_eq]
      exact h.returned
    · rw [wake_eq]
      exact h.stage
  | shutdown => exact ⟨h.inFlight, h.returned, h.stage⟩
  | drop terminal hidle ht =>
    refine ⟨fun bytes hmem => ?_, h.returned, h.stage⟩
    rw [List.append_nil] at hmem
    exact h.inFlight bytes (List.mem_append_left _ hmem)

/-! ## Limits -/

structure Limited (c : Config) (s : State) : Prop where
  counted : s.delivered = min s.chunks.flatten.length u64Max
  bounded : s.delivered ≤ c.hardLimit
  narrowed : s.narrowLimit ≤ c.hardLimit
  effective : ∀ effective, s.reader.effective = some effective → effective = s.narrowLimit
  requested : ∀ limit ∈ s.requested, s.narrowLimit ≤ limit ∨ s.reader.pending = some limit ∨
    (s.terminal ≠ none ∧ s.reader.cleared = none)

theorem Limited.congr {c : Config} {s s' : State} (h : Limited c s)
    (hdelivered : s'.delivered = s.delivered) (hchunks : s'.chunks = s.chunks)
    (hnarrow : s'.narrowLimit = s.narrowLimit) (hreader : s'.reader = s.reader)
    (hrequested : s'.requested = s.requested) (hterminal : s.terminal ≠ none → s'.terminal ≠ none) :
    Limited c s' := by
  refine ⟨?_, ?_, ?_, ?_, ?_⟩
  · rw [hdelivered, hchunks, h.counted]
  · rw [hdelivered]
    exact h.bounded
  · rw [hnarrow]
    exact h.narrowed
  · rw [hreader, hnarrow]
    exact h.effective
  · rw [hrequested, hnarrow, hreader]
    intro limit hmem
    exact (h.requested limit hmem).imp_right (.imp_right fun ⟨ht, hc⟩ => ⟨hterminal ht, hc⟩)

theorem Limited.of_cleared {c : Config} {s s' : State} (h : Limited c s)
    (hdelivered : s'.delivered = s.delivered) (hchunks : s'.chunks = s.chunks)
    (hnarrow : s'.narrowLimit ≤ s.narrowLimit)
    (heffective : ∀ e, s'.reader.effective = some e → e = s'.narrowLimit)
    (hrequested : s'.requested = s.requested) (hcleared : s'.reader.cleared = none)
    (hterminal : s.terminal ≠ none → s'.terminal ≠ none)
    (hpending : ∀ l, s.reader.pending = some l →
      s'.narrowLimit ≤ l ∨ s'.reader.pending = some l ∨ s'.terminal ≠ none) :
    Limited c s' := by
  refine ⟨?_, ?_, Nat.le_trans hnarrow h.narrowed, heffective, ?_⟩
  · rw [hdelivered, hchunks, h.counted]
  · rw [hdelivered]
    exact h.bounded
  · rw [hrequested, hcleared]
    intro limit hmem
    rcases h.requested limit hmem with hle | hp | ⟨ht, -⟩
    · exact .inl (Nat.le_trans hnarrow hle)
    · exact (hpending limit hp).imp_right (.imp_right fun ht => ⟨ht, rfl⟩)
    · exact .inr (.inr ⟨hterminal ht, rfl⟩)

theorem Limited.reader {c : Config} {s s' : State} (h : Limited c s) (hmove : ReaderMove c s s') :
    Limited c s' := by
  cases hmove with
  | goOn reader hheld hskip heffective hpending hstopping =>
    exact h.of_cleared rfl rfl (Nat.le_refl _) (fun e he => h.effective e (heffective e he)) rfl
      (Reader.cleared_eq_none hheld) id fun l hl => .inr (.inl (hpending l hl))
  | narrow limit reader hpending hheld hheld' heffective hstopping =>
    have hle := effectiveLimit_le (c := c) (s := s) limit
    refine h.of_cleared rfl rfl hle.1 heffective rfl (Reader.cleared_eq_none hheld') id fun l hl => ?_
    obtain rfl : limit = l := Option.some.inj (hpending.symm.trans hl)
    exact .inl hle.2.1
  | halt narrowLimit call error hnarrow =>
    exact h.of_cleared rfl rfl hnarrow (fun e he => nomatch he) rfl rfl
      (fun _ => Option.some_ne_none _) fun l hl => .inr (.inr (Option.some_ne_none _))
  | signal call control hr =>
    refine h.of_cleared rfl rfl (Nat.le_refl _) (fun e he => nomatch he) rfl rfl id fun l hl => ?_
    rw [hr] at hl
    cases hl
  | wake call sent hr =>
    rw [wake_eq]
    refine h.of_cleared rfl rfl (Nat.le_refl _) (fun e he => ?_) rfl
      (Reader.cleared_eq_none (held_done call)) id fun l hl => ?_
    · rw [effective_done] at he
      cases he
    · rw [hr] at hl
      cases hl
  | report call terminal ht hcleared =>
    refine h.of_cleared rfl rfl (Nat.le_refl _) (fun e he => ?_) rfl
      (Reader.cleared_eq_none (held_done call)) id fun l hl => ?_
    · change call.done.effective = some e at he
      rw [effective_done] at he
      cases he
    · exact .inr (.inr (ht ▸ Option.some_ne_none _))
  | receive message channel reader hchannel hheld hpending hheld' hcleared heffective =>
    refine h.of_cleared rfl rfl (Nat.le_refl _) (fun e he => h.effective e (heffective ▸ he)) rfl
      hcleared id fun l hl => ?_
    rw [hpending] at hl
    cases hl
  | clear message reader ht hheld hpending hcleared heffective =>
    refine ⟨h.counted, h.bounded, h.narrowed, fun e he => h.effective e (heffective ▸ he), ?_⟩
    intro limit hmem
    -- no call has returned early and none is in front of its limit check
    rcases h.requested limit hmem with hle | hp | ⟨hne, -⟩
    · exact .inl hle
    · rw [hpending] at hp
      cases hp
    · exact absurd ht hne
  | deliver effective bytes reader hcleared heffective hle hpending hheld heffective' hstopping =>
    have heq := h.effective effective heffective
    have hnarrowed := h.narrowed
    have hcounted := h.counted
    refine ⟨?_, ?_, h.narrowed, fun e he => ?_, fun limit hmem => ?_⟩
    · show saturatingAdd s.delivered bytes.length = min (s.chunks ++ [bytes]).flatten.length u64Max
      rw [List.flatten_concat, List.length_append, saturatingAdd]
      omega
    · show saturatingAdd s.delivered bytes.length ≤ c.hardLimit
      omega
    · rw [heffective'] at he
      cases he
    · rcases h.requested limit hmem with hle | hp | ⟨-, hc⟩
      · exact .inl hle
      · rw [hpending] at hp
        cases hp
      · rw [hcleared] at hc
        cases hc
  | finish call hcleared =>
    refine h.of_cleared rfl rfl (Nat.le_refl _) (fun e he => ?_) rfl
      (Reader.cleared_eq_none (held_done call)) (fun _ => Option.some_ne_none _)
      fun l hl => .inr (.inr (Option.some_ne_none _))
    rw [effective_done] at he
    cases he

theorem Limited.pump {c : Config} {s s' : State} (h : Limited c s) (hmove : PumpMove c s s') :
    Limited c s' := by
  cases hmove with
  | disturbed pump hready hsound => exact h.congr rfl rfl rfl rfl rfl id
  | send message hmessage hready => exact h.congr rfl rfl rfl rfl rfl id
  | next hstage =>
    unfold RequestBody.next
    split <;> exact h.congr rfl rfl rfl rfl rfl id
  | timeout hstage => exact h.congr rfl rfl rfl rfl rfl id

theorem Limited.step {c : Config} {s s' : State} {a : Label} (h : Limited c s)
    (hstep : step c s a = some s') : Limited c s' := by
  cases move_of_step hstep with
  | pump hmove => exact h.pump hmove
  | reader hmove => exact h.reader hmove
  | refused => exact h
  | begin limit reader hidle hheld heffective hpending hstopping =>
    refine ⟨h.counted, h.bounded, h.narrowed, fun e he => ?_, fun l hmem => ?_⟩
    · rw [heffective] at he
      cases he
    · rcases List.mem_append.mp hmem with hmem | hmem
      · rcases h.requested l hmem with hle | hp | ⟨ht, -⟩
        · exact .inl hle
        · rw [hidle] at hp
          cases hp
        · exact .inr (.inr ⟨ht, Reader.cleared_eq_none hheld⟩)
      · rw [List.mem_singleton.mp hmem]
        exact .inr (.inl hpending)
  | stop error => exact h.congr rfl rfl rfl rfl rfl fun _ => Option.some_ne_none _
  | signal control stops hstops => exact h.congr rfl rfl rfl rfl rfl id
  | wake sent stops hstops =>
    rw [wake_eq]
    exact h.congr rfl rfl rfl rfl rfl id
  | shutdown => exact h.congr rfl rfl rfl rfl rfl id
  | drop terminal hidle ht => exact h.congr rfl rfl rfl rfl rfl fun _ => Option.some_ne_none _

end BasicWebserver.RequestBody
