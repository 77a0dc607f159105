import BasicWebserver.RequestBody.Limits

/-!
# The delivered bytes

As long as no terminal outcome is set, nothing is lost: the bytes returned so far, those of the
messages on their way and those the pump has still to send are the bytes of the source (`Flow`).
Whatever disturbs the pump or makes a reader throw a message away sets a terminal outcome first, and
then no more messages are cleared. One that is cleared when the outcome is set is still delivered.
-/

namespace BasicWebserver.RequestBody

open Transition

def PumpMessage.bytes : PumpMessage → Bytes
  | .chunk bytes => bytes
  | .ended | .error _ | .wake => []

/-- What is left to do when the reader is through with `out`: the messages `line` on their way and,
unless the pump is closing, the bytes `rest` that it has not sent. -/
structure Flow (c : Config) (out : Bytes) (line : List PumpMessage) (rest : Option Bytes) : Prop where
  fits : out ++ line.flatMap PumpMessage.bytes <+: c.frames.flatten
  live : ∀ more, rest = some more →
    out ++ line.flatMap PumpMessage.bytes ++ more = c.frames.flatten ∧ .ended ∉ line
  last : .ended ∉ line.dropLast
  complete : .ended ∈ line →
    out ++ line.flatMap PumpMessage.bytes = c.frames.flatten ∧ c.ending = .ended

namespace Flow

variable {c : Config} {out more bytes : Bytes} {line : List PumpMessage} {rest : Option Bytes}
  {m : PumpMessage}

theorem init (c : Config) : Flow c [] [] (some c.frames.flatten) where
  fits := List.nil_prefix
  live := fun _ h => ⟨(Option.some.inj h).symm, List.not_mem_nil⟩
  last := List.not_mem_nil
  complete := fun h => nomatch h

theorem send (h : Flow c out line (some (bytes ++ more))) :
    Flow c out (line ++ [.chunk bytes]) (some more) := by
  obtain ⟨hall, hended⟩ := h.live _ rfl
  have heq : out ++ (line ++ [PumpMessage.chunk bytes]).flatMap PumpMessage.bytes ++ more =
      c.frames.flatten := by
    rw [← hall, List.flatMap_append, List.flatMap_singleton]
    simp only [PumpMessage.bytes, List.append_assoc]
  have hended' : .ended ∉ line ++ [PumpMessage.chunk bytes] := by
    rw [List.mem_append, List.mem_singleton]
    exact fun hmem => hended (hmem.resolve_right nofun)
  refine ⟨⟨more, heq⟩, fun more' he => ?_, ?_, fun hmem => absurd hmem hended'⟩
  · rw [← Option.some.inj he]
    exact ⟨heq, hended'⟩
  · rw [List.dropLast_concat]
    exact hended

theorem close (h : Flow c out line (some more)) (hbytes : m.bytes = [])
    (hm : m = .ended → more = [] ∧ c.ending = .ended) : Flow c out (line ++ [m]) none := by
  obtain ⟨hall, hended⟩ := h.live _ rfl
  have heq : (line ++ [m]).flatMap PumpMessage.bytes = line.flatMap PumpMessage.bytes := by
    rw [List.flatMap_append, List.flatMap_singleton, hbytes, List.append_nil]
  refine ⟨?_, (fun more' he => nomatch he), ?_, fun hmem => ?_⟩
  · rw [heq]
    exact h.fits
  · rw [List.dropLast_concat]
    exact hended
  · rw [List.mem_append, List.mem_singleton] at hmem
    obtain ⟨hmore, hending⟩ := hm (hmem.resolve_left hended).symm
    rw [hmore, List.append_nil] at hall
    rw [heq]
    exact ⟨hall, hending⟩

theorem tail (h : Flow c out (m :: line) rest) (out' : Bytes) (hout : out' = out ++ m.bytes) :
    Flow c out' line rest := by
  have heq : out' ++ line.flatMap PumpMessage.bytes =
      out ++ (m :: line).flatMap PumpMessage.bytes := by
    rw [hout, List.flatMap_cons, List.append_assoc]
  refine ⟨?_, fun more he => ?_, fun hmem => ?_, fun hmem => ?_⟩
  · rw [heq]
    exact h.fits
  · rw [heq]
    exact ⟨(h.live more he).1, fun hmem => (h.live more he).2 (List.mem_cons_of_mem _ hmem)⟩
  · have hne : line ≠ [] := by
      rintro rfl
      cases hmem
    apply h.last
    rw [List.dropLast_cons_of_ne_nil hne]
    exact List.mem_cons_of_mem _ hmem
  · rw [heq]
    exact h.complete (List.mem_cons_of_mem _ hmem)

theorem fits_head (h : Flow c out (m :: line) rest) : out ++ m.bytes <+: c.frames.flatten := by
  have hfits := h.fits
  rw [List.flatMap_cons, ← List.append_assoc] at hfits
  exact (List.prefix_append _ _).trans hfits

theorem skip {skipped : List PumpMessage} (h : Flow c out (skipped ++ line) rest)
    (hskip : ∀ m ∈ skipped, m.blank) : Flow c out line rest := by
  induction skipped with
  | nil => exact h
  | cons m skipped ih =>
    have hbytes : m.bytes = [] := by
      have hblank := hskip m List.mem_cons_self
      cases m with
      | chunk bytes => exact List.isEmpty_iff.mp hblank
      | ended => cases hblank
      | error error => rfl
      | wake => rfl
    refine ih (h.tail out ?_) fun m' hm' => hskip m' (List.mem_cons_of_mem _ hm')
    rw [hbytes, List.append_nil]

theorem complete_head (h : Flow c out (.ended :: line) rest) :
    out = c.frames.flatten ∧ c.ending = .ended := by
  have hline : line = [] := by
    by_contra hne
    apply h.last
    rw [List.dropLast_cons_of_ne_nil hne]
    exact List.mem_cons_self
  obtain ⟨hall, hending⟩ := h.complete List.mem_cons_self
  rw [hline, List.flatMap_singleton, PumpMessage.bytes, List.append_nil] at hall
  exact ⟨hall, hending⟩

end Flow

/-! ## The invariant -/

/-- The message that ends the pump's work. -/
def Stage.last : Stage → List PumpMessage
  | .closing message => [message]
  | .waiting | .sending _ _ | .returned => []

/-- The bytes that the pump has not sent. -/
def Stage.rest (source : List Bytes) : Stage → Option Bytes
  | .waiting => some source.flatten
  | .sending frame offset => some (frame.drop offset ++ source.flatten)
  | .closing _ | .returned => none

def State.line (s : State) : List PumpMessage := s.reader.held ++ s.channel ++ s.pump.stage.last

structure Undisturbed (c : Config) (s : State) : Prop where
  control : s.control = .running
  ready : controlReady s = false
  draining : s.pump.draining = false
  stops : s.stops = []
  reader : s.reader.isStopping = false
  flow : Flow c s.chunks.flatten s.line (s.pump.stage.rest s.source)

/-- Every byte was delivered and the source ended normally. -/
def Complete (c : Config) (s : State) : Prop :=
  s.chunks.flatten = c.frames.flatten ∧ c.ending = .ended

structure Streamed (c : Config) (s : State) : Prop where
  undisturbed : s.terminal = none → Undisturbed c s
  output : s.chunks.flatten <+: c.frames.flatten
  cleared : ∀ m, s.reader.cleared = some m →
    s.chunks.flatten ++ m.bytes <+: c.frames.flatten ∧ (m = .ended → Complete c s)
  ended : s.terminal = some .ended ∨ s.ended = true → Complete c s

theorem streamed_init (c : Config) : Streamed c (State.init c) where
  undisturbed := fun _ => ⟨rfl, rfl, rfl, rfl, rfl, Flow.init c⟩
  output := List.nil_prefix
  cleared := fun m h => nomatch h
  ended := fun h => by rcases h with h | h <;> cases h

/-! ## The pump -/

theorem slice_append_drop (frame : Bytes) (offset size : ℕ) :
    (frame.take (min (offset + size) frame.length)).drop offset ++ frame.drop (offset + size) =
      frame.drop offset := by
  rw [← List.take_eq_take_min, List.drop_take, Nat.add_sub_cancel_left, ← List.drop_drop,
    List.take_append_drop]

theorem Flow.resume {c : Config} {s : State} {message : PumpMessage}
    (h : Flow c s.chunks.flatten s.line (s.pump.stage.rest s.source))
    (hmessage : s.pump.stage.message c = some message) :
    Flow c s.chunks.flatten
      (s.reader.held ++ (s.channel ++ [message]) ++ (s.pump.resume c .sent).stage.last)
      ((s.pump.resume c .sent).stage.rest s.source) := by
  unfold State.line at h
  unfold Pump.resume
  cases hstage : s.pump.stage with
  | waiting =>
    rw [hstage] at hmessage
    cases hmessage
  | returned =>
    rw [hstage] at hmessage
    cases hmessage
  | closing m =>
    rw [hstage] at hmessage h
    obtain rfl : m = message := Option.some.inj hmessage
    show Flow c _ (s.reader.held ++ (s.channel ++ [m]) ++ []) none
    rw [List.append_nil, ← List.append_assoc]
    exact h
  | sending frame offset =>
    rw [hstage] at hmessage h
    cases hmessage
    rw [Stage.last, Stage.rest, List.append_nil,
      ← slice_append_drop frame offset c.chunkSize, List.append_assoc] at h
    have hsent := h.send
    rw [List.append_assoc] at hsent
    dsimp only
    split
    · rw [Stage.last, Stage.rest, List.append_nil]
      exact hsent
    · rename_i hlt
      rw [Stage.last, Stage.rest, List.append_nil]
      rw [List.drop_eq_nil_of_le (Nat.le_of_not_lt hlt), List.nil_append] at hsent
      exact hsent

theorem close_of_not_draining {p : Pump} (h : p.draining = false) (message : PumpMessage) :
    p.close message = { p with stage := .closing message } := by
  unfold Pump.close
  rw [h]
  rfl

theorem draining_frame {p : Pump} (c : Config) (frame : Bytes) :
    (p.frame c frame).draining = p.draining := by
  unfold Pump.frame Pump.close
  split
  · rfl
  · dsimp only
    split
    · rfl
    · split <;> rfl

theorem bytes_message (ending : SourceEnd) : ending.message.bytes = [] := by
  cases ending with
  | ended => rfl
  | failed error => cases error <;> rfl

theorem ended_of_message {ending : SourceEnd} (h : ending.message = .ended) : ending = .ended := by
  cases ending with
  | ended => rfl
  | failed error => cases error <;> cases h

theorem Flow.frame {c : Config} {out frame : Bytes} {line : List PumpMessage} {source : List Bytes}
    {p : Pump} (h : Flow c out line (some (frame ++ source.flatten))) (hstage : p.stage = .waiting)
    (hdraining : p.draining = false) :
    Flow c out (line ++ (p.frame c frame).stage.last) ((p.frame c frame).stage.rest source) := by
  unfold Pump.frame
  split
  · rename_i hempty
    rw [List.isEmpty_iff.mp hempty, List.nil_append] at h
    rw [hstage, Stage.last, List.append_nil]
    exact h
  · dsimp only
    split
    · rw [close_of_not_draining hdraining]
      exact h.close rfl nofun
    · rw [hdraining]
      show Flow c out (line ++ []) (some (frame.drop 0 ++ source.flatten))
      rw [List.append_nil]
      exact h

theorem Undisturbed.next {c : Config} {s : State} (h : Undisturbed c s)
    (hstage : s.pump.stage = .waiting) : Undisturbed c (next c s) := by
  have hflow := h.flow
  rw [State.line, hstage, Stage.last, List.append_nil] at hflow
  unfold RequestBody.next
  split
  · rename_i hsource
    refine ⟨h.control, h.ready, h.draining, h.stops, h.reader, ?_⟩
    rw [close_of_not_draining h.draining]
    refine hflow.close (bytes_message c.ending) fun hended => ⟨?_, ended_of_message hended⟩
    rw [hsource]
    rfl
  · rename_i frame source hsource
    refine ⟨h.control, h.ready, ?_, h.stops, h.reader, ?_⟩
    · rw [draining_frame]
      exact h.draining
    · rw [hsource] at hflow
      exact Flow.frame hflow hstage h.draining

theorem Undisturbed.pump {c : Config} {s s' : State} (h : Undisturbed c s)
    (hmove : PumpMove c s s') : Undisturbed c s' := by
  cases hmove with
  | disturbed pump hready hsound =>
    rw [h.ready] at hready
    cases hready
  | send message hmessage hready =>
    refine ⟨h.control, h.ready, ?_, h.stops, h.reader, h.flow.resume hmessage⟩
    show (s.pump.resume c .sent).draining = false
    rw [← h.draining]
    unfold Pump.resume
    split <;> rfl
  | next hstage => exact h.next hstage
  | timeout hstage =>
    have hflow := h.flow
    rw [State.line, hstage, Stage.last, List.append_nil] at hflow
    exact ⟨h.control, h.ready, h.draining, h.stops, h.reader, hflow.close rfl nofun⟩

theorem Streamed.pump {c : Config} {s s' : State} (h : Streamed c s) (hmove : PumpMove c s s') :
    Streamed c s' := by
  have hframe : s'.terminal = s.terminal ∧ s'.chunks = s.chunks ∧ s'.reader = s.reader ∧
      s'.ended = s.ended := by
    cases hmove with
    | disturbed pump hready hsound => exact ⟨rfl, rfl, rfl, rfl⟩
    | send message hmessage hready => exact ⟨rfl, rfl, rfl, rfl⟩
    | next hstage =>
      unfold RequestBody.next
      split <;> exact ⟨rfl, rfl, rfl, rfl⟩
    | timeout hstage => exact ⟨rfl, rfl, rfl, rfl⟩
  obtain ⟨hterminal, hchunks, hreader, hended⟩ := hframe
  refine ⟨fun ht => (h.undisturbed (hterminal ▸ ht)).pump hmove, hchunks ▸ h.output, ?_, ?_⟩
  · unfold Complete
    rw [hreader, hchunks]
    exact h.cleared
  · unfold Complete
    rw [hterminal, hchunks, hended]
    exact h.ended

/-! ## The reader and the events that stop the body -/

theorem Streamed.of_terminal {c : Config} {s s' : State} (h : Streamed c s)
    (hchunks : s'.chunks = s.chunks) (hcleared : s'.reader.cleared = none ∨ s'.reader = s.reader)
    (hended : s'.ended = s.ended) (hterminal : s'.terminal ≠ none)
    (hended' : s'.terminal = some .ended → s.terminal = some .ended) : Streamed c s' := by
  refine ⟨fun ht => absurd ht hterminal, hchunks ▸ h.output, fun m hm => ?_, ?_⟩
  · rcases hcleared with he | he
    · rw [he] at hm
      cases hm
    · rw [he] at hm
      unfold Complete
      rw [hchunks]
      exact h.cleared m hm
  · unfold Complete
    rw [hchunks, hended]
    exact fun hor => h.ended (hor.imp_left hended')

theorem ended_of_getD {terminal : Option Terminal} {error : BodyError}
    (h : some (terminal.getD (.error error)) = some .ended) : terminal = some .ended := by
  cases terminal with
  | none => cases h
  | some terminal => exact h

theorem Streamed.of_reader {c : Config} {s s' : State} (h : Streamed c s)
    (hskip : ∀ m ∈ s.reader.held, m.blank) (hheld : s'.reader.held = [])
    (hstopping : s'.reader.isStopping = false) (hterminal : s'.terminal = s.terminal)
    (hchunks : s'.chunks = s.chunks) (hended : s'.ended = s.ended)
    (hcontrol : s'.control = s.control) (hready : controlReady s' = controlReady s)
    (hpump : s'.pump = s.pump) (hsource : s'.source = s.source) (hchannel : s'.channel = s.channel)
    (hstops : s'.stops = s.stops) : Streamed c s' := by
  refine ⟨fun ht => ?_, hchunks ▸ h.output, fun m hm => ?_, ?_⟩
  · obtain ⟨hc, hr, hd, hs, -, hflow⟩ := h.undisturbed (hterminal ▸ ht)
    refine ⟨hcontrol ▸ hc, hready ▸ hr, hpump ▸ hd, hstops ▸ hs, hstopping, ?_⟩
    rw [State.line, hheld, List.nil_append, hchunks, hchannel, hpump, hsource]
    rw [State.line, List.append_assoc] at hflow
    exact hflow.skip hskip
  · rw [Reader.cleared_eq_none hheld] at hm
    cases hm
  · unfold Complete
    rw [hterminal, hchunks, hended]
    exact h.ended

theorem Streamed.reader {c : Config} {s s' : State} (h : Streamed c s) (hmove : ReaderMove c s s') :
    Streamed c s' := by
  have hset : s.reader.isStopping = true → s.terminal ≠ none := by
    intro hstopping ht
    rw [(h.undisturbed ht).reader] at hstopping
    cases hstopping
  cases hmove with
  | goOn reader hheld hskip heffective hpending hstopping =>
    exact h.of_reader hskip hheld hstopping rfl rfl rfl rfl rfl rfl rfl rfl rfl
  | narrow limit reader hpending hheld hheld' heffective hstopping =>
    refine h.of_reader ?_ hheld' hstopping rfl rfl rfl rfl rfl rfl rfl rfl rfl
    rw [hheld]
    exact fun m hm => nomatch hm
  | halt narrowLimit call error hnarrow =>
    exact h.of_terminal rfl (.inl rfl) rfl (Option.some_ne_none _) ended_of_getD
  | signal call control hr =>
    exact h.of_terminal rfl (.inl rfl) rfl (hset (by rw [hr]; rfl)) id
  | wake call sent hr =>
    rw [wake_eq]
    exact h.of_terminal rfl (.inl (Reader.cleared_eq_none (held_done call))) rfl
      (hset (by rw [hr]; rfl)) id
  | report call terminal ht hcleared =>
    refine ⟨fun ht' => ?_, h.output, fun m hm => ?_, fun hor => h.ended ?_⟩
    · rw [show (returnTerminal call terminal s).terminal = s.terminal from rfl, ht] at ht'
      cases ht'
    · change call.done.cleared = some m at hm
      rw [Reader.cleared_eq_none (held_done call)] at hm
      cases hm
    · rcases hor with hterminal | hended
      · exact .inl hterminal
      · rcases Bool.or_eq_true_iff.mp hended with hended | heq
        · exact .inr hended
        · rw [ht, of_decide_eq_true heq]
          exact .inl rfl
  | receive message channel reader hchannel hheld hpending hheld' hcleared heffective =>
    refine ⟨fun ht => ?_, h.output, fun m hm => ?_, h.ended⟩
    · obtain ⟨hcontrol, hready, hdraining, hstops, -, hflow⟩ := h.undisturbed ht
      refine ⟨hcontrol, hready, hdraining, hstops, Reader.not_isStopping hheld', ?_⟩
      rw [State.line, hheld, hchannel] at hflow
      rw [State.line, hheld']
      exact hflow
    · rw [hcleared] at hm
      cases hm
  | clear message reader ht hheld hpending hcleared heffective =>
    obtain ⟨hcontrol, hready, hdraining, hstops, -, hflow⟩ := h.undisturbed ht
    have hheld' := Reader.held_eq hcleared
    rw [State.line, hheld] at hflow
    refine ⟨fun _ => ⟨hcontrol, hready, hdraining, hstops, Reader.not_isStopping hheld', ?_⟩,
      h.output, fun m hm => ?_, h.ended⟩
    · rw [State.line, hheld']
      exact hflow
    · obtain rfl : message = m := Option.some.inj (hcleared.symm.trans hm)
      refine ⟨hflow.fits_head, ?_⟩
      rintro rfl
      exact hflow.complete_head
  | deliver effective bytes reader hcleared heffective hle hpending hheld heffective' hstopping =>
    have hfits := (h.cleared _ hcleared).1
    have hflatten : (s.chunks ++ [bytes]).flatten = s.chunks.flatten ++ bytes := List.flatten_concat
    refine ⟨fun ht => ?_, ?_, fun m hm => ?_, fun hor => ?_⟩
    · obtain ⟨hcontrol, hready, hdraining, hstops, -, hflow⟩ := h.undisturbed ht
      refine ⟨hcontrol, hready, hdraining, hstops, hstopping, ?_⟩
      rw [State.line, Reader.held_eq hcleared] at hflow
      rw [State.line, hheld]
      exact hflow.tail _ hflatten
    · show (s.chunks ++ [bytes]).flatten <+: _
      rw [hflatten]
      exact hfits
    · rw [Reader.cleared_eq_none hheld] at hm
      cases hm
    · -- after the end nothing but the empty chunk would fit
      obtain ⟨hall, hending⟩ := h.ended hor
      have hlength := hfits.length_le
      change s.chunks.flatten ++ bytes <+: c.frames.flatten at hfits
      rw [← hall, PumpMessage.bytes, List.length_append] at hlength
      have hnil : bytes = [] := List.eq_nil_of_length_eq_zero (by omega)
      refine ⟨?_, hending⟩
      show (s.chunks ++ [bytes]).flatten = _
      rw [hflatten, hnil, List.append_nil, hall]
  | finish call hcleared =>
    have hcomplete := (h.cleared _ hcleared).2 rfl
    refine ⟨(fun ht => nomatch ht), h.output, fun m hm => ?_, fun _ => hcomplete⟩
    rw [Reader.cleared_eq_none (held_done call)] at hm
    cases hm

theorem Streamed.step {c : Config} {s s' : State} {a : Label} (h : Streamed c s)
    (hstep : step c s a = some s') : Streamed c s' := by
  have hset : s.stops ≠ [] → s.terminal ≠ none :=
    fun hstops ht => hstops (h.undisturbed ht).stops
  cases move_of_step hstep with
  | pump hmove => exact h.pump hmove
  | reader hmove => exact h.reader hmove
  | refused => exact h
  | begin limit reader hidle hheld heffective hpending hstopping =>
    refine h.of_reader ?_ hheld hstopping rfl rfl rfl rfl rfl rfl rfl rfl rfl
    rw [hidle]
    exact fun m hm => nomatch hm
  | stop error => exact h.of_terminal rfl (.inr rfl) rfl (Option.some_ne_none _) ended_of_getD
  | signal control stops hstops => exact h.of_terminal rfl (.inr rfl) rfl (hset hstops) id
  | wake sent stops hstops =>
    rw [wake_eq]
    exact h.of_terminal rfl (.inr rfl) rfl (hset hstops) id
  | shutdown =>
    refine ⟨fun ht => ?_, h.output, h.cleared, h.ended⟩
    obtain ⟨hcontrol, hready, hdraining, hstops, hreader, hflow⟩ := h.undisturbed ht
    exact ⟨hcontrol, hready, hdraining, hstops, hreader, hflow⟩
  | drop terminal hidle ht =>
    refine h.of_terminal rfl (.inr rfl) rfl (Option.some_ne_none _) fun hended => ?_
    change some (s.terminal.getD terminal) = some .ended at hended
    cases hterminal : s.terminal with
    | none =>
      rw [hterminal, ht, hterminal] at hended
      cases hended
    | some _ =>
      rw [hterminal] at hended
      exact hended

/-! ## Deliveries -/

def PumpControl.rank : PumpControl → ℕ
  | .running => 0
  | .drain => 1
  | .cancel => 2

theorem rank_next (a b : PumpControl) : a.rank ≤ (a.next b).rank := by
  cases a <;> cases b <;> decide

theorem control_le_of_reader {c : Config} {s s' : State} (h : ReaderMove c s s') :
    s.control.rank ≤ s'.control.rank := by
  cases h with
  | signal call control hr => exact rank_next s.control control
  | wake call sent hr =>
    exact Nat.le_of_eq (by rw [wake_eq])
  | _ => exact Nat.le_refl _

theorem control_le {c : Config} {s s' : State} (h : Move c s s') :
    s.control.rank ≤ s'.control.rank := by
  cases h with
  | pump hmove =>
    cases hmove with
    | next hstage =>
      unfold RequestBody.next
      split <;> exact Nat.le_refl _
    | _ => exact Nat.le_refl _
  | reader hmove => exact control_le_of_reader hmove
  | signal control stops hstops => exact rank_next s.control control
  | wake sent stops hstops =>
    exact Nat.le_of_eq (by rw [wake_eq])
  | drop terminal hidle ht => exact rank_next s.control _
  | _ => exact Nat.le_refl _

/-- What a step does to the chunks and to the message cleared for delivery: a chunk is delivered
when it is cleared, and it is cleared when there is no terminal outcome. -/
inductive Passed (s s' : State) : Prop
  | same (hchunks : s'.chunks = s.chunks)
      (hcleared : s'.reader.cleared = s.reader.cleared ∨ s'.reader.cleared = none)
  | cleared (hterminal : s.terminal = none) (hchunks : s'.chunks = s.chunks)
  | delivered (effective : ℕ) (bytes : Bytes) (hcleared : s.reader.cleared = some (.chunk bytes))
      (heffective : s.reader.effective = some effective) (hpending : s.reader.pending = none)
      (hle : saturatingAdd s.delivered bytes.length ≤ effective)
      (hchunks : s'.chunks = s.chunks ++ [bytes]) (hcleared' : s'.reader.cleared = none)

theorem passed_of_reader {c : Config} {s s' : State} (h : ReaderMove c s s') : Passed s s' := by
  cases h with
  | goOn reader hheld hskip heffective hpending hstopping =>
    exact .same rfl (.inr (Reader.cleared_eq_none hheld))
  | narrow limit reader hpending hheld hheld' heffective hstopping =>
    exact .same rfl (.inr (Reader.cleared_eq_none hheld'))
  | halt narrowLimit call error hnarrow => exact .same rfl (.inr rfl)
  | signal call control hr => exact .same rfl (.inr rfl)
  | wake call sent hr =>
    rw [wake_eq]
    exact .same rfl (.inr (Reader.cleared_eq_none (held_done call)))
  | report call terminal ht hcleared =>
    exact .same rfl (.inr (Reader.cleared_eq_none (held_done call)))
  | receive message channel reader hchannel hheld hpending hheld' hcleared heffective =>
    exact .same rfl (.inr hcleared)
  | clear message reader ht hheld hpending hcleared heffective => exact .cleared ht rfl
  | deliver effective bytes reader hcleared heffective hle hpending hheld heffective' hstopping =>
    exact .delivered effective bytes hcleared heffective hpending hle rfl
      (Reader.cleared_eq_none hheld)
  | finish call hcleared => exact .same rfl (.inr (Reader.cleared_eq_none (held_done call)))

theorem passed_of_move {c : Config} {s s' : State} (h : Move c s s') : Passed s s' := by
  cases h with
  | pump hmove =>
    cases hmove with
    | next hstage =>
      unfold RequestBody.next
      split <;> exact .same rfl (.inl rfl)
    | _ => exact .same rfl (.inl rfl)
  | reader hmove => exact passed_of_reader hmove
  | begin limit reader hidle hheld heffective hpending hstopping =>
    exact .same rfl (.inr (Reader.cleared_eq_none hheld))
  | wake sent stops hstops =>
    rw [wake_eq]
    exact .same rfl (.inl rfl)
  | _ => exact .same rfl (.inl rfl)

theorem terminal_of_reader {c : Config} {s s' : State} (h : ReaderMove c s s')
    (ht : s.terminal ≠ none) : s'.terminal ≠ none := by
  cases h with
  | halt narrowLimit call error hnarrow => exact Option.some_ne_none _
  | wake call sent hr =>
    rw [wake_eq]
    exact ht
  | finish call hcleared => exact Option.some_ne_none _
  | _ => exact ht

theorem terminal_of_move {c : Config} {s s' : State} (h : Move c s s') (ht : s.terminal ≠ none) :
    s'.terminal ≠ none := by
  cases h with
  | pump hmove =>
    cases hmove with
    | next hstage =>
      unfold RequestBody.next
      split <;> exact ht
    | _ => exact ht
  | reader hmove => exact terminal_of_reader hmove ht
  | stop error => exact Option.some_ne_none _
  | wake sent stops hstops =>
    rw [wake_eq]
    exact ht
  | drop terminal hidle ht' => exact Option.some_ne_none _
  | _ => exact ht

/-- What can still be delivered when a terminal outcome is set: the chunk that is cleared. -/
structure Settled (s t : State) : Prop where
  terminal : t.terminal ≠ none
  chunks : (t.chunks = s.chunks ∧
      (t.reader.cleared = s.reader.cleared ∨ t.reader.cleared = none)) ∨
    ∃ chunk, s.reader.cleared = some (.chunk chunk) ∧ t.chunks = s.chunks ++ [chunk] ∧
      t.reader.cleared = none

theorem Settled.step {c : Config} {s t t' : State} {a : Label} (h : Settled s t)
    (hstep : step c t a = some t') : Settled s t' := by
  have hmove := move_of_step hstep
  refine ⟨terminal_of_move hmove h.terminal, ?_⟩
  cases passed_of_move hmove with
  | same hchunks hcleared =>
    rcases h.chunks with ⟨he, hc⟩ | ⟨chunk, hs, he, hc⟩
    · refine .inl ⟨hchunks.trans he, ?_⟩
      rcases hcleared with hcleared | hcleared
      · rw [hcleared]
        exact hc
      · exact .inr hcleared
    · refine .inr ⟨chunk, hs, hchunks.trans he, ?_⟩
      rcases hcleared with hcleared | hcleared
      · exact hcleared.trans hc
      · exact hcleared
  | cleared hterminal hchunks => exact absurd hterminal h.terminal
  | delivered effective bytes hcleared heffective hpending hle hchunks hcleared' =>
    rcases h.chunks with ⟨he, hc | hc⟩ | ⟨chunk, hs, he, hc⟩
    · exact .inr ⟨bytes, hc ▸ hcleared, by rw [hchunks, he], hcleared'⟩
    · rw [hcleared] at hc
      cases hc
    · rw [hcleared] at hc
      cases hc

/-- The bytes counted when a chunk is delivered are within every limit requested before. -/
theorem Limited.length_le {c : Config} {s : State} {effective limit : ℕ} {bytes : Bytes}
    (h : Limited c s) (hcleared : s.reader.cleared = some (.chunk bytes))
    (heffective : s.reader.effective = some effective) (hpending : s.reader.pending = none)
    (hle : saturatingAdd s.delivered bytes.length ≤ effective) (hmem : limit ∈ s.requested)
    (hlimit : limit < u64Max) : (s.chunks ++ [bytes]).flatten.length ≤ limit := by
  have hnarrow : s.narrowLimit ≤ limit := by
    rcases h.requested limit hmem with hle | hp | ⟨-, hc⟩
    · exact hle
    · rw [hpending] at hp
      cases hp
    · rw [hcleared] at hc
      cases hc
  have heq := h.effective effective heffective
  have hcounted := h.counted
  rw [List.flatten_concat, List.length_append]
  unfold saturatingAdd at hle
  omega

theorem invariants_of_exec {c : Config} {as : List Label} {s : State}
    (h : (machine c).exec (machine c).init as = some s) : Sliced c s ∧ Limited c s ∧ Streamed c s := by
  refine (machine c).invariant_exec (P := fun s => Sliced c s ∧ Limited c s ∧ Streamed c s)
    (fun s a s' hs hstep => ⟨hs.1.step hstep, hs.2.1.step hstep, hs.2.2.step hstep⟩) ?_ h
  refine ⟨⟨?_, ?_, trivial⟩, ⟨?_, Nat.zero_le _, Nat.le_refl _, ?_, ?_⟩, streamed_init c⟩
  · exact fun bytes hmem => nomatch hmem
  · exact fun bytes hmem => nomatch hmem
  · exact (Nat.zero_min u64Max).symm
  · exact fun e he => nomatch he
  · exact fun limit hmem => nomatch hmem

/-- **The stream of a request body.** In every run the chunks returned are, put together, a prefix
of the source, they are nonempty and no larger than the chunk size, and together within the hard
limit and, when one is returned, within every limit requested by a call that got the lock by then.
A limit of `u64::MAX` is none, since the count saturates there. The end is reported only when
everything was returned and the source ended normally. The control signal only moves from running
over draining to cancelled.

A chunk is cleared for delivery only when its reader has found no terminal outcome after receiving
it. After an outcome is set, nothing is returned but a chunk that was cleared before. -/
theorem request_body_stream (c : Config) {as : List Label} {s : State}
    (h : (machine c).exec (machine c).init as = some s) :
    s.chunks.flatten <+: c.frames.flatten ∧
    (∀ chunk ∈ s.chunks, chunk ≠ [] ∧ chunk.length ≤ c.chunkSize) ∧
    (c.hardLimit < u64Max → s.chunks.flatten.length ≤ c.hardLimit) ∧
    (s.ended = true → s.chunks.flatten = c.frames.flatten ∧ c.ending = .ended) ∧
    (∀ a s', step c s a = some s' →
      s.control.rank ≤ s'.control.rank ∧
      (∀ m, s'.reader.cleared = some m → s.reader.cleared = some m ∨ s.terminal = none) ∧
      (s'.chunks = s.chunks ∨
        ∃ chunk, s.reader.cleared = some (.chunk chunk) ∧ s'.chunks = s.chunks ++ [chunk] ∧
          ∀ limit ∈ s.requested, limit < u64Max → s'.chunks.flatten.length ≤ limit)) ∧
    (s.terminal ≠ none → ∀ bs t, (machine c).exec s bs = some t →
      t.chunks = s.chunks ∨
        ∃ chunk, s.reader.cleared = some (.chunk chunk) ∧ t.chunks = s.chunks ++ [chunk]) := by
  obtain ⟨hsliced, hlimited, hstreamed⟩ := invariants_of_exec h
  refine ⟨hstreamed.output, hsliced.returned, fun hlt => ?_, fun hended => ?_, ?_, ?_⟩
  · have hcounted := hlimited.counted
    have hbounded := hlimited.bounded
    omega
  · exact hstreamed.ended (.inr hended)
  · intro a s' hstep
    have hmove := move_of_step hstep
    refine ⟨control_le hmove, ?_, ?_⟩
    · intro m hm
      cases passed_of_move hmove with
      | same hchunks hcleared =>
        rcases hcleared with he | he
        · exact .inl (he ▸ hm)
        · rw [he] at hm
          cases hm
      | cleared hterminal hchunks => exact .inr hterminal
      | delivered effective bytes hcleared heffective hpending hle hchunks hcleared' =>
        rw [hcleared'] at hm
        cases hm
    · cases passed_of_move hmove with
      | same hchunks hcleared => exact .inl hchunks
      | cleared hterminal hchunks => exact .inl hchunks
      | delivered effective bytes hcleared heffective hpending hle hchunks hcleared' =>
        refine .inr ⟨bytes, hcleared, hchunks, fun limit hmem hlimit => ?_⟩
        rw [hchunks]
        exact hlimited.length_le hcleared heffective hpending hle hmem hlimit
  · intro hterminal bs t ht
    have hsettled : Settled s t :=
      (machine c).invariant_exec (P := Settled s) (fun _ _ _ hu hstep => hu.step hstep)
        ⟨hterminal, .inl ⟨rfl, .inl rfl⟩⟩ ht
    rcases hsettled.chunks with ⟨he, -⟩ | ⟨chunk, hs, he, -⟩
    · exact .inl he
    · exact .inr ⟨chunk, hs, he⟩

/-- One frame of three bytes, in chunks of two. -/
def threeBytes : Config where
  frames := [[1, 2, 3]]
  ending := .ended
  chunkSize := 2
  capacity := 1
  hardLimit := 10
  declaredLength := none
  chunkSize_pos := Nat.succ_pos _
  capacity_pos := Nat.succ_pos _
  hardLimit_le := ten_le_u64Max

/-- A `read`, up to the point where the message it received is cleared. -/
def readCleared : List Label :=
  [.begin .read 10, .reader true, .reader true, .reader true, .reader true]

/-- Three of them, to the end of the body. -/
def readToEnd : List Label :=
  [Label.pump .next, Label.pump .send] ++ readCleared ++ [Label.reader true, Label.pump .send] ++
    readCleared ++ [Label.reader true, Label.pump .next, Label.pump .send] ++ readCleared ++
    [Label.reader true]

theorem request_body_stream_three :
    ∃ s, (machine threeBytes).exec (machine threeBytes).init readToEnd = some s ∧
      s.chunks = [[1, 2], [3]] ∧ s.ended = true ∧
      s.chunks.flatten = threeBytes.frames.flatten ∧ threeBytes.ending = .ended := by
  have hrun : ((machine threeBytes).exec (machine threeBytes).init readToEnd).map
      (fun s => (s.chunks, s.ended)) = some ([[1, 2], [3]], true) := by decide
  obtain ⟨s, hs, he⟩ := Option.map_eq_some_iff.mp hrun
  obtain ⟨hchunks, hended⟩ := Prod.mk.inj he
  exact ⟨s, hs, hchunks, hended, (request_body_stream threeBytes hs).2.2.2.1 hended⟩

/-- The watchdog of `write_file` stops the body after its reader has checked for a terminal outcome
and before the chunk is returned to the sink. -/
theorem delivery_after_stop :
    ∃ s s', (machine threeBytes).exec (machine threeBytes).init
        [.pump .next, .pump .send, .begin .writeFile 10, .reader true, .reader true, .reader true,
          .reader true, .reader true, .reader true, .stop .timeout] = some s ∧
      s.terminal = some (.error .timeout) ∧ s.chunks = [] ∧
      step threeBytes s (.reader true) = some s' ∧ s'.chunks = [[1, 2]] :=
  ⟨_, _, rfl, rfl, rfl, rfl, rfl⟩

end BasicWebserver.RequestBody
