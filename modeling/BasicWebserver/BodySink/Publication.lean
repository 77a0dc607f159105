import BasicWebserver.BodySink.Calls

/-!
# Publication is all or nothing

What a call holds on the volume at each of its stages: nothing before its staging file is created,
then only that file, then its destination too, then only its destination. A destination never starts
with a dot and the name of a staging file does, so the two are different entries. Other calls keep
all of it, since a step changes nothing but entries of the call that takes it.
-/

namespace BasicWebserver.BodySink

open Transition
open FileServer (validateRelativePath validateRelativePath_ok)
open RequestBody (u64Max)

section Publication

variable {δ : Type} {c : Config δ}

def StagingFile.place (staging : StagingFile δ) : δ × Bytes := (staging.parent, staging.name)

theorem head?_randomStagingName (random : Bytes) :
    (randomStagingName random).head? = some 46 := rfl

theorem target_eq_some {arguments : Arguments} {p : δ × Bytes} :
    c.target arguments = some p ↔
      ∃ root segments, c.roots arguments.rootId = some root ∧
        validateRelativePath arguments.relative = .ok segments ∧
        segments.getLast? = some p.2 ∧ c.directory root segments.dropLast = some p.1 := by
  obtain ⟨parent, destination⟩ := p
  unfold Config.target
  simp only [bind, Option.bind_eq_some_iff, Option.some.injEq, Prod.mk.injEq]
  constructor
  · rintro ⟨root, hroot, segments, hsegments, d, hd, q, hq, rfl, rfl⟩
    refine ⟨root, segments, hroot, ?_, hd, hq⟩
    cases hvalid : validateRelativePath arguments.relative with
    | error e =>
      rw [hvalid] at hsegments
      cases hsegments
    | ok l =>
      rw [hvalid] at hsegments
      rw [Option.some.inj hsegments]
  · rintro ⟨root, segments, hroot, hsegments, hd, hq⟩
    exact ⟨root, hroot, segments, by rw [hsegments]; rfl, destination, hd, parent, hq, rfl, rfl⟩

theorem head?_of_target {arguments : Arguments} {p : δ × Bytes}
    (h : c.target arguments = some p) : p.2.head? ≠ some 46 := by
  obtain ⟨root, segments, -, hsegments, hlast, -⟩ := target_eq_some.mp h
  exact ((validateRelativePath_ok hsegments).1.2 _ (List.mem_of_getLast? hlast)).noDot

/-! ## What a call holds -/

section Good

variable (c) (v : Volume (δ × Bytes) (Option ℕ) UInt8) (id : ℕ) (call : Call δ)

structure Fresh : Prop where
  held : v.Held (some id) []
  chunks : call.chunks = []
  bytesWritten : call.bytesWritten = 0
  hashed : call.hashed = []

/-- Only the staging file is there. -/
structure Staged (staging : StagingFile δ) (destination : Bytes) : Prop where
  held : v.Held (some id) [(staging.place, staging.file)]
  target : c.target call.arguments = some (staging.parent, destination)
  hidden : staging.name.head? = some 46

/-- The file has what was returned by `next_chunk`, except for what is still to be written. -/
structure Copied (file : ℕ) (unwritten : Bytes) : Prop where
  contents : v.contents file = call.hashed
  chunks : call.hashed ++ unwritten = call.chunks.flatten
  bytesWritten : call.bytesWritten = call.chunks.flatten.length

/-- The file is complete and the result describes it. -/
structure Published (file : ℕ) (success : SinkSuccess) : Prop where
  contents : v.contents file = call.chunks.flatten
  bytesWritten : success.bytesWritten = call.chunks.flatten.length
  sha256 : success.sha256 =
    if call.arguments.digest = .sha256 then some (c.sha256 call.chunks.flatten) else none

def Good : Prop :=
  match call.stage with
  | .entered => Fresh v id call
  | .opening root parents destination =>
    Fresh v id call ∧ ∀ parent, c.directory root parents = some parent →
      c.target call.arguments = some (parent, destination)
  | .creating parent destination _ =>
    Fresh v id call ∧ c.target call.arguments = some (parent, destination)
  | .polling staging destination | .pulling staging destination | .ending staging destination
  | .publishing staging destination =>
    Staged c v id call staging destination ∧ Copied v call staging.file []
  | .writing staging destination chunk =>
    Staged c v id call staging destination ∧ Copied v call staging.file chunk
  | .cleaning staging destination (.error _) => Staged c v id call staging destination
  | .cleaning staging destination (.ok success) =>
    v.Held (some id)
        [(staging.place, staging.file), ((staging.parent, destination), staging.file)] ∧
      c.target call.arguments = some (staging.parent, destination) ∧
      staging.name.head? = some 46 ∧ Published c v call staging.file success
  | .dropping staging _ => v.entries staging.place = some ⟨staging.file, some id⟩
  | .returned (.ok success) =>
    ∃ p file, c.target call.arguments = some p ∧ v.Held (some id) [(p, file)] ∧
      Published c v call file success
  | .returned (.error error) => (∀ detail, error ≠ .cleanupFailed detail) → v.Held (some id) []

end Good

variable {v v' : Volume (δ × Bytes) (Option ℕ) UInt8} {id other : ℕ} {call call' : Call δ}
  {w w' : World δ}

theorem Fresh.restage (h : Fresh v id call) (stage : Stage δ) :
    Fresh v id { call with stage := stage } :=
  ⟨h.held, h.chunks, h.bytesWritten, h.hashed⟩

theorem Staged.restage {staging : StagingFile δ} {destination : Bytes}
    (h : Staged c v id call staging destination) (stage : Stage δ) :
    Staged c v id { call with stage := stage } staging destination :=
  ⟨h.held, h.target, h.hidden⟩

theorem Copied.restage {file : ℕ} {unwritten : Bytes} (h : Copied v call file unwritten)
    (stage : Stage δ) : Copied v { call with stage := stage } file unwritten :=
  ⟨h.contents, h.chunks, h.bytesWritten⟩

theorem Good.spares (h : Good c v id call) (hspares : v.Spares (some other) v')
    (hne : id ≠ other) : Good c v' id call := by
  have hne : some id ≠ some other := fun he => hne (Option.some.inj he)
  have hfresh : Fresh v id call → Fresh v' id call :=
    fun h => ⟨h.held.spares hspares hne, h.chunks, h.bytesWritten, h.hashed⟩
  have hstaged : ∀ {staging destination}, Staged c v id call staging destination →
      Staged c v' id call staging destination :=
    fun h => ⟨h.held.spares hspares hne, h.target, h.hidden⟩
  have hcopied : ∀ {staging destination unwritten}, Staged c v id call staging destination →
      Copied v call staging.file unwritten → Copied v' call staging.file unwritten :=
    fun hs h => ⟨(hs.held.contents hspares hne List.mem_cons_self).trans h.contents, h.chunks,
      h.bytesWritten⟩
  have hpublished : ∀ {l p file success}, v.Held (some id) l → (p, file) ∈ l →
      Published c v call file success → Published c v' call file success :=
    fun hl hmem h => ⟨(hl.contents hspares hne hmem).trans h.contents, h.bytesWritten, h.sha256⟩
  unfold Good at h ⊢
  split <;> rename_i hstage <;> rw [hstage] at h <;> dsimp only at h
  · exact hfresh h
  · exact ⟨hfresh h.1, h.2⟩
  · exact ⟨hfresh h.1, h.2⟩
  · exact ⟨hstaged h.1, hcopied h.1 h.2⟩
  · exact ⟨hstaged h.1, hcopied h.1 h.2⟩
  · exact ⟨hstaged h.1, hcopied h.1 h.2⟩
  · exact ⟨hstaged h.1, hcopied h.1 h.2⟩
  · exact ⟨hstaged h.1, hcopied h.1 h.2⟩
  · exact hstaged h
  · exact ⟨h.1.spares hspares hne, h.2.1, h.2.2.1, hpublished h.1 List.mem_cons_self h.2.2.2⟩
  · exact (hspares.entries _ ⟨_, some id⟩ hne).mpr h
  · obtain ⟨p, file, htarget, hheld, hp⟩ := h
    exact ⟨p, file, htarget, hheld.spares hspares hne, hpublished hheld List.mem_cons_self hp⟩
  · exact fun herror => (h herror).spares hspares hne

/-! ## One step -/

/-- The stages after `hard_link` has made the destination, and those where this is not known. -/
def Stage.mayBePublished : Stage δ → Bool
  | .cleaning _ _ (.ok _) | .dropping _ _ | .returned (.ok _)
  | .returned (.error (.cleanupFailed _)) => true
  | _ => false

/-- What a step of a call does. -/
structure Stepped (c : Config δ) (id : ℕ) (w : World δ) (call : Call δ) (w' : World δ)
    (call' : Call δ) : Prop where
  sound : w'.volume.Sound
  spares : w.volume.Spares (some id) w'.volume
  good : Good c w'.volume id call'
  arguments : call'.arguments = call.arguments
  published : call.stage.mayBePublished → call'.stage.mayBePublished

theorem Stepped.stay (hsound : w.volume.Sound) (hvolume : w'.volume = w.volume)
    (hgood : Good c w.volume id call') (harguments : call'.arguments = call.arguments)
    (hpublished : call.stage.mayBePublished → call'.stage.mayBePublished) :
    Stepped c id w call w' call' where
  sound := hvolume ▸ hsound
  spares := hvolume ▸ .refl _ _
  good := hvolume ▸ hgood
  arguments := harguments
  published := hpublished

theorem Stepped.fail {error : SinkError} (hsound : w.volume.Sound) (hvolume : w'.volume = w.volume)
    (hheld : w.volume.Held (some id) []) (hpublished : call.stage.mayBePublished = false) :
    Stepped c id w call w' { call with stage := .returned (.error error) } :=
  .stay hsound hvolume (fun _ => hheld) rfl fun h => absurd (hpublished.symm.trans h) nofun

theorem stepped_enter (hsound : w.volume.Sound) (hstage : call.stage = .entered)
    (hfresh : Fresh w.volume id call) (stopping : Bool) :
    Stepped c id w call (enter c stopping w call).1 (enter c stopping w call).2 := by
  have hfail : ∀ error, Stepped c id w call w { call with stage := .returned (.error error) } :=
    fun error => .fail hsound rfl hfresh.held (by rw [hstage]; rfl)
  unfold enter
  split
  · exact hfail _
  · split
    · exact hfail _
    · rename_i root hroot
      split
      · exact hfail _
      · rename_i segments hsegments
        split
        · exact hfail _
        · refine .stay hsound rfl ⟨hfresh.restage _, fun parent hparent => ?_⟩ rfl
            (by rw [hstage]; nofun)
          exact target_eq_some.mpr ⟨root, segments, hroot, hsegments,
            List.getLast?_eq_some_getLast _, hparent⟩

theorem stepped_pull {staging : StagingFile δ} {destination : Bytes} (hsound : w.volume.Sound)
    (hstage : call.stage = .pulling staging destination)
    (hstaged : Staged c w.volume id call staging destination)
    (hcopied : Copied w.volume call staging.file [])
    (chunk : Except RequestBody.BodyError (Option Bytes)) :
    Stepped c id w call w (pull staging destination chunk call) := by
  have hpublished : ∀ {p}, call.stage.mayBePublished → p := by
    rw [hstage]
    nofun
  unfold pull
  split
  · rename_i chunk
    dsimp only
    split
    · exact .stay hsound rfl ⟨hstaged.held, hstaged.target, hstaged.hidden⟩ rfl hpublished
    · refine .stay hsound rfl ⟨⟨hstaged.held, hstaged.target, hstaged.hidden⟩,
        hcopied.contents, ?_, ?_⟩ rfl hpublished
      · show call.hashed ++ chunk = (call.chunks ++ [chunk]).flatten
        rw [List.flatten_concat, ← hcopied.chunks, List.append_nil]
      · show call.bytesWritten + chunk.length = (call.chunks ++ [chunk]).flatten.length
        rw [List.flatten_concat, List.length_append, hcopied.bytesWritten]
  · exact .stay hsound rfl ⟨hstaged.restage _, hcopied.restage _⟩ rfl hpublished
  · exact .stay hsound rfl (hstaged.restage _) rfl hpublished

theorem stepped_write {staging : StagingFile δ} {destination chunk : Bytes} (hsound : w.volume.Sound)
    (hstage : call.stage = .writing staging destination chunk)
    (hstaged : Staged c w.volume id call staging destination)
    (hcopied : Copied w.volume call staging.file chunk) (written : ℕ) (error : Option IoError) :
    Stepped c id w call (write staging destination chunk written error w call).1
      (write staging destination chunk written error w call).2 := by
  have hentry := (hstaged.held _ _).mpr List.mem_cons_self
  have happend : ∀ data, (w.volume.append staging.file data).Sound ∧
      w.volume.Spares (some id) (w.volume.append staging.file data) :=
    fun data => hsound.append hentry
  have hpublished : ∀ {p}, call.stage.mayBePublished → p := by
    rw [hstage]
    nofun
  unfold write
  split
  · refine ⟨(happend chunk).1, (happend chunk).2, ⟨⟨hstaged.held, hstaged.target,
      hstaged.hidden⟩, ?_, ?_, hcopied.bytesWritten⟩, rfl, hpublished⟩
    · exact (Function.update_self _ _ _).trans (by rw [hcopied.contents])
    · exact (List.append_nil _).trans hcopied.chunks
  · exact ⟨(happend _).1, (happend _).2, ⟨hstaged.held, hstaged.target, hstaged.hidden⟩, rfl,
      hpublished⟩

theorem stepped_check {staging : StagingFile δ} {destination : Bytes} {next : Stage δ}
    (hsound : w.volume.Sound) (hstage : call.stage.mayBePublished = false)
    (hstaged : Staged c w.volume id call staging destination)
    (hnext : Good c w.volume id { call with stage := next }) (stopping : Bool) :
    Stepped c id w call w { call with
      stage := if stopping then .cleaning staging destination (.error .stopping) else next } := by
  have hpublished : ∀ {p}, call.stage.mayBePublished → p := fun h => by
    rw [hstage] at h
    cases h
  cases stopping with
  | true => exact .stay hsound rfl (hstaged.restage _) rfl hpublished
  | false => exact .stay hsound rfl hnext rfl hpublished

variable [DecidableEq δ]

theorem stepped_createStaging {parent : δ} {destination : Bytes} {attempts : ℕ}
    (hsound : w.volume.Sound) (hstage : call.stage = .creating parent destination attempts)
    (hfresh : Fresh w.volume id call)
    (htarget : c.target call.arguments = some (parent, destination)) {random : Option Bytes}
    {error : Option IoError}
    (h : createStaging id parent destination attempts random error w call = some (w', call')) :
    Stepped c id w call w' call' := by
  have hfail : ∀ {error}, some (release (.error error) w call) = some (w', call') →
      Stepped c id w call w' call' := by
    intro error h
    cases h
    exact .fail hsound rfl hfresh.held (by rw [hstage]; rfl)
  unfold createStaging at h
  split at h
  · exact hfail h
  · exact hfail h
  · rename_i attempts random
    dsimp only at h
    split at h
    · obtain ⟨volume, hcreate, he⟩ := Option.map_eq_some_iff.mp h
      cases he
      obtain ⟨hsound', hspares⟩ := hsound.create hcreate
      have hempty : volume.contents w.volume.next = [] := by
        obtain ⟨-, rfl⟩ := Volume.create_eq_some hcreate
        exact Function.update_self _ _ _
      refine ⟨hsound', hspares, ⟨⟨hfresh.held.create hcreate, htarget,
        head?_randomStagingName random⟩, ?_⟩, rfl, by rw [hstage]; nofun⟩
      refine ⟨hempty.trans hfresh.hashed.symm, ?_, ?_⟩
      · show call.hashed ++ [] = call.chunks.flatten
        rw [hfresh.hashed, hfresh.chunks]
        rfl
      · show call.bytesWritten = call.chunks.flatten.length
        rw [hfresh.bytesWritten, hfresh.chunks]
        rfl
    · split at h
      · cases h
        exact .stay hsound rfl ⟨hfresh.restage _, htarget⟩ rfl (by rw [hstage]; nofun)
      · exact hfail h

section Staging

variable {staging : StagingFile δ} {destination : Bytes}

theorem stepped_publish (hsound : w.volume.Sound)
    (hstage : call.stage = .publishing staging destination)
    (hstaged : Staged c w.volume id call staging destination)
    (hcopied : Copied w.volume call staging.file []) {error : Option IoError}
    (h : publish c id staging destination error w call = some (w', call')) :
    Stepped c id w call w' call' := by
  have hpublished : ∀ {p}, call.stage.mayBePublished → p := by
    rw [hstage]
    nofun
  have hhashed : call.hashed = call.chunks.flatten :=
    (List.append_nil _).symm.trans hcopied.chunks
  unfold publish at h
  split at h
  · obtain ⟨volume, hlink, he⟩ := Option.map_eq_some_iff.mp h
    cases he
    have hentry := (hstaged.held _ _).mpr List.mem_cons_self
    obtain ⟨hsound', hspares⟩ := hsound.link hentry hlink
    have hheld := hstaged.held.link List.mem_cons_self hlink
    have hcontents : volume.contents = w.volume.contents := by
      obtain ⟨-, rfl⟩ := Volume.link_eq_some hlink hentry
      rfl
    refine ⟨hsound', hspares, ⟨fun p file => (hheld p file).trans ?_, hstaged.target,
      hstaged.hidden, ?_, hcopied.bytesWritten, ?_⟩, rfl, fun _ => rfl⟩
    · rw [List.mem_cons, List.mem_singleton, List.mem_cons, List.mem_singleton, or_comm]
    · show volume.contents staging.file = call.chunks.flatten
      rw [hcontents, hcopied.contents, hhashed]
    · show (if call.arguments.digest = .sha256 then some (c.sha256 call.hashed) else none) = _
      rw [hhashed]
  · cases h
    exact .stay hsound rfl (hstaged.restage _) rfl hpublished

theorem stepped_cleanup {result : Result} (hsound : w.volume.Sound)
    (hstage : call.stage = .cleaning staging destination result)
    (hgood : Good c w.volume id call) {error : Option IoError}
    (h : cleanup c staging result error w call = some (w', call')) :
    Stepped c id w call w' call' := by
  unfold cleanup at h
  unfold Good at hgood
  rw [hstage] at hgood
  cases result with
  | error e =>
    have hentry := (hgood.held _ _).mpr List.mem_cons_self
    split at h
    · obtain ⟨volume, hremove, he⟩ := Option.map_eq_some_iff.mp h
      cases he
      obtain ⟨hsound', hspares⟩ := hsound.remove hentry hremove
      exact ⟨hsound', hspares, fun _ => hgood.held.remove nofun hremove, rfl, by rw [hstage]; nofun⟩
    · cases h
      exact .stay hsound rfl hentry rfl fun _ => rfl
  | ok success =>
    obtain ⟨hheld, htarget, hhidden, hp⟩ := hgood
    have hentry := (hheld _ _).mpr List.mem_cons_self
    split at h
    · obtain ⟨volume, hremove, he⟩ := Option.map_eq_some_iff.mp h
      cases he
      obtain ⟨hsound', hspares⟩ := hsound.remove hentry hremove
      have hheld' : volume.Held (some id) [((staging.parent, destination), staging.file)] := by
        refine hheld.remove (fun file hmem => ?_) hremove
        obtain ⟨hplace, -⟩ := Prod.mk.inj (List.mem_singleton.mp hmem)
        exact head?_of_target htarget ((Prod.mk.inj hplace).2 ▸ hhidden)
      have hcontents : volume.contents = w.volume.contents := by
        obtain rfl := Volume.remove_eq_some hremove
        rfl
      exact ⟨hsound', hspares, ⟨_, _, htarget, hheld', hcontents ▸ hp.contents, hp.bytesWritten,
        hp.sha256⟩, rfl, fun _ => rfl⟩
    · cases h
      exact .stay hsound rfl hentry rfl fun _ => rfl

theorem stepped_dropStaging {detail : String} (hsound : w.volume.Sound)
    (hentry : w.volume.entries staging.place = some ⟨staging.file, some id⟩)
    {error : Option IoError} (h : dropStaging staging detail error w call = some (w', call')) :
    Stepped c id w call w' call' := by
  have hreturned : ∀ volume : Volume (δ × Bytes) (Option ℕ) UInt8, Good c volume id
      { call with stage := .returned (.error (.cleanupFailed detail)) } :=
    fun volume hne => absurd rfl (hne detail)
  unfold dropStaging at h
  split at h
  · obtain ⟨volume, hremove, he⟩ := Option.map_eq_some_iff.mp h
    cases he
    obtain ⟨hsound', hspares⟩ := hsound.remove hentry hremove
    exact ⟨hsound', hspares, hreturned volume, rfl, fun _ => rfl⟩
  · cases h
    exact .stay hsound rfl (hreturned _) rfl fun _ => rfl

end Staging

theorem stepped_of_step {action : Action} (hsound : w.volume.Sound)
    (hgood : Good c w.volume id call) (h : call.step c id action w = some (w', call')) :
    Stepped c id w call w' call' := by
  have hheld := hgood
  unfold Good at hheld
  unfold Call.step at h
  split at h
  case h_12 => cases h
  all_goals
    rename_i hstage
    rw [hstage] at hheld
  · rename_i stopping
    have hs := stepped_enter (c := c) hsound hstage hheld stopping
    rwa [Option.some.inj h] at hs
  · cases h
    exact .fail hsound rfl hheld.1.held (by rw [hstage]; rfl)
  · obtain ⟨parent, hparent, he⟩ := Option.map_eq_some_iff.mp h
    cases he
    exact .stay hsound rfl ⟨hheld.1.restage _, hheld.2 parent hparent⟩ rfl
      (by rw [hstage]; nofun)
  · exact stepped_createStaging hsound hstage hheld.1 hheld.2 h
  · cases h
    refine stepped_check hsound (by rw [hstage]; rfl) hheld.1 ?_ _
    exact ⟨hheld.1.restage _, hheld.2.restage _⟩
  · cases h
    exact stepped_pull hsound hstage hheld.1 hheld.2 _
  · rename_i written error
    have hs := stepped_write hsound hstage hheld.1 hheld.2 written error
    rwa [Option.some.inj h] at hs
  · cases h
    refine stepped_check hsound (by rw [hstage]; rfl) hheld.1 ?_ _
    exact ⟨hheld.1.restage _, hheld.2.restage _⟩
  · exact stepped_publish hsound hstage hheld.1 hheld.2 h
  · exact stepped_cleanup hsound hstage hgood h
  · exact stepped_dropStaging hsound hheld h

/-! ## All steps -/

structure Inv (c : Config δ) (s : State δ) : Prop where
  sound : s.world.volume.Sound
  /-- The entries of calls are of calls that there are. -/
  creators : ∀ id, s.calls.length ≤ id → s.world.volume.Held (some id) []
  good : ∀ id call, s.calls[id]? = some call → Good c s.world.volume id call

theorem step_act {s s' : State δ} {id : ℕ} {action : Action}
    (h : step c s (.act id action) = some s') :
    ∃ call call', s.calls[id]? = some call ∧
      call.step c id action s.world = some (s'.world, call') ∧ s'.calls = s.calls.set id call' := by
  obtain ⟨call, hcall, h⟩ := Option.bind_eq_some_iff.mp h
  obtain ⟨⟨world, call'⟩, hstep, rfl⟩ := Option.map_eq_some_iff.mp h
  exact ⟨call, call', hcall, hstep, rfl⟩

theorem Inv.stepped {s s' : State δ} (h : Inv c s) {id : ℕ} {action : Action}
    (hstep : step c s (.act id action) = some s') :
    ∃ call call', s.calls[id]? = some call ∧ s'.calls = s.calls.set id call' ∧
      Stepped c id s.world call s'.world call' := by
  obtain ⟨call, call', hcall, hcallstep, hcalls⟩ := step_act hstep
  exact ⟨call, call', hcall, hcalls, stepped_of_step h.sound (h.good id call hcall) hcallstep⟩

theorem Inv.step {s s' : State δ} {a : Label} (h : Inv c s) (hstep : step c s a = some s') :
    Inv c s' := by
  cases a with
  | call arguments =>
    cases hstep
    refine ⟨h.sound, fun id hid => h.creators id ?_, fun id call hcall => ?_⟩
    · rw [List.length_append] at hid
      exact Nat.le_of_add_right_le hid
    · rcases Nat.lt_trichotomy id s.calls.length with hlt | rfl | hgt
      · rw [List.getElem?_append_left hlt] at hcall
        exact h.good id call hcall
      · rw [List.getElem?_concat_length] at hcall
        cases hcall
        exact ⟨h.creators _ (Nat.le_refl _), rfl, rfl, rfl⟩
      · rw [List.getElem?_eq_none (by rw [List.length_append]; exact hgt)] at hcall
        cases hcall
  | act index action =>
    obtain ⟨call, call', hcall, hcalls, hs⟩ := h.stepped hstep
    have hindex := (List.getElem?_eq_some_iff.mp hcall).1
    refine ⟨hs.sound, fun id hid => ?_, fun id other hother => ?_⟩
    · rw [hcalls, List.length_set] at hid
      exact (h.creators id hid).spares hs.spares
        fun he => absurd hindex (Nat.not_lt.mpr (Option.some.inj he ▸ hid))
    · rw [hcalls] at hother
      rcases eq_or_ne id index with rfl | hne
      · rw [List.getElem?_set_self hindex] at hother
        cases hother
        exact hs.good
      · rw [List.getElem?_set_ne hne.symm] at hother
        exact (h.good id other hother).spares hs.spares hne

theorem inv_init (existing : Existing δ) : Inv c (machine c existing).init where
  sound := by
    have hfile : ∀ p e, existing.volume.entries p = some e →
        existing.entries p = some e.file ∧ e.creator = none := by
      intro p e he
      obtain ⟨file, hfile, rfl⟩ := Option.map_eq_some_iff.mp he
      exact ⟨hfile, rfl⟩
    refine ⟨fun p e he => existing.fresh p e.file (hfile p e he).1, fun p q e f he hf _ => ?_⟩
    rw [(hfile p e he).2, (hfile q f hf).2]
  creators := by
    intro id _ p file
    refine ⟨fun he => ?_, nofun⟩
    obtain ⟨_, -, he⟩ := Option.map_eq_some_iff.mp he
    cases he
  good := nofun

theorem inv_of_exec {existing : Existing δ} {as : List Label} {s : State δ}
    (h : (machine c existing).exec (machine c existing).init as = some s) : Inv c s :=
  (machine c existing).invariant_exec (fun _ _ _ hs hstep => hs.step hstep) (inv_init existing) h

/-! ## Calls over a run -/

/-- Calls stay, with their arguments, and what may be published stays so. -/
def Follows (s t : State δ) : Prop :=
  ∀ (id : ℕ) call, s.calls[id]? = some call → ∃ call', t.calls[id]? = some call' ∧
    call'.arguments = call.arguments ∧ (call.stage.mayBePublished → call'.stage.mayBePublished)

theorem Inv.follows {s s' : State δ} {a : Label} (h : Inv c s)
    (hstep : BodySink.step c s a = some s') : Follows s s' := by
  intro id call hcall
  have hid := (List.getElem?_eq_some_iff.mp hcall).1
  cases a with
  | call arguments =>
    cases hstep
    exact ⟨call, (List.getElem?_append_left hid).trans hcall, rfl, fun h => h⟩
  | act index action =>
    obtain ⟨other, other', hother, hcalls, hs⟩ := h.stepped hstep
    rcases eq_or_ne id index with rfl | hne
    · cases hcall.symm.trans hother
      exact ⟨other', by rw [hcalls, List.getElem?_set_self hid], hs.arguments, hs.published⟩
    · exact ⟨call, by rw [hcalls, List.getElem?_set_ne hne.symm, hcall], rfl, fun h => h⟩

theorem Inv.follows_exec {existing : Existing δ} {s t : State δ} {bs : List Label} (h : Inv c s)
    (hbs : (machine c existing).exec s bs = some t) : Follows s t := by
  have hboth : Inv c t ∧ Follows s t := by
    refine (machine c existing).invariant_exec (P := fun t => Inv c t ∧ Follows s t) ?_
      ⟨h, fun id call hcall => ⟨call, hcall, rfl, fun h => h⟩⟩ hbs
    rintro u a u' ⟨hu, hfollows⟩ hstep
    refine ⟨hu.step hstep, fun id call hcall => ?_⟩
    obtain ⟨call', hcall', harguments, hpublished⟩ := hfollows id call hcall
    obtain ⟨call'', hcall'', harguments', hpublished'⟩ := hu.follows hstep id call' hcall'
    exact ⟨call'', hcall'', harguments'.trans harguments, fun h => hpublished' (hpublished h)⟩
  exact hboth.2

omit [DecidableEq δ] in
theorem Good.mayBePublished (h : Good c v id call) {p : δ × Bytes} {file : ℕ}
    (htarget : c.target call.arguments = some p)
    (hentry : v.entries p = some ⟨file, some id⟩) : call.stage.mayBePublished := by
  have hnone : ¬ v.Held (some id) [] := fun hheld => List.not_mem_nil ((hheld p file).mp hentry)
  have hstaged : ∀ {staging destination}, ¬ Staged c v id call staging destination := by
    intro staging destination hs
    obtain ⟨hplace, -⟩ := Prod.mk.inj (List.mem_singleton.mp ((hs.held p file).mp hentry))
    exact head?_of_target htarget (hplace ▸ hs.hidden)
  unfold Good at h
  split at h <;> rename_i hstage
  · exact absurd h.held hnone
  · exact absurd h.1.held hnone
  · exact absurd h.1.held hnone
  · exact absurd h.1 hstaged
  · exact absurd h.1 hstaged
  · exact absurd h.1 hstaged
  · exact absurd h.1 hstaged
  · exact absurd h.1 hstaged
  · exact absurd h hstaged
  · rw [hstage]
    rfl
  · rw [hstage]
    rfl
  · rw [hstage]
    rfl
  · rename_i error
    by_contra hnot
    refine hnone (h fun detail he => hnot ?_)
    rw [hstage, he]
    rfl

/-- **Publication is all or nothing.** For any calls at once, whatever their bodies are and whatever
fails: when a call has returned successfully, its destination is its own entry, has exactly the
chunks of its body, which the result describes, and is the only entry it has left. When it has
returned another error than a failed cleanup, it has no entry, and at no time had one at its
destination. A step of a call changes no entry that the call did not create. Of the calls for one
destination at most one succeeds. -/
theorem write_file_all_or_nothing (c : Config δ) (existing : Existing δ) {as : List Label}
    {s : State δ} (h : (machine c existing).exec (machine c existing).init as = some s) :
    (∀ (id : ℕ) call success, s.calls[id]? = some call → call.stage = .returned (.ok success) →
      ∃ p file, c.target call.arguments = some p ∧
        s.world.volume.entries p = some ⟨file, some id⟩ ∧
        s.world.volume.contents file = call.chunks.flatten ∧
        success.bytesWritten = call.chunks.flatten.length ∧
        success.sha256 =
          (if call.arguments.digest = .sha256 then some (c.sha256 call.chunks.flatten) else none) ∧
        ∀ q g, s.world.volume.entries q = some ⟨g, some id⟩ → q = p) ∧
    (∀ (id : ℕ) call error, s.calls[id]? = some call → call.stage = .returned (.error error) →
      (∀ detail, error ≠ .cleanupFailed detail) →
      (∀ q g, s.world.volume.entries q ≠ some ⟨g, some id⟩) ∧
      ∀ bs cs u p g, as = bs ++ cs →
        (machine c existing).exec (machine c existing).init bs = some u →
        c.target call.arguments = some p → u.world.volume.entries p ≠ some ⟨g, some id⟩) ∧
    (∀ id action s', step c s (.act id action) = some s' →
      s.world.volume.Spares (some id) s'.world.volume) ∧
    (∀ (id id' : ℕ) call call' success success', s.calls[id]? = some call →
      s.calls[id']? = some call' → call.stage = .returned (.ok success) →
      call'.stage = .returned (.ok success') →
      c.target call.arguments = c.target call'.arguments → id = id') := by
  have hinv := inv_of_exec h
  have hok : ∀ (id : ℕ) call success, s.calls[id]? = some call →
      call.stage = .returned (.ok success) →
      ∃ p file, c.target call.arguments = some p ∧
        s.world.volume.Held (some id) [(p, file)] ∧
        Published c s.world.volume call file success := by
    intro id call success hcall hstage
    have hgood := hinv.good id call hcall
    unfold Good at hgood
    rwa [hstage] at hgood
  refine ⟨fun id call success hcall hstage => ?_, fun id call error hcall hstage herror => ?_,
    fun id action s' hstep => ?_, ?_⟩
  · obtain ⟨p, file, htarget, hheld, hp⟩ := hok id call success hcall hstage
    refine ⟨p, file, htarget, (hheld p file).mpr List.mem_cons_self, hp.contents, hp.bytesWritten,
      hp.sha256, fun q g hq => ?_⟩
    exact (Prod.mk.inj (List.mem_singleton.mp ((hheld q g).mp hq))).1
  · have hgood := hinv.good id call hcall
    unfold Good at hgood
    rw [hstage] at hgood
    refine ⟨fun q g hq => List.not_mem_nil ((hgood herror q g).mp hq), ?_⟩
    rintro bs cs u p g rfl hu htarget hentry
    obtain ⟨u', hu', hcs⟩ := (machine c existing).exec_append.mp h
    cases hu.symm.trans hu'
    have hinvu := inv_of_exec hu
    rcases Nat.lt_or_ge id u.calls.length with hlt | hge
    · -- the call was there and has linked its destination
      have hthere := List.getElem?_eq_getElem hlt
      obtain ⟨call', hcall', harguments, hpublished⟩ := hinvu.follows_exec hcs id _ hthere
      cases hcall.symm.trans hcall'
      rw [harguments] at htarget
      have hmay := hpublished ((hinvu.good id _ hthere).mayBePublished htarget hentry)
      rw [hstage] at hmay
      cases error with
      | cleanupFailed detail => exact herror detail rfl
      | _ => cases hmay
    · exact List.not_mem_nil ((hinvu.creators id hge p g).mp hentry)
  · obtain ⟨call, call', -, -, hs⟩ := hinv.stepped hstep
    exact hs.spares
  · intro id id' call call' success success' hcall hcall' hstage hstage' heq
    obtain ⟨p, file, htarget, hheld, -⟩ := hok id call success hcall hstage
    obtain ⟨p', file', htarget', hheld', -⟩ := hok id' call' success' hcall' hstage'
    obtain rfl : p = p' := Option.some.inj (htarget.symm.trans (heq.trans htarget'))
    have hentry := (hheld p file).mpr List.mem_cons_self
    have hentry' := (hheld' p file').mpr List.mem_cons_self
    exact Option.some.inj (Volume.Entry.mk.inj (Option.some.inj (hentry.symm.trans hentry'))).2

end Publication

def oneRoot : Config Unit where
  roots := fun _ => some ()
  child := fun _ _ => none
  maxConcurrent := 2
  sha256 := id
  debug := fun _ => ""

def noFiles : Existing Unit := ⟨fun _ => none, fun _ => [], 0, nofun⟩

/-- A call up to its `hard_link`, with one chunk. -/
def upToLink (index : ℕ) (chunk : Bytes) : List Label :=
  [.act index (.enter false), .act index (.openParent none),
    .act index (.create (some [UInt8.ofNat index]) none), .act index (.check false),
    .act index (.nextChunk (.ok (some chunk))), .act index (.write 0 none),
    .act index (.check false), .act index (.nextChunk (.ok none)), .act index (.check false)]

/-- Two calls for one destination, the second linking first. -/
def twoUploads : List Label :=
  [Label.call ⟨[1], [97], .sha256⟩, Label.call ⟨[1], [97], .none⟩] ++ upToLink 0 [104, 105] ++
    upToLink 1 [111] ++
    [Label.act 1 (.link none), Label.act 0 (.link (some ⟨.alreadyExists, "File exists"⟩)),
      Label.act 0 (.remove none), Label.act 1 (.remove none)]

theorem write_file_all_or_nothing_two :
    ∃ s p file, (machine oneRoot noFiles).exec (machine oneRoot noFiles).init twoUploads = some s ∧
      s.world.volume.entries p = some ⟨file, some 1⟩ ∧
      s.world.volume.contents file = [111] ∧
      ∀ q g, s.world.volume.entries q ≠ some ⟨g, some 0⟩ := by
  obtain ⟨s, first, second, hs, hfirst, herror, hsecond, hok, hchunks⟩ :
      ∃ s first second,
        (machine oneRoot noFiles).exec (machine oneRoot noFiles).init twoUploads = some s ∧
        s.calls[0]? = some first ∧ first.stage = .returned (.error .destinationExists) ∧
        s.calls[1]? = some second ∧ second.stage = .returned (.ok ⟨1, none⟩) ∧
        second.chunks = [[111]] :=
    ⟨_, _, _, rfl, rfl, rfl, rfl, rfl, rfl⟩
  obtain ⟨hpublished, hnothing, -, -⟩ := write_file_all_or_nothing oneRoot noFiles hs
  obtain ⟨p, file, -, hentry, hcontents, -⟩ := hpublished 1 second _ hsecond hok
  rw [hchunks] at hcontents
  exact ⟨s, p, file, hs, hentry, hcontents, (hnothing 0 first _ hfirst herror nofun).1⟩

end BasicWebserver.BodySink
