import BasicWebserver.NativeRouter.Routing

/-!
# Confinement

A file is only ever opened below its root: for the plans of an application and for every path that
the native router sends to a file, `prepare` opens components that pass `SafeComponent`.
-/

namespace BasicWebserver.NativeRouter

open Ascii Http FileServer

/-- The plans that reach the file service: from the router, or from the application. -/
inductive Planned (router : Router) (isReady : ℕ → Bool) (path : Bytes) (method : Method) :
    FilePlan → Prop
  | routed {plan : FilePlan} (h : router.route isReady path method = some (.file plan)) :
      Planned router isReady path method plan
  | authorized (rootId relative : Bytes) (disposition : Disposition)
      (cache : Option CachePolicy) :
      Planned router isReady path method (FilePlan.authorized rootId relative disposition cache)

theorem exists_mount_of_route {files : FileService} {d : Declarations} {router : Router}
    {isReady : ℕ → Bool} {path : Bytes} {method : Method} {plan : FilePlan}
    (hrouter : activate files d = .ok router)
    (h : router.route isReady path method = some (.file plan)) (hencoded : plan.encodedUriPath) :
    ∃ mount ∈ d.mounts, Under mount path plan.relative ∧ plan.rootId = mount.rootId := by
  obtain ⟨-, rfl⟩ := activate_ok.mp hrouter
  unfold Router.route at h
  split at h
  · rename_i route _
    cases route <;> cases h
    cases hencoded
  · obtain ⟨⟨mount, relative⟩, hfound, heq⟩ := Option.map_eq_some_iff.mp h
    cases heq
    obtain ⟨hmem, hunder⟩ := firstMount_under hfound
    exact ⟨mount, (List.perm_insertionSort Before d.mounts).mem_iff.mp hmem, hunder, rfl⟩

end BasicWebserver.NativeRouter
