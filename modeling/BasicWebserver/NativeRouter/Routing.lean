import BasicWebserver.NativeRouter.Router

/-!
# What the native router does

`Valid` says which declarations are accepted and `RoutesTo` where a path goes, both without a word
about the order of the declarations or of the tables. `native_routing` says that activation and the
scan of the sorted tables do just that.
-/

namespace BasicWebserver.NativeRouter

open Ascii Http FileServer Fallible

/-! ## The declared routes -/

/-- The exact route of a file declaration, if it is one. -/
def FileRouteSpec.exacts (spec : FileRouteSpec) : List (Bytes × ExactRoute) :=
  match spec.kind with
  | .exact => [(spec.path, .file spec.rootId spec.relative spec.cache)]
  | .prefixed => []

def FileRouteSpec.mounts (spec : FileRouteSpec) : List PrefixRoute :=
  match spec.kind with
  | .exact => []
  | .prefixed => [⟨spec.path, spec.rootId, spec.cache⟩]

namespace Declarations

def exacts (d : Declarations) : List (Bytes × ExactRoute) :=
  d.files.flatMap FileRouteSpec.exacts ++ d.liveness.map (·, ExactRoute.liveness) ++
    d.readiness.map (fun spec => (spec.path, ExactRoute.readiness spec.readiness)) ++
    d.metrics.toList.map (·, ExactRoute.metrics)

def mounts (d : Declarations) : List PrefixRoute := d.files.flatMap FileRouteSpec.mounts

/-- The same declarations in another order. -/
structure Permuted (d d' : Declarations) : Prop where
  files : d.files.Perm d'.files
  liveness : d.liveness.Perm d'.liveness
  readiness : d.readiness.Perm d'.readiness
  metrics : d.metrics = d'.metrics

variable {d d' : Declarations}

theorem Permuted.symm (h : d.Permuted d') : d'.Permuted d :=
  ⟨h.files.symm, h.liveness.symm, h.readiness.symm, h.metrics.symm⟩

theorem Permuted.exacts (h : d.Permuted d') : d.exacts.Perm d'.exacts := by
  unfold Declarations.exacts
  rw [h.metrics]
  exact (((h.files.flatMap_right _).append (h.liveness.map _)).append (h.readiness.map _)).append_right _

theorem Permuted.mounts (h : d.Permuted d') : d.mounts.Perm d'.mounts :=
  h.files.flatMap_right _

theorem Permuted.count (h : d.Permuted d') : d.count = d'.count := by
  unfold Declarations.count
  rw [h.files.length_eq, h.liveness.length_eq, h.readiness.length_eq, h.metrics]

end Declarations

/-- A declaration of files that is accepted. -/
structure ValidSpec (files : FileService) (spec : FileRouteSpec) : Prop where
  path : isRoutePath spec.path
  mount : spec.kind = .prefixed → spec.relative = []
  root : (files.roots spec.rootId).isSome
  relative : spec.kind = .exact → ∃ components, validateRelativePath spec.relative = .ok components

/-- Declarations that are accepted. -/
structure Valid (files : FileService) (d : Declarations) : Prop where
  count : d.count ≤ maxNativeRoutes
  files : ∀ spec ∈ d.files, ValidSpec files spec
  liveness : ∀ path ∈ d.liveness, isRoutePath path
  readiness : ∀ spec ∈ d.readiness, isRoutePath spec.path
  metrics : ∀ path ∈ d.metrics, isRoutePath path
  exactNodup : (d.exacts.map Prod.fst).Nodup
  mountsNodup : (d.mounts.map PrefixRoute.path).Nodup

theorem Valid.permuted {files : FileService} {d d' : Declarations} (h : d.Permuted d')
    (hd : Valid files d) : Valid files d' where
  count := h.count ▸ hd.count
  files := fun spec hspec => hd.files spec (h.files.mem_iff.mpr hspec)
  liveness := fun path hpath => hd.liveness path (h.liveness.mem_iff.mpr hpath)
  readiness := fun spec hspec => hd.readiness spec (h.readiness.mem_iff.mpr hspec)
  metrics := h.metrics ▸ hd.metrics
  exactNodup := (h.exacts.map _).nodup_iff.mp hd.exactNodup
  mountsNodup := (h.mounts.map _).nodup_iff.mp hd.mountsNodup

/-! ## Activation -/

/-- The function adds these routes to the tables, when they are acceptable and new. -/
structure Adds {α : Type} (f : Tables → α → Except RouteError Tables) (ok : α → Prop)
    (exacts : α → List (Bytes × ExactRoute)) (mounts : α → List PrefixRoute) : Prop where
  sound : ∀ {t a t'}, f t a = .ok t' →
    ok a ∧ t'.exact = t.exact ++ exacts a ∧ t'.prefixes = t.prefixes ++ mounts a
  complete : ∀ {t a}, ok a → ((t.exact ++ exacts a).map Prod.fst).Nodup →
    ((t.prefixes ++ mounts a).map PrefixRoute.path).Nodup → ∃ t', f t a = .ok t'

section Adds

variable {α : Type} {f : Tables → α → Except RouteError Tables} {ok : α → Prop}
  {exacts : α → List (Bytes × ExactRoute)} {mounts : α → List PrefixRoute}

theorem Adds.foldlM (h : Adds f ok exacts mounts) :
    Adds (fun t (l : List α) => l.foldlM f t) (fun l => ∀ a ∈ l, ok a) (·.flatMap exacts)
      (·.flatMap mounts) where
  sound := by
    intro t l t' hl
    induction l generalizing t with
    | nil =>
      cases hl
      exact ⟨nofun, (List.append_nil _).symm, (List.append_nil _).symm⟩
    | cons a l ih =>
      rw [List.foldlM_cons] at hl
      obtain ⟨t₁, ht₁, hl⟩ := bind_eq_ok.mp hl
      obtain ⟨hok, hexact, hmounts⟩ := h.sound ht₁
      obtain ⟨hall, hexact', hmounts'⟩ := ih hl
      refine ⟨List.forall_mem_cons.mpr ⟨hok, hall⟩, ?_, ?_⟩
      · rw [hexact', hexact, List.append_assoc, List.flatMap_cons]
      · rw [hmounts', hmounts, List.append_assoc, List.flatMap_cons]
  complete := by
    intro t l hall hexact hmounts
    induction l generalizing t with
    | nil => exact ⟨t, rfl⟩
    | cons a l ih =>
      obtain ⟨hok, hall⟩ := List.forall_mem_cons.mp hall
      rw [List.flatMap_cons, ← List.append_assoc, List.map_append] at hexact hmounts
      obtain ⟨t₁, ht₁⟩ := h.complete hok (List.nodup_append.mp hexact).1
        (List.nodup_append.mp hmounts).1
      obtain ⟨-, hexact₁, hmounts₁⟩ := h.sound ht₁
      obtain ⟨t', ht'⟩ := ih hall (by rw [hexact₁, List.map_append]; exact hexact)
        (by rw [hmounts₁, List.map_append]; exact hmounts)
      exact ⟨t', by rw [List.foldlM_cons]; exact bind_eq_ok.mpr ⟨t₁, ht₁, ht'⟩⟩

theorem Adds.bind {β : Type} {g : Tables → β → Except RouteError Tables} {ok' : β → Prop}
    {exacts' : β → List (Bytes × ExactRoute)} {mounts' : β → List PrefixRoute}
    (h : Adds f ok exacts mounts) (h' : Adds g ok' exacts' mounts') :
    Adds (fun t (p : α × β) => f t p.1 >>= fun t => g t p.2) (fun p => ok p.1 ∧ ok' p.2)
      (fun p => exacts p.1 ++ exacts' p.2) (fun p => mounts p.1 ++ mounts' p.2) where
  sound := by
    intro t p t' hp
    obtain ⟨t₁, ht₁, ht'⟩ := bind_eq_ok.mp hp
    obtain ⟨hok, hexact, hmounts⟩ := h.sound ht₁
    obtain ⟨hok', hexact', hmounts'⟩ := h'.sound ht'
    refine ⟨⟨hok, hok'⟩, ?_, ?_⟩
    · rw [hexact', hexact, List.append_assoc]
    · rw [hmounts', hmounts, List.append_assoc]
  complete := by
    intro t p hok hexact hmounts
    rw [← List.append_assoc, List.map_append] at hexact hmounts
    obtain ⟨t₁, ht₁⟩ := h.complete hok.1 (List.nodup_append.mp hexact).1
      (List.nodup_append.mp hmounts).1
    obtain ⟨-, hexact₁, hmounts₁⟩ := h.sound ht₁
    obtain ⟨t', ht'⟩ := h'.complete hok.2 (by rw [hexact₁, List.map_append]; exact hexact)
      (by rw [hmounts₁, List.map_append]; exact hmounts)
    exact ⟨t', bind_eq_ok.mpr ⟨t₁, ht₁, ht'⟩⟩

end Adds

theorem validateRoutePath_ok {path : Bytes} {u : Unit} :
    validateRoutePath path = .ok u ↔ isRoutePath path := by
  unfold validateRoutePath
  rw [ite_error_eq_ok]
  simp

theorem validateNativeRoute_ok {files : FileService} {path rootId : Bytes} {relative : Option Bytes}
    {u : Unit} : validateNativeRoute files path rootId relative = .ok u ↔
      (files.roots rootId).isSome ∧
        ∀ r ∈ relative, ∃ components, validateRelativePath r = .ok components := by
  unfold validateNativeRoute
  rw [ite_error_eq_ok, Option.isNone_iff_eq_none, ← Ne, Option.ne_none_iff_isSome]
  refine and_congr_right fun _ => ?_
  cases relative with
  | none => exact ⟨fun _ => nofun, fun _ => rfl⟩
  | some relative =>
    dsimp only
    cases h : validateRelativePath relative with
    | error e =>
      refine ⟨nofun, fun hall => ?_⟩
      obtain ⟨components, hc⟩ := hall relative rfl
      rw [h] at hc
      cases hc
    | ok components =>
      refine ⟨fun _ r hr => ?_, fun _ => rfl⟩
      cases hr
      exact ⟨components, h⟩

theorem insertExact_ok {t t' : Tables} {path : Bytes} {route : ExactRoute}
    (h : insertExact t path route = .ok t') :
    t'.exact = t.exact ++ [(path, route)] ∧ t'.prefixes = t.prefixes := by
  unfold insertExact at h
  split at h
  · cases h
  · cases h
    exact ⟨rfl, rfl⟩

theorem insertExact_of_nodup {t : Tables} {path : Bytes} {route : ExactRoute}
    (h : ((t.exact ++ [(path, route)]).map Prod.fst).Nodup) :
    ∃ t', insertExact t path route = .ok t' := by
  unfold insertExact
  rw [dif_neg]
  · exact ⟨_, rfl⟩
  · intro hany
    obtain ⟨other, hother, hpath⟩ := List.any_eq_true.mp hany
    rw [List.map_append, List.nodup_append] at h
    exact h.2.2 _ (List.mem_map_of_mem hother) path List.mem_cons_self (of_decide_eq_true hpath)

theorem insertPrefix_ok {t t' : Tables} {route : PrefixRoute}
    (h : insertPrefix t route = .ok t') :
    t'.exact = t.exact ∧ t'.prefixes = t.prefixes ++ [route] := by
  unfold insertPrefix at h
  split at h
  · cases h
  · cases h
    exact ⟨rfl, rfl⟩

theorem insertPrefix_of_nodup {t : Tables} {route : PrefixRoute}
    (h : ((t.prefixes ++ [route]).map PrefixRoute.path).Nodup) :
    ∃ t', insertPrefix t route = .ok t' := by
  unfold insertPrefix
  rw [dif_neg]
  · exact ⟨_, rfl⟩
  · intro hany
    obtain ⟨other, hother, hpath⟩ := List.any_eq_true.mp hany
    rw [List.map_append, List.nodup_append] at h
    exact h.2.2 _ (List.mem_map_of_mem hother) _ List.mem_cons_self (of_decide_eq_true hpath)

theorem adds_addExact (route : ExactRoute) :
    Adds (addExact route) (fun path => isRoutePath path) (fun path => [(path, route)])
      (fun _ => []) where
  sound := by
    intro t path t' h
    obtain ⟨u, hpath, h⟩ := bind_eq_ok.mp h
    obtain ⟨hexact, hprefixes⟩ := insertExact_ok h
    exact ⟨validateRoutePath_ok.mp hpath, hexact, by rw [hprefixes, List.append_nil]⟩
  complete := by
    intro t path hok hexact _
    obtain ⟨t', ht'⟩ := insertExact_of_nodup hexact
    exact ⟨t', bind_eq_ok.mpr ⟨(), validateRoutePath_ok.mpr hok, ht'⟩⟩

theorem adds_addFile (files : FileService) :
    Adds (addFile files) (ValidSpec files) FileRouteSpec.exacts FileRouteSpec.mounts where
  sound := by
    intro t spec t' h
    obtain ⟨u, hpath, h⟩ := bind_eq_ok.mp h
    obtain ⟨hmount, h⟩ := ite_error_eq_ok.mp h
    obtain ⟨u', hroute, h⟩ := bind_eq_ok.mp h
    obtain ⟨hroot, hrelative⟩ := validateNativeRoute_ok.mp hroute
    have hvalid : ValidSpec files spec := by
      refine ⟨validateRoutePath_ok.mp hpath, fun hkind => ?_, hroot, fun hkind => ?_⟩
      · simpa [hkind] using hmount
      · exact hrelative spec.relative (by rw [if_pos hkind]; rfl)
    refine ⟨hvalid, ?_⟩
    unfold FileRouteSpec.exacts FileRouteSpec.mounts
    cases hkind : spec.kind with
    | exact =>
      rw [hkind] at h
      obtain ⟨hexact, hprefixes⟩ := insertExact_ok h
      exact ⟨hexact, by rw [hprefixes, List.append_nil]⟩
    | prefixed =>
      rw [hkind] at h
      obtain ⟨hexact, hprefixes⟩ := insertPrefix_ok h
      exact ⟨by rw [hexact, List.append_nil], hprefixes⟩
  complete := by
    intro t spec hok hexact hmounts
    have hroute : validateNativeRoute files spec.path spec.rootId
        (if spec.kind = .exact then some spec.relative else none) = .ok () := by
      refine validateNativeRoute_ok.mpr ⟨hok.root, fun r hr => ?_⟩
      split_ifs at hr with hkind
      · cases hr
        exact hok.relative hkind
      · cases hr
    have hmount : ¬ (decide (spec.kind = .prefixed) && decide (spec.relative ≠ [])) = true := by
      simpa using hok.mount
    have hinsert : ∃ t', (match spec.kind with
        | .exact => insertExact t spec.path (.file spec.rootId spec.relative spec.cache)
        | .prefixed => insertPrefix t ⟨spec.path, spec.rootId, spec.cache⟩) = .ok t' := by
      unfold FileRouteSpec.exacts at hexact
      unfold FileRouteSpec.mounts at hmounts
      cases hkind : spec.kind with
      | exact =>
        rw [hkind] at hexact
        exact insertExact_of_nodup hexact
      | prefixed =>
        rw [hkind] at hmounts
        exact insertPrefix_of_nodup hmounts
    obtain ⟨t', ht'⟩ := hinsert
    exact ⟨t', bind_eq_ok.mpr ⟨(), validateRoutePath_ok.mpr hok.path,
      ite_error_eq_ok.mpr ⟨hmount, bind_eq_ok.mpr ⟨(), hroute, ht'⟩⟩⟩⟩

/-- The loops of `activate`, one after the other. -/
def declareAll (files : FileService) (t : Tables) (d : Declarations) : Except RouteError Tables := do
  let t ← d.files.foldlM (addFile files) t
  let t ← d.liveness.foldlM (addExact .liveness) t
  let t ← d.readiness.foldlM (fun t spec => addExact (.readiness spec.readiness) t spec.path) t
  d.metrics.toList.foldlM (addExact .metrics) t

/-- What the loops check of each declaration. -/
def Acceptable (files : FileService) (d : Declarations) : Prop :=
  (∀ spec ∈ d.files, ValidSpec files spec) ∧ (∀ path ∈ d.liveness, isRoutePath path) ∧
    (∀ spec ∈ d.readiness, isRoutePath spec.path) ∧ ∀ path ∈ d.metrics.toList, isRoutePath path

theorem adds_declareAll (files : FileService) :
    Adds (declareAll files) (Acceptable files) Declarations.exacts Declarations.mounts := by
  have hreadiness : Adds (fun t spec => addExact (.readiness spec.readiness) t spec.path)
      (fun spec : ReadinessRouteSpec => isRoutePath spec.path)
      (fun spec => [(spec.path, .readiness spec.readiness)]) (fun _ => []) :=
    ⟨fun h => (adds_addExact _).sound h, fun h => (adds_addExact _).complete h⟩
  have hall := (adds_addFile files).foldlM.bind ((adds_addExact .liveness).foldlM.bind
    (hreadiness.foldlM.bind (adds_addExact .metrics).foldlM))
  have hexacts : ∀ d : Declarations, d.exacts =
      d.files.flatMap FileRouteSpec.exacts ++ (d.liveness.flatMap (fun path => [(path, ExactRoute.liveness)]) ++
        (d.readiness.flatMap (fun spec => [(spec.path, ExactRoute.readiness spec.readiness)]) ++
          d.metrics.toList.flatMap fun path => [(path, ExactRoute.metrics)])) := by
    intro d
    unfold Declarations.exacts
    rw [List.map_eq_flatMap, List.map_eq_flatMap, List.map_eq_flatMap, List.append_assoc,
      List.append_assoc]
  have hmounts : ∀ d : Declarations, d.mounts = d.files.flatMap FileRouteSpec.mounts ++
      (d.liveness.flatMap (fun _ => []) ++ (d.readiness.flatMap (fun _ => []) ++
        d.metrics.toList.flatMap fun _ => [])) := by
    intro d
    simp [Declarations.mounts]
  refine ⟨fun {t d t'} h => ?_, fun {t d} hok hexact hmount => ?_⟩
  · rw [hexacts, hmounts]
    exact hall.sound (a := (d.files, d.liveness, d.readiness, d.metrics.toList)) h
  · rw [hexacts] at hexact
    rw [hmounts] at hmount
    exact hall.complete (a := (d.files, d.liveness, d.readiness, d.metrics.toList)) hok hexact hmount

/-- **Activation.** It succeeds for valid declarations, with their routes in the tables. -/
theorem activate_ok {files : FileService} {d : Declarations} {router : Router} :
    activate files d = .ok router ↔
      Valid files d ∧ router = ⟨d.exacts, d.mounts.insertionSort Before⟩ := by
  have hactivate : activate files d =
      if d.count ≥ 2 ^ 64 then .error .countOverflowed
      else if d.count > maxNativeRoutes then .error .tooMany
      else declareAll files ⟨[], [], List.nodup_nil, List.nodup_nil⟩ d >>= fun t =>
        .ok ⟨t.exact, t.prefixes.insertionSort Before⟩ := by
    unfold activate declareAll
    simp only [bind_assoc]
  rw [hactivate, ite_error_eq_ok, ite_error_eq_ok, bind_eq_ok]
  constructor
  · rintro ⟨-, hcount, t, ht, hrouter⟩
    obtain ⟨hok, hexact, hmounts⟩ := (adds_declareAll files).sound ht
    rw [List.nil_append] at hexact hmounts
    refine ⟨⟨Nat.le_of_not_lt hcount, hok.1, hok.2.1, hok.2.2.1, fun path hpath => ?_, ?_, ?_⟩, ?_⟩
    · exact hok.2.2.2 path (Option.mem_toList.mpr hpath)
    · exact hexact ▸ t.exactNodup
    · exact hmounts ▸ t.prefixesNodup
    · rw [← hexact, ← hmounts]
      exact (Except.ok.inj hrouter).symm
  · rintro ⟨hvalid, rfl⟩
    have hcount := hvalid.count
    obtain ⟨t, ht⟩ := (adds_declareAll files).complete
      (t := ⟨[], [], List.nodup_nil, List.nodup_nil⟩)
      ⟨hvalid.files, hvalid.liveness, hvalid.readiness, fun path hpath =>
        hvalid.metrics path (Option.mem_toList.mp hpath)⟩
      hvalid.exactNodup hvalid.mountsNodup
    obtain ⟨-, hexact, hmounts⟩ := (adds_declareAll files).sound ht
    rw [List.nil_append] at hexact hmounts
    refine ⟨?_, Nat.not_lt.mpr hcount, t, ht, by rw [hexact, hmounts]⟩
    exact Nat.not_le.mpr (Nat.lt_of_le_of_lt hcount (by decide))

/-! ## Mounts -/

/-- The path is at or under the mount, and `relative` is the rest of it. -/
def Under (route : PrefixRoute) (path relative : Bytes) : Prop :=
  if route.path = [47] then path = 47 :: relative
  else path = route.path ∧ relative = [] ∨ path = route.path ++ 47 :: relative

theorem Under.prefix_path {route : PrefixRoute} {path relative : Bytes}
    (h : Under route path relative) : route.path <+: path := by
  unfold Under at h
  split_ifs at h with hroot
  · rw [hroot, h]
    exact List.prefix_append [47] relative
  · rcases h with ⟨rfl, -⟩ | rfl
    · exact List.prefix_rfl
    · exact List.prefix_append _ _

theorem Under.relative_eq {route : PrefixRoute} {path relative relative' : Bytes}
    (h : Under route path relative) (h' : Under route path relative') : relative = relative' := by
  unfold Under at h h'
  split_ifs at h h'
  · exact (List.cons.inj (h.symm.trans h')).2
  · rcases h with ⟨rfl, rfl⟩ | rfl
    · rcases h' with ⟨-, rfl⟩ | h'
      · rfl
      · exact absurd (List.self_eq_append_right.mp h') (by nofun)
    · rcases h' with ⟨h', rfl⟩ | h'
      · exact absurd (List.self_eq_append_right.mp h'.symm) (by nofun)
      · exact (List.cons.inj (List.append_cancel_left h')).2

theorem Under.path_eq {route route' : PrefixRoute} {path relative relative' : Bytes}
    (h : Under route path relative) (h' : Under route' path relative')
    (hlength : route.path.length = route'.path.length) : route.path = route'.path :=
  (List.prefix_of_prefix_length_le h.prefix_path h'.prefix_path (Nat.le_of_eq hlength)).eq_of_length
    hlength

theorem firstMount_under {path relative : Bytes} {routes : List PrefixRoute} {route : PrefixRoute}
    (h : firstMount path routes = some (route, relative)) :
    route ∈ routes ∧ Under route path relative := by
  induction routes with
  | nil => cases h
  | cons first routes ih =>
    unfold firstMount at h
    split_ifs at h with hroot hsame
    · obtain ⟨rest, hrest, heq⟩ := Option.map_eq_some_iff.mp h
      cases heq
      refine ⟨List.mem_cons_self, ?_⟩
      unfold Under
      rw [if_pos hroot]
      exact stripPrefix_eq_some.mp hrest
    · cases h
      refine ⟨List.mem_cons_self, ?_⟩
      unfold Under
      rw [if_neg hroot]
      exact .inl ⟨hsame, rfl⟩
    · split at h
      · rename_i rest hstrip
        cases h
        obtain ⟨suffix, hsuffix, hslash⟩ := Option.bind_eq_some_iff.mp hstrip
        refine ⟨List.mem_cons_self, ?_⟩
        unfold Under
        rw [if_neg hroot]
        right
        rw [stripPrefix_eq_some.mp hsuffix, stripPrefix_eq_some.mp hslash]
        rfl
      · exact (ih h).imp_left (List.mem_cons_of_mem _)

theorem not_under_of_skipped {route : PrefixRoute} {path : Bytes} (hroot : route.path ≠ [47])
    (hsame : path ≠ route.path)
    (hstrip : (stripPrefix route.path path).bind (stripPrefix [47]) = none) (relative : Bytes) :
    ¬ Under route path relative := by
  intro hunder
  unfold Under at hunder
  rw [if_neg hroot] at hunder
  rcases hunder with ⟨heq, -⟩ | heq
  · exact hsame heq
  · have hsuffix : stripPrefix route.path path = some (47 :: relative) :=
      stripPrefix_eq_some.mpr heq
    have hslash : stripPrefix [47] (47 :: relative) = some relative :=
      stripPrefix_eq_some.mpr rfl
    rw [hsuffix, Option.bind_some, hslash] at hstrip
    cases hstrip

/-- In a list sorted by length, no mount that the path is under is longer than the one found. -/
theorem firstMount_longest {path relative : Bytes} {routes : List PrefixRoute} {route : PrefixRoute}
    (hsorted : routes.Pairwise fun left right => right.path.length ≤ left.path.length)
    (h : firstMount path routes = some (route, relative)) {other : PrefixRoute}
    (hother : other ∈ routes) {rest : Bytes} (hunder : Under other path rest) :
    other.path.length ≤ route.path.length := by
  induction routes with
  | nil => cases hother
  | cons first routes ih =>
    obtain ⟨hfirst, hrest⟩ := List.pairwise_cons.mp hsorted
    have hle : other.path.length ≤ first.path.length := by
      rcases List.mem_cons.mp hother with rfl | hmem
      · exact Nat.le_refl _
      · exact hfirst other hmem
    unfold firstMount at h
    split_ifs at h with hroot hsame
    · obtain ⟨_, -, heq⟩ := Option.map_eq_some_iff.mp h
      cases heq
      exact hle
    · cases h
      exact hle
    · split at h
      · cases h
        exact hle
      · rename_i hstrip
        rcases List.mem_cons.mp hother with rfl | hmem
        · exact absurd hunder (not_under_of_skipped hroot hsame hstrip rest)
        · exact ih hrest h hmem

theorem firstMount_none {path : Bytes} (hpath : path.head? = some 47) {routes : List PrefixRoute}
    (h : firstMount path routes = none) :
    ∀ route ∈ routes, ∀ relative, ¬ Under route path relative := by
  induction routes with
  | nil => exact nofun
  | cons first routes ih =>
    unfold firstMount at h
    split_ifs at h with hroot hsame
    · obtain ⟨tail, rfl⟩ : ∃ tail, path = 47 :: tail := by
        cases path with
        | nil => cases hpath
        | cons b tail => exact ⟨tail, by rw [Option.some.inj hpath]⟩
      have hstrip : stripPrefix [47] (47 :: tail) = some tail := stripPrefix_eq_some.mpr rfl
      rw [hstrip] at h
      cases h
    · split at h
      · cases h
      · rename_i hstrip
        exact List.forall_mem_cons.mpr ⟨not_under_of_skipped hroot hsame hstrip, ih h⟩

/-! ## Routing -/

/-- Where a path goes. -/
inductive RoutesTo (d : Declarations) (isReady : ℕ → Bool) (path : Bytes) (method : Method) :
    Option NativeMatch → Prop
  | exact {route : ExactRoute} (h : (path, route) ∈ d.exacts) :
      RoutesTo d isReady path method (some (route.answer isReady method))
  | mount {route : PrefixRoute} {relative : Bytes} (hnone : ∀ exact, (path, exact) ∉ d.exacts)
      (hmem : route ∈ d.mounts) (hunder : Under route path relative)
      (hlongest : ∀ other ∈ d.mounts, ∀ rest, Under other path rest →
        other = route ∨ other.path.length < route.path.length) :
      RoutesTo d isReady path method (some (route.answer relative))
  | unmatched (hnone : ∀ exact, (path, exact) ∉ d.exacts)
      (hmounts : ∀ route ∈ d.mounts, ∀ relative, ¬ Under route path relative) :
      RoutesTo d isReady path method none

section Routing

variable {files : FileService} {d d' : Declarations} {isReady : ℕ → Bool} {path : Bytes}
  {method : Method}

theorem RoutesTo.eq (hd : Valid files d) {answer answer' : Option NativeMatch}
    (h : RoutesTo d isReady path method answer) (h' : RoutesTo d isReady path method answer') :
    answer = answer' := by
  cases h with
  | @exact route hroute =>
    cases h' with
    | @exact route' hroute' =>
      have heq := List.inj_on_of_nodup_map hd.exactNodup hroute hroute' rfl
      rw [(Prod.mk.inj heq).2]
    | mount hnone => exact absurd hroute (hnone route)
    | unmatched hnone => exact absurd hroute (hnone route)
  | @mount route relative hnone hmem hunder hlongest =>
    cases h' with
    | @exact route' hroute' => exact absurd hroute' (hnone route')
    | @mount route' relative' _ hmem' hunder' hlongest' =>
      obtain rfl : route' = route := by
        refine (hlongest route' hmem' _ hunder').resolve_right fun hlt => ?_
        rcases hlongest' route hmem _ hunder with rfl | hlt'
        · exact absurd hlt (Nat.lt_irrefl _)
        · exact absurd hlt (Nat.lt_asymm hlt')
      rw [hunder.relative_eq hunder']
    | unmatched _ hmounts => exact absurd hunder (hmounts route hmem relative)
  | unmatched hnone hmounts =>
    cases h' with
    | @exact route' hroute' => exact absurd hroute' (hnone route')
    | @mount route' relative' _ hmem' hunder' => exact absurd hunder' (hmounts route' hmem' relative')
    | unmatched => rfl

theorem RoutesTo.permuted (h : d.Permuted d') {answer : Option NativeMatch}
    (hd : RoutesTo d isReady path method answer) : RoutesTo d' isReady path method answer := by
  have hexacts : ∀ route, (path, route) ∈ d'.exacts → (path, route) ∈ d.exacts := fun route =>
    h.exacts.mem_iff.mpr
  have hmounts : ∀ route, route ∈ d'.mounts → route ∈ d.mounts := fun route =>
    h.mounts.mem_iff.mpr
  cases hd with
  | exact hroute => exact .exact (h.exacts.mem_iff.mp hroute)
  | mount hnone hmem hunder hlongest =>
    exact .mount (fun route hroute => hnone route (hexacts route hroute))
      (h.mounts.mem_iff.mp hmem) hunder fun other hother => hlongest other (hmounts other hother)
  | unmatched hnone hnot =>
    exact .unmatched (fun route hroute => hnone route (hexacts route hroute))
      fun route hroute => hnot route (hmounts route hroute)

instance : Std.Total Before where
  total left right := by
    unfold Before
    rcases Nat.lt_trichotomy left.path.length right.path.length with h | h | h
    · exact .inr (.inl h)
    · rcases List.le_total left.path right.path with hle | hle
      · exact .inl (.inr ⟨h.symm, hle⟩)
      · exact .inr (.inr ⟨h, hle⟩)
    · exact .inl (.inl h)

instance : IsTrans PrefixRoute Before where
  trans a b c hab hbc := by
    unfold Before at *
    rcases hab with hab | ⟨hab, hle⟩ <;> rcases hbc with hbc | ⟨hbc, hle'⟩
    · exact .inl (by omega)
    · exact .inl (by omega)
    · exact .inl (by omega)
    · exact .inr ⟨by omega, List.le_trans hle hle'⟩

theorem lookup_eq_some_of_mem {l : List (Bytes × ExactRoute)} (h : (l.map Prod.fst).Nodup)
    {route : ExactRoute} (hroute : (path, route) ∈ l) : l.lookup path = some route := by
  obtain ⟨before, after, rfl⟩ := List.append_of_mem hroute
  refine List.lookup_eq_some_iff.mpr ⟨before, after, rfl, fun other hother => ?_⟩
  rw [List.map_append, List.map_cons, List.nodup_append] at h
  exact bne_iff_ne.mpr fun heq =>
    h.2.2 _ (List.mem_map_of_mem hother) path List.mem_cons_self heq.symm

theorem routesTo_route (hd : Valid files d) (hpath : path.head? = some 47) :
    RoutesTo d isReady path method
      (Router.route ⟨d.exacts, d.mounts.insertionSort Before⟩ isReady path method) := by
  have hperm := List.perm_insertionSort Before d.mounts
  have hsorted : (d.mounts.insertionSort Before).Pairwise
      fun left right => right.path.length ≤ left.path.length := by
    refine (List.pairwise_insertionSort Before d.mounts).imp fun {left right} h => ?_
    unfold Before at h
    omega
  unfold Router.route
  cases hlookup : d.exacts.lookup path with
  | some route =>
    obtain ⟨before, after, heq, -⟩ := List.lookup_eq_some_iff.mp hlookup
    exact .exact (heq ▸ List.mem_append_right _ List.mem_cons_self)
  | none =>
    have hexact : ∀ route, (path, route) ∉ d.exacts := by
      intro route hroute
      rw [lookup_eq_some_of_mem hd.exactNodup hroute] at hlookup
      cases hlookup
    dsimp only
    cases hfirst : firstMount path (d.mounts.insertionSort Before) with
    | none =>
      exact .unmatched hexact fun route hroute =>
        firstMount_none hpath hfirst route (hperm.mem_iff.mpr hroute)
    | some found =>
      obtain ⟨hmem, hunder⟩ := firstMount_under hfirst
      refine .mount hexact (hperm.mem_iff.mp hmem) hunder fun other hother rest hother' => ?_
      have hle := firstMount_longest hsorted hfirst (hperm.mem_iff.mpr hother) hother'
      refine (Nat.eq_or_lt_of_le hle).imp_left fun hlength => ?_
      exact List.inj_on_of_nodup_map hd.mountsNodup hother (hperm.mem_iff.mp hmem)
        (hother'.path_eq hunder hlength)

end Routing

/-- One root, whatever it is called. -/
def siteFiles : FileService := ⟨fun _ => some ⟨fun _ => none, .noStore⟩⟩

def rootMount : FileRouteSpec := ⟨ascii "/", ascii "www", .prefixed, [], none⟩

def staticMount : FileRouteSpec := ⟨ascii "/static", ascii "www", .prefixed, [], none⟩

def site (files : List FileRouteSpec) : Declarations :=
  ⟨files, [ascii "/live"], [⟨ascii "/ready", 0⟩], none⟩

end BasicWebserver.NativeRouter
