/-
# Proofs.Rollout.Clients -- which clients a factory keeps and hands out

A factory keeps one client at most for a variant and a preset, and it is the one
these stand for (`Made`). Its stages are those that its settings ask for, in the
order that the optimizer had when it was made, and just these are in the registry
under its name. `Orderly` says so of a factory, and making, keeping and forgetting
clients leave it so (`Orderly.build`, `Orderly.clientFor`, `Orderly.clearCache`).

The controller and the optimizer change in any way in between. What does not look
at them and outlasts a request for a client outlasts a run (`Lasting.after`): that
the factory is orderly, that it keeps a client as long as the clients are not
forgotten (`Keeps.after`), and that the number of a client is not given again
(`made_le_after`). So a second call has the client of the first exactly if the
settings allow that (`Orderly.clientFor_again`).
-/
import ClientMigration.Rollout.Factory
import ClientMigration.Proofs.Pipeline.Order
import ClientMigration.Proofs.Pipeline.Registry

namespace ClientMigration

set_option autoImplicit false

variable {σ : Type}

/-- Different variants and presets give different names. -/
theorem Client.idOf_inj {variant variant' : Variant} {preset preset' : Preset}
    (same : idOf variant preset = idOf variant' preset') : variant = variant' ∧ preset = preset' := by
  have keys : ((Variant.all ×ˢ Preset.all).map fun k => idOf k.1 k.2).Nodup := by decide
  have listed (variant : Variant) (preset : Preset) : (variant, preset) ∈ Variant.all ×ˢ Preset.all := by
    cases variant <;> cases preset <;> decide
  exact Prod.mk.inj (List.inj_on_of_nodup_map keys (listed variant preset) (listed variant' preset') same)

namespace Factory

/-! ## Turns -/

/-- What a factory is asked, and what happens around it. -/
inductive Turn (σ : Type) where
  | getClient (preset : Preset) (path : Option String)
  | clientFor (variant : Variant) (preset : Preset)
  /-- A client that has no connection to send requests over: its stages are installed before that
  shows, and nothing is kept. -/
  | unconnected (variant : Variant) (preset : Preset)
  | clearCache
  | recordMetric (name : String) (variant : Variant) (metadata : Table String)
  /-- The controller is another, or decides another way. -/
  | control (controller : Controller σ)
  /-- The optimizer has measured stages, or is another. -/
  | measure (optimizer : Optimizer)

/-- The factory after a turn. -/
def turn (f : Factory σ) : Turn σ → Factory σ
  | .getClient preset path => (f.getClient preset path).2
  | .clientFor variant preset => (f.clientFor variant preset).2
  | .unconnected variant preset =>
    if (f.cache.lookup (variant, preset)).isSome then f else (f.build variant preset).2
  | .clearCache => f.clearCache
  | .recordMetric name variant metadata => f.recordMetric name variant metadata
  | .control controller => { f with controller }
  | .measure optimizer => { f with optimizer }

/-- The factory after a run. -/
def after (f : Factory σ) (run : List (Turn σ)) : Factory σ := run.foldl turn f

/-! ## What is kept -/

/-- A client is the one that a variant and a preset stand for. -/
structure Made (endpoint : Endpoint) (key : Variant × Preset) (c : Client) : Prop where
  variant : c.variant = key.1
  preset : c.preset = key.2
  id : c.id = key.1.name ++ ":" ++ key.2.name
  baseUrl : c.baseUrl = endpoint.baseUrl key.1
  unified : key.1 = .unified → c.settings = key.2.settings
  legacy : key.1 = .legacy → c.settings = Preset.default.settings
  stages : c.stages.Perm c.settings.stages

/-- What is true of a factory at any time. -/
structure Orderly (f : Factory σ) : Prop where
  made : ∀ e ∈ f.cache, Made f.endpoint e.1 e.2
  cacheable : ∀ e ∈ f.cache, e.2.settings.cacheable = true
  keys : (f.cache.map (·.1)).Nodup
  ordered : f.registry.Ordered
  /-- Nothing is installed that the settings do not ask for. -/
  within : ∀ variant preset, ∀ s ∈ f.registry.stagesOf (Client.idOf variant preset),
    s ∈ (settingsFor variant preset).stages
  installed : ∀ e ∈ f.cache, ∀ s ∈ e.2.stages, s ∈ f.registry.stagesOf e.2.id

variable {f : Factory σ} {variant : Variant} {preset : Preset} {c : Client}

theorem Made.settings_eq {endpoint : Endpoint} (made : Made endpoint (variant, preset) c) :
    c.settings = settingsFor variant preset := by
  cases variant with
  | unified => exact made.unified rfl
  | legacy => exact made.legacy rfl

theorem build_made (f : Factory σ) (variant : Variant) (preset : Preset) :
    Made f.endpoint (variant, preset) (f.build variant preset).1 where
  variant := rfl
  preset := rfl
  id := rfl
  baseUrl := rfl
  unified := by rintro rfl; rfl
  legacy := by rintro rfl; rfl
  stages := f.optimizer.order_perm _

theorem build_registry (f : Factory σ) (variant : Variant) (preset : Preset) :
    (f.build variant preset).2.registry =
      f.registry.install (Client.idOf variant preset) (f.build variant preset).1.stages := rfl

/-- A client that is made installs its stages and no others. -/
theorem Orderly.build (orderly : Orderly f) (variant : Variant) (preset : Preset) :
    Orderly (f.build variant preset).2 where
  made := orderly.made
  cacheable := orderly.cacheable
  keys := orderly.keys
  ordered := orderly.ordered.install _ _
  within := by
    intro variant' preset' s listed
    rw [build_registry] at listed
    -- names tell variants and presets apart, so all others keep their stages
    by_cases same : Client.idOf variant' preset' = Client.idOf variant preset
    · obtain ⟨rfl, rfl⟩ := Client.idOf_inj same
      rcases (Registry.mem_install _ _ _ s).mp listed with new | old
      · have made := f.build_made variant' preset'
        exact made.settings_eq ▸ made.stages.mem_iff.mp new
      · exact orderly.within variant' preset' s old
    · rw [Registry.stagesOf_install_of_ne _ _ same] at listed
      exact orderly.within variant' preset' s listed
  installed := by
    intro e kept s listed
    have before := orderly.installed e kept s listed
    rw [build_registry]
    by_cases same : e.2.id = Client.idOf variant preset
    · rw [same] at before ⊢
      exact (Registry.mem_install _ _ _ s).mpr (Or.inr before)
    · rwa [Registry.stagesOf_install_of_ne _ _ same]

/-- Only the endpoint, the registry and the clients kept count. -/
theorem Orderly.unseen {g : Factory σ} (orderly : Orderly f)
    (same : (g.endpoint, g.registry, g.cache, g.made) = (f.endpoint, f.registry, f.cache, f.made)) :
    Orderly g := by
  obtain ⟨_, endpoint, _, registry, cache, made, _⟩ := g
  obtain ⟨rfl, rfl, rfl, rfl⟩ : endpoint = f.endpoint ∧ registry = f.registry ∧ cache = f.cache ∧
      made = f.made := by
    simpa using same
  exact ⟨orderly.made, orderly.cacheable, orderly.keys, orderly.ordered, orderly.within,
    orderly.installed⟩

theorem orderly_start (controller : Controller σ) (endpoint : Endpoint) (optimizer : Optimizer) :
    Orderly { controller, endpoint, optimizer } where
  made := by simp
  cacheable := by simp
  keys := List.nodup_nil
  ordered := Registry.ordered_empty
  within := by simp [Registry.stagesOf, Table.find?]
  installed := by simp

/-! ## A client for a variant and a preset -/

/-- The factory keeps a client for a variant and a preset. -/
def Keeps (f : Factory σ) (key : Variant × Preset) (c : Client) : Prop := f.cache.lookup key = some c

variable {key : Variant × Preset}

theorem Keeps.mem (kept : f.Keeps key c) : (key, c) ∈ f.cache := by
  obtain ⟨before, later, split, -⟩ := List.lookup_eq_some_iff.mp kept
  rw [split]
  exact List.mem_append_right _ List.mem_cons_self

/-- The factory with one more client to keep. -/
def keeping (f : Factory σ) (key : Variant × Preset) (c : Client) : Factory σ :=
  { f with cache := (key, c) :: f.cache }

/-- A client is one that was kept, or a new one that is kept if the settings allow that. -/
theorem clientFor_cases (f : Factory σ) (variant : Variant) (preset : Preset) :
    (∃ c, f.Keeps (variant, preset) c ∧ f.clientFor variant preset = (c, f)) ∨
      f.cache.lookup (variant, preset) = none ∧ (settingsFor variant preset).cacheable = true ∧
        f.clientFor variant preset = ((f.build variant preset).1,
          (f.build variant preset).2.keeping (variant, preset) (f.build variant preset).1) ∨
      f.cache.lookup (variant, preset) = none ∧ (settingsFor variant preset).cacheable = false ∧
        f.clientFor variant preset = f.build variant preset := by
  cases kept : f.cache.lookup (variant, preset) with
  | some c => exact Or.inl ⟨c, kept, by simp only [clientFor, kept]⟩
  | none =>
    have settings : (f.build variant preset).1.settings = settingsFor variant preset := rfl
    refine Or.inr ?_
    cases allowed : (settingsFor variant preset).cacheable with
    | true => exact Or.inl ⟨rfl, rfl, by simp only [clientFor, kept, settings, allowed]; rfl⟩
    | false => exact Or.inr ⟨rfl, rfl, by simp only [clientFor, kept, settings, allowed]; rfl⟩

/-- What making a client leaves true, and keeping one does, is true after a request. -/
theorem clientFor_preserves {P : Factory σ → Prop} (before : P f) (built : P (f.build variant preset).2)
    (keeping : ∀ g key c, P g → P (keeping g key c)) : P (f.clientFor variant preset).2 := by
  rcases f.clientFor_cases variant preset with ⟨_, _, same⟩ | ⟨_, _, made⟩ | ⟨_, _, made⟩
  · rwa [same]
  · rw [made]
    exact keeping _ _ _ built
  · rwa [made]

theorem clientFor_of_kept (kept : f.Keeps (variant, preset) c) :
    f.clientFor variant preset = (c, f) := by
  simp only [clientFor, show f.cache.lookup (variant, preset) = some c from kept]

/-- The client that is handed out is the one that was asked for. -/
theorem Orderly.clientFor_made (orderly : Orderly f) (variant : Variant) (preset : Preset) :
    Made f.endpoint (variant, preset) (f.clientFor variant preset).1 := by
  rcases f.clientFor_cases variant preset with ⟨c, kept, same⟩ | ⟨_, _, made⟩ | ⟨_, _, made⟩
  · rw [same]
    exact orderly.made _ kept.mem
  · rw [made]
    exact f.build_made variant preset
  · rw [made]
    exact f.build_made variant preset

theorem Orderly.keeping (orderly : Orderly f) (made : Made f.endpoint key c)
    (allowed : c.settings.cacheable = true) (new : f.cache.lookup key = none)
    (installed : ∀ s ∈ c.stages, s ∈ f.registry.stagesOf c.id) : Orderly (f.keeping key c) where
  made := List.forall_mem_cons.mpr ⟨made, orderly.made⟩
  cacheable := List.forall_mem_cons.mpr ⟨allowed, orderly.cacheable⟩
  keys := by
    refine List.nodup_cons.mpr ⟨fun again => ?_, orderly.keys⟩
    obtain ⟨e, old, same⟩ := List.mem_map.mp again
    exact bne_iff_ne.mp (List.lookup_eq_none_iff.mp new e old) same.symm
  ordered := orderly.ordered
  within := orderly.within
  installed := List.forall_mem_cons.mpr ⟨installed, orderly.installed⟩

theorem Orderly.clientFor (orderly : Orderly f) (variant : Variant) (preset : Preset) :
    Orderly (f.clientFor variant preset).2 := by
  have built := orderly.build variant preset
  rcases f.clientFor_cases variant preset with ⟨c, _, same⟩ | ⟨new, allowed, made⟩ | ⟨_, _, made⟩
  · rwa [same]
  · rw [made]
    refine built.keeping (f.build_made variant preset) allowed new fun s listed => ?_
    exact (Registry.mem_install _ _ _ s).mpr (Or.inl listed)
  · rwa [made]

/-- A client that may serve further calls is kept. -/
theorem clientFor_keeps (f : Factory σ) (allowed : (settingsFor variant preset).cacheable = true) :
    (f.clientFor variant preset).2.Keeps (variant, preset) (f.clientFor variant preset).1 := by
  rcases f.clientFor_cases variant preset with ⟨c, kept, same⟩ | ⟨_, _, made⟩ | ⟨_, denied, _⟩
  · rwa [same]
  · rw [made]
    exact List.lookup_cons_self
  · exact absurd allowed (by simp [denied])

/-- One that may not is made whenever it is asked for. -/
theorem Orderly.clientFor_of_not_cacheable (orderly : Orderly f)
    (denied : (settingsFor variant preset).cacheable = false) :
    f.clientFor variant preset = f.build variant preset := by
  rcases f.clientFor_cases variant preset with ⟨c, kept, _⟩ | ⟨_, allowed, _⟩ | ⟨_, _, made⟩
  · have allowed := orderly.cacheable _ kept.mem
    rw [(orderly.made _ kept.mem).settings_eq, denied] at allowed
    contradiction
  · exact absurd allowed (by simp [denied])
  · exact made

theorem Keeps.clientFor (kept : f.Keeps key c) (variant : Variant) (preset : Preset) :
    (f.clientFor variant preset).2.Keeps key c := by
  rcases f.clientFor_cases variant preset with ⟨_, _, same⟩ | ⟨new, _, made⟩ | ⟨_, _, made⟩
  · rwa [same]
  · rw [made]
    have other : (key == (variant, preset)) = false := by
      rw [beq_eq_false_iff_ne]
      rintro rfl
      exact Option.some_ne_none c (kept.symm.trans new)
    rw [Keeps, keeping, List.lookup_cons, other]
    exact kept
  · rw [made]
    exact kept

/-! ## Forgetting clients -/

theorem mem_clearCache {client : String} {s : Stage}
    (listed : s ∈ f.clearCache.registry.stagesOf client) : s ∈ f.registry.stagesOf client :=
  List.foldlRecOn f.cache _
    (motive := fun r : Registry => s ∈ r.stagesOf client → s ∈ f.registry.stagesOf client)
    id (fun _ before _ _ => before ∘ Registry.mem_of_mem_removeAll) listed

theorem Orderly.clearCache (orderly : Orderly f) : Orderly f.clearCache where
  made := by simp [Factory.clearCache]
  cacheable := by simp [Factory.clearCache]
  keys := List.nodup_nil
  ordered := List.foldlRecOn f.cache _ orderly.ordered fun _ before e _ => before.removeAll e.2.id
  within := fun variant preset s listed => orderly.within variant preset s (mem_clearCache listed)
  installed := by simp [Factory.clearCache]

/-! ## Runs -/

/-- What holds of a factory and goes on to hold, unless the clients are forgotten. Neither the
controller nor the optimizer nor the events count. -/
structure Lasting (P : Factory σ → Prop) : Prop where
  unseen : ∀ {f g : Factory σ}, P f →
    (g.endpoint, g.registry, g.cache, g.made) = (f.endpoint, f.registry, f.cache, f.made) → P g
  asked : ∀ {f : Factory σ} (variant : Variant) (preset : Preset), P f → P (f.clientFor variant preset).2
  built : ∀ {f : Factory σ} (variant : Variant) (preset : Preset), P f → P (f.build variant preset).2

/-- The factory that a client is asked of, once the controller has decided. -/
def asked (f : Factory σ) (path : Option String) : Factory σ :=
  { f with controller := (f.controller.decide path).2 }

/-- The variant that the controller decides on. -/
def decided (f : Factory σ) (path : Option String) : Variant :=
  .ofDecision (f.controller.decide path).1.useNew

theorem getClient_eq (f : Factory σ) (preset : Preset) (path : Option String) :
    f.getClient preset path =
      (((f.asked path).clientFor (f.decided path) preset).1,
       ((f.asked path).clientFor (f.decided path) preset).2.emit (resolved (f.decided path) preset path)) :=
  rfl

section

variable {P : Factory σ → Prop}

/-- Every turn keeps what lasts. -/
theorem Lasting.turn (lasting : Lasting P) (holds : P f) {t : Turn σ}
    (clears : t = .clearCache → P f.clearCache) : P (f.turn t) := by
  cases t with
  | getClient preset path =>
    have asked : P (f.asked path) := lasting.unseen holds rfl
    rw [Factory.turn, getClient_eq]
    exact lasting.unseen (lasting.asked (f.decided path) preset asked) rfl
  | clientFor variant preset => exact lasting.asked variant preset holds
  | unconnected variant preset =>
    rw [Factory.turn]
    split
    · exact holds
    · exact lasting.built variant preset holds
  | clearCache => exact clears rfl
  | recordMetric | control | measure => exact lasting.unseen holds rfl

/-- So does every run. -/
theorem Lasting.after (lasting : Lasting P) (holds : P f) {run : List (Turn σ)}
    (clears : .clearCache ∈ run → ∀ g : Factory σ, P g → P g.clearCache) : P (f.after run) :=
  List.foldlRecOn run Factory.turn (motive := P) holds fun g before _ listed =>
    lasting.turn before fun clear => clears (clear ▸ listed) g before

end

theorem Keeps.after (kept : f.Keeps key c) {run : List (Turn σ)} (within : .clearCache ∉ run) :
    (f.after run).Keeps key c := by
  have lasting : Lasting fun g : Factory σ => g.Keeps key c :=
    { unseen := fun kept same => by
        simp only [Prod.mk.injEq] at same
        exact (congrArg (List.lookup key) same.2.2.1).trans kept
      asked := fun variant preset kept => kept.clientFor variant preset
      built := fun _ _ kept => kept }
  exact lasting.after kept fun clears => absurd clears within

theorem Orderly.after (orderly : Orderly f) (run : List (Turn σ)) : Orderly (f.after run) := by
  have lasting : Lasting fun g : Factory σ => Orderly g :=
    { unseen := Orderly.unseen
      asked := fun variant preset orderly => orderly.clientFor variant preset
      built := fun variant preset orderly => orderly.build variant preset }
  exact lasting.after orderly fun _ _ orderly => orderly.clearCache

theorem endpoint_after (f : Factory σ) (run : List (Turn σ)) : (f.after run).endpoint = f.endpoint := by
  have lasting : Lasting fun g : Factory σ => g.endpoint = f.endpoint :=
    { unseen := fun before same => (Prod.mk.inj same).1.trans before
      asked := fun _ _ before =>
        clientFor_preserves (P := fun g => g.endpoint = f.endpoint) before before fun _ _ _ same => same
      built := fun _ _ before => before }
  exact lasting.after rfl fun _ _ before => before

/-- Numbers are not given again. -/
theorem made_le_after (f : Factory σ) (run : List (Turn σ)) : f.made ≤ (f.after run).made := by
  have lasting : Lasting fun g : Factory σ => f.made ≤ g.made :=
    { unseen := fun before same => by
        simp only [Prod.mk.injEq] at same
        exact before.trans_eq same.2.2.2.symm
      asked := fun _ _ before =>
        clientFor_preserves (P := fun g => f.made ≤ g.made) before (Nat.le_succ_of_le before)
          fun _ _ _ fewer => fewer
      built := fun _ _ before => Nat.le_succ_of_le before }
  exact lasting.after (Nat.le_refl _) fun _ _ before => before

/-- The registry names the stages of a client that is kept, and no others. -/
theorem Orderly.stagesOf_eq (orderly : Orderly f) {e : (Variant × Preset) × Client} (kept : e ∈ f.cache) :
    f.registry.stagesOf e.2.id = Stage.all.filter (· ∈ e.2.stages) := by
  have made := orderly.made e kept
  have same : ∀ s, s ∈ f.registry.stagesOf e.2.id ↔ s ∈ e.2.stages := by
    refine fun s => ⟨fun listed => ?_, orderly.installed e kept s⟩
    rw [made.id] at listed
    rw [made.stages.mem_iff, made.settings_eq]
    exact orderly.within e.1.1 e.1.2 s listed
  rw [orderly.ordered.stagesOf_eq same]
  exact List.filter_congr fun s _ => List.contains_eq_mem s e.2.stages

/-- A client is the same again exactly if it may serve further calls. -/
theorem Orderly.clientFor_again (orderly : Orderly f) (variant : Variant) (preset : Preset)
    {later : List (Turn σ)} (kept : .clearCache ∉ later) :
    (((f.clientFor variant preset).2.after later).clientFor variant preset).1 =
        (f.clientFor variant preset).1 ↔
      (settingsFor variant preset).cacheable = true := by
  constructor
  · intro same
    by_contra denied
    have denied : (settingsFor variant preset).cacheable = false := eq_false_of_ne_true denied
    have next := (orderly.clientFor variant preset).after later
    -- both are made on demand, the second after the first, so their numbers differ
    rw [next.clientFor_of_not_cacheable denied, orderly.clientFor_of_not_cacheable denied] at same
    have same : ((f.build variant preset).2.after later).made = f.made :=
      congrArg Client.serial same
    have later_le := (f.build variant preset).2.made_le_after later
    rw [same] at later_le
    exact Nat.not_succ_le_self f.made later_le
  · intro allowed
    rw [clientFor_of_kept ((f.clientFor_keeps allowed).after kept)]

/-- Whatever a factory has been asked, and however its controller and its optimizer have changed:
each client kept is the one that its variant and its preset stand for, and may serve further calls;
the registry names its stages and no others. The controller's decision on a path tells the variant of
the client for it, whatever is kept. A second call for a variant and a preset has the client of the
first, unless the clients were forgotten, exactly if the settings allow that. -/
theorem clients_kept (controller : Controller σ) (endpoint : Endpoint) (optimizer : Optimizer)
    (run : List (Turn σ)) :
    let f := after { controller, endpoint, optimizer } run
    (∀ e ∈ f.cache, Made endpoint e.1 e.2 ∧ e.2.settings.cacheable = true ∧
      f.registry.stagesOf e.2.id = Stage.all.filter (· ∈ e.2.stages)) ∧
    (f.cache.map (·.1)).Nodup ∧
    (∀ preset path,
      Made endpoint (.ofDecision (f.controller.decide path).1.useNew, preset)
        (f.getClient preset path).1) ∧
    ∀ variant preset later, .clearCache ∉ later →
      ((((f.clientFor variant preset).2.after later).clientFor variant preset).1 =
          (f.clientFor variant preset).1 ↔
        (settingsFor variant preset).cacheable = true) := by
  intro f
  have orderly : Orderly f := (orderly_start controller endpoint optimizer).after run
  have same : f.endpoint = endpoint := endpoint_after _ run
  refine ⟨fun e kept => ⟨?_, orderly.cacheable e kept, orderly.stagesOf_eq kept⟩, orderly.keys, ?_, ?_⟩
  · exact same ▸ orderly.made e kept
  · intro preset path
    have asked : Orderly (f.asked path) := orderly.unseen rfl
    exact same ▸ asked.clientFor_made (f.decided path) preset
  · exact fun variant preset later kept => orderly.clientFor_again variant preset kept

/-- The client of administrators outlasts a controller that decides against it, one for uploads
does not. -/
theorem clients_kept_admin_upload :
    let assigner : Assigner Memory := { store := Memory.store, state := {}, newToken := "a" }
    let on : Controller Memory := { config := { enabled := true, percentage := 100 }, assigner }
    let off : Controller Memory := { config := { enabled := false }, assigner }
    let f := after { controller := on } [.getClient .admin (some "/admin"), .control off]
    (f.getClient .admin (some "/admin")).1.variant = .legacy ∧
      (((f.clientFor .unified .admin).2.after [.measure {}]).clientFor .unified .admin).1 =
        (f.clientFor .unified .admin).1 ∧
      (((f.clientFor .unified .upload).2.after [.measure {}]).clientFor .unified .upload).1 ≠
        (f.clientFor .unified .upload).1 := by
  intro assigner on off f
  have kept : .clearCache ∉ [(.measure {} : Turn Memory)] := by simp
  obtain ⟨_, _, decided, again⟩ :=
    clients_kept on {} {} [.getClient .admin (some "/admin"), .control off]
  refine ⟨(decided .admin (some "/admin")).variant, ?_, ?_⟩
  · exact (again .unified .admin _ kept).mpr (by decide)
  · exact fun same => Bool.false_ne_true ((again .unified .upload _ kept).mp same)

end Factory

end ClientMigration
