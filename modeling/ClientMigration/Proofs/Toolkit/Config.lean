/-
# Proofs.Toolkit.Config -- what the sections of the configuration are read from

What a record says for a section is told entry by entry (`TakenFrom`): a field is
what its entry holds, and the section's default without one. That is what reading
the record comes to, for each of the five sections and for the whole
(`read_record_iff`). From it a section reads back what it writes (`keeps`): the
rollout with a percentage up to 100, the pipeline with a time of 64 bits, and the
others without a condition.

The theorem is `ToolkitConfig.json_readsBack`.
-/
import ClientMigration.Proofs.Data.Codec
import ClientMigration.Proofs.Rollout.Numerals
import ClientMigration.Toolkit.Config

namespace ClientMigration

set_option autoImplicit false

open Codec (boolean_keeps text_keeps texts_keeps unsigned_keeps)

variable {es : List (String × Datum)}

/-! ## The rollout -/

namespace RolloutConfig

/-- What the entries of a record say for the rollout. -/
structure TakenFrom (es : List (String × Datum)) (c : RolloutConfig) : Prop where
  enabled : Given .boolean es "enabled" ({} : RolloutConfig).enabled c.enabled
  percentage : Given percentageCodec es "rollout_percentage" ({} : RolloutConfig).percentage c.percentage
  enabledPaths : Given (.list .text) es "enabled_paths" ({} : RolloutConfig).enabledPaths c.enabledPaths
  disabledPaths : Given (.list .text) es "disabled_paths" ({} : RolloutConfig).disabledPaths c.disabledPaths
  debugMode : Given .boolean es "debug_mode" ({} : RolloutConfig).debugMode c.debugMode

theorem read_record_iff {c : RolloutConfig} : codec.read (.record es) = some c ↔ TakenFrom es c := by
  show fields.foldlM (Field.putFrom true es) {} = some c ↔ _
  simp only [fields, putFields_cons_iff, List.foldlM_nil, Option.pure_def, Option.some.injEq]
  constructor
  · rintro ⟨_, enabled, _, percentage, _, enabledPaths, _, disabledPaths, _, debugMode, rfl⟩
    exact ⟨enabled, percentage, enabledPaths, disabledPaths, debugMode⟩
  · rintro ⟨enabled, percentage, enabledPaths, disabledPaths, debugMode⟩
    exact ⟨_, enabled, _, percentage, _, enabledPaths, _, disabledPaths, _, debugMode, rfl⟩

/-- Percentages end at 100. -/
def InRange (c : RolloutConfig) : Prop := c.percentage ≤ 100

theorem percentageCodec_keeps : percentageCodec.Keeps (· ≤ 100) where
  read_write n inRange := by
    have room : Datum.fitsWord n = true :=
      Environment.fitsWord_iff.mpr (by unfold Environment.HasRoom; omega)
    have same : clampPercentage n = n := (clampPercentage_natCast n).trans (Nat.min_eq_left inRange)
    simp [percentageCodec, room, same]
  inRange d n read := by
    cases d with
    | whole m =>
      obtain ⟨_, same⟩ := Option.ite_none_right_eq_some.mp read
      exact Option.some.inj same ▸ clampPercentage_le m
    | _ => cases read
  proper _ := trivial

theorem keeps : codec.Keeps InRange where
  read_write c inRange := by
    have distinct : (fields.map Field.name).Nodup := by decide
    exact read_record_iff.mpr
      { enabled := boolean_keeps.given distinct 0 rfl trivial _
        percentage := percentageCodec_keeps.given distinct 1 rfl inRange _
        enabledPaths := texts_keeps.given distinct 2 rfl trivial _
        disabledPaths := texts_keeps.given distinct 3 rfl trivial _
        debugMode := boolean_keeps.given distinct 4 rfl trivial _ }
  inRange := by
    refine Codec.settings_keep ?_ (Nat.zero_le _)
    simp only [fields, List.forall_mem_cons]
    exact ⟨boolean_keeps.put_keep fun _ _ _ kept => kept,
      percentageCodec_keeps.put_keep fun _ _ inRange _ => inRange,
      texts_keeps.put_keep fun _ _ _ kept => kept, texts_keeps.put_keep fun _ _ _ kept => kept,
      boolean_keeps.put_keep fun _ _ _ kept => kept, List.forall_mem_nil _⟩
  proper _ := ⟨boolean_keeps.proper _, percentageCodec_keeps.proper _, texts_keeps.proper _,
    texts_keeps.proper _, boolean_keeps.proper _, trivial⟩

end RolloutConfig

/-! ## The rewrite -/

theorem Preset.codec_keeps : codec.Keeps Anything := Codec.member_keeps fun p => by cases p <;> decide

namespace Codemod

theorem PrefixScope.codec_keeps : codec.Keeps Anything :=
  Codec.member_keeps fun s => by cases s <;> decide

namespace Config

/-- What the entries of a record say for the rewrite. -/
structure TakenFrom (es : List (String × Datum)) (c : Config) : Prop where
  legacyModules : Given (.list .text) es "legacy_modules" ({} : Config).legacyModules c.legacyModules
  clientExport : Given .text es "client_export" ({} : Config).clientExport c.clientExport
  accessorExport : Given .text es "accessor_export" ({} : Config).accessorExport c.accessorExport
  unifiedModule : Given .text es "unified_module" ({} : Config).unifiedModule c.unifiedModule
  factoryFunction : Given .text es "factory_function" ({} : Config).factoryFunction c.factoryFunction
  deprecatedErrorModules : Given (.list .text) es "deprecated_error_modules"
    ({} : Config).deprecatedErrorModules c.deprecatedErrorModules
  httpMethods : Given (.list .text) es "http_methods" ({} : Config).httpMethods c.httpMethods
  localClientName : Given .text es "local_client_name" ({} : Config).localClientName c.localClientName
  defaultPreset : Given Preset.codec es "default_preset" ({} : Config).defaultPreset c.defaultPreset
  prefixScope : Given PrefixScope.codec es "prefix_scope" ({} : Config).prefixScope c.prefixScope

theorem read_record_iff {c : Config} : codec.read (.record es) = some c ↔ TakenFrom es c := by
  show fields.foldlM (Field.putFrom true es) {} = some c ↔ _
  simp only [fields, putFields_cons_iff, List.foldlM_nil, Option.pure_def, Option.some.injEq]
  constructor
  · rintro ⟨_, modules, _, client, _, accessor, _, unified, _, factory, _, errors, _, methods, _, name,
      _, preset, _, scope, rfl⟩
    exact ⟨modules, client, accessor, unified, factory, errors, methods, name, preset, scope⟩
  · rintro ⟨modules, client, accessor, unified, factory, errors, methods, name, preset, scope⟩
    exact ⟨_, modules, _, client, _, accessor, _, unified, _, factory, _, errors, _, methods, _, name,
      _, preset, _, scope, rfl⟩

theorem keeps : codec.Keeps Anything where
  read_write c _ := by
    have distinct : (fields.map Field.name).Nodup := by decide
    exact read_record_iff.mpr
      { legacyModules := texts_keeps.given distinct 0 rfl trivial _
        clientExport := text_keeps.given distinct 1 rfl trivial _
        accessorExport := text_keeps.given distinct 2 rfl trivial _
        unifiedModule := text_keeps.given distinct 3 rfl trivial _
        factoryFunction := text_keeps.given distinct 4 rfl trivial _
        deprecatedErrorModules := texts_keeps.given distinct 5 rfl trivial _
        httpMethods := texts_keeps.given distinct 6 rfl trivial _
        localClientName := text_keeps.given distinct 7 rfl trivial _
        defaultPreset := Preset.codec_keeps.given distinct 8 rfl trivial _
        prefixScope := PrefixScope.codec_keeps.given distinct 9 rfl trivial _ }
  inRange _ _ _ := trivial
  proper _ := ⟨texts_keeps.proper _, text_keeps.proper _, text_keeps.proper _, text_keeps.proper _,
    text_keeps.proper _, texts_keeps.proper _, texts_keeps.proper _, text_keeps.proper _,
    Preset.codec_keeps.proper _, PrefixScope.codec_keeps.proper _, trivial⟩

end Config

end Codemod

/-! ## The pipeline -/

namespace OptimizerConfig

/-- What the entries of a record say for the pipeline. -/
structure TakenFrom (es : List (String × Datum)) (c : OptimizerConfig) : Prop where
  skipOnSuccess : Given .boolean es "skip_on_success" ({} : OptimizerConfig).skipOnSuccess c.skipOnSuccess
  skipOnCachedResponse : Given .boolean es "skip_on_cached_response"
    ({} : OptimizerConfig).skipOnCachedResponse c.skipOnCachedResponse
  conditionalExecution : Given .boolean es "conditional_execution"
    ({} : OptimizerConfig).conditionalExecution c.conditionalExecution
  maxExecutionTime : Given (.unsigned 64) es "max_execution_time_ms"
    ({} : OptimizerConfig).maxExecutionTime c.maxExecutionTime
  parallelExecution : Given .boolean es "parallel_execution"
    ({} : OptimizerConfig).parallelExecution c.parallelExecution
  lazyLoading : Given .boolean es "lazy_loading" ({} : OptimizerConfig).lazyLoading c.lazyLoading

theorem read_record_iff {c : OptimizerConfig} : codec.read (.record es) = some c ↔ TakenFrom es c := by
  show fields.foldlM (Field.putFrom true es) {} = some c ↔ _
  simp only [fields, putFields_cons_iff, List.foldlM_nil, Option.pure_def, Option.some.injEq]
  constructor
  · rintro ⟨_, success, _, cached, _, conditional, _, time, _, parallel, _, lazy, rfl⟩
    exact ⟨success, cached, conditional, time, parallel, lazy⟩
  · rintro ⟨success, cached, conditional, time, parallel, lazy⟩
    exact ⟨_, success, _, cached, _, conditional, _, time, _, parallel, _, lazy, rfl⟩

/-- Times have 64 bits. -/
def InRange (c : OptimizerConfig) : Prop := c.maxExecutionTime < 2 ^ 64

theorem keeps : codec.Keeps InRange where
  read_write c inRange := by
    have distinct : (fields.map Field.name).Nodup := by decide
    exact read_record_iff.mpr
      { skipOnSuccess := boolean_keeps.given distinct 0 rfl trivial _
        skipOnCachedResponse := boolean_keeps.given distinct 1 rfl trivial _
        conditionalExecution := boolean_keeps.given distinct 2 rfl trivial _
        maxExecutionTime := (unsigned_keeps 64).given distinct 3 rfl inRange _
        parallelExecution := boolean_keeps.given distinct 4 rfl trivial _
        lazyLoading := boolean_keeps.given distinct 5 rfl trivial _ }
  inRange := by
    refine Codec.settings_keep ?_ (by unfold InRange; decide)
    simp only [fields, List.forall_mem_cons]
    exact ⟨boolean_keeps.put_keep fun _ _ _ kept => kept, boolean_keeps.put_keep fun _ _ _ kept => kept,
      boolean_keeps.put_keep fun _ _ _ kept => kept,
      (unsigned_keeps 64).put_keep fun _ _ inRange _ => inRange,
      boolean_keeps.put_keep fun _ _ _ kept => kept, boolean_keeps.put_keep fun _ _ _ kept => kept,
      List.forall_mem_nil _⟩
  proper _ := ⟨boolean_keeps.proper _, boolean_keeps.proper _, boolean_keeps.proper _,
    (unsigned_keeps 64).proper _, boolean_keeps.proper _, boolean_keeps.proper _, trivial⟩

end OptimizerConfig

/-! ## The client and the store -/

namespace Endpoint

/-- What the entries of a record say for the client. -/
structure TakenFrom (es : List (String × Datum)) (e : Endpoint) : Prop where
  baseHost : Given .text es "base_host" ({} : Endpoint).baseHost e.baseHost
  apiVersion : Given .text es "api_version" ({} : Endpoint).apiVersion e.apiVersion

theorem read_record_iff {e : Endpoint} : codec.read (.record es) = some e ↔ TakenFrom es e := by
  show fields.foldlM (Field.putFrom true es) {} = some e ↔ _
  simp only [fields, putFields_cons_iff, List.foldlM_nil, Option.pure_def, Option.some.injEq]
  constructor
  · rintro ⟨_, host, _, version, rfl⟩
    exact ⟨host, version⟩
  · rintro ⟨host, version⟩
    exact ⟨_, host, _, version, rfl⟩

theorem keeps : codec.Keeps Anything where
  read_write e _ := by
    have distinct : (fields.map Field.name).Nodup := by decide
    exact read_record_iff.mpr
      { baseHost := text_keeps.given distinct 0 rfl trivial _
        apiVersion := text_keeps.given distinct 1 rfl trivial _ }
  inRange _ _ _ := trivial
  proper _ := ⟨text_keeps.proper _, text_keeps.proper _, trivial⟩

end Endpoint

namespace StoreSection

/-- What the entries of a record say for the store. -/
structure TakenFrom (es : List (String × Datum)) (s : StoreSection) : Prop where
  path : Given (.optional .text) es "path" ({} : StoreSection).path s.path

theorem read_record_iff {s : StoreSection} : codec.read (.record es) = some s ↔ TakenFrom es s := by
  show fields.foldlM (Field.putFrom true es) {} = some s ↔ _
  simp only [fields, putFields_cons_iff, List.foldlM_nil, Option.pure_def, Option.some.injEq]
  constructor
  · rintro ⟨_, path, rfl⟩
    exact ⟨path⟩
  · rintro ⟨path⟩
    exact ⟨_, path, rfl⟩

theorem keeps : codec.Keeps Anything where
  read_write s _ := by
    have distinct : (fields.map Field.name).Nodup := by decide
    exact read_record_iff.mpr { path := Codec.optional_text_keeps.given distinct 0 rfl trivial _ }
  inRange _ _ _ := trivial
  proper _ := ⟨Codec.optional_text_keeps.proper _, trivial⟩

end StoreSection

/-! ## The whole -/

namespace ToolkitConfig

/-- What the entries of a record say for the toolkit. -/
structure TakenFrom (es : List (String × Datum)) (c : ToolkitConfig) : Prop where
  rollout : Given RolloutConfig.codec es "rollout" {} c.rollout
  codemod : Given Codemod.Config.codec es "rewrite" {} c.codemod
  optimizer : Given OptimizerConfig.codec es "interceptors" {} c.optimizer
  client : Given Endpoint.codec es "client" {} c.client
  store : Given StoreSection.codec es "store" {} c.store

theorem read_record_iff {c : ToolkitConfig} : codec.read (.record es) = some c ↔ TakenFrom es c := by
  show fields.foldlM (Field.putFrom true es) {} = some c ↔ _
  simp only [fields, putFields_cons_iff, List.foldlM_nil, Option.pure_def, Option.some.injEq]
  constructor
  · rintro ⟨_, rollout, _, codemod, _, optimizer, _, client, _, store, rfl⟩
    exact ⟨rollout, codemod, optimizer, client, store⟩
  · rintro ⟨rollout, codemod, optimizer, client, store⟩
    exact ⟨_, rollout, _, codemod, _, optimizer, _, client, _, store, rfl⟩

/-- The numbers of both sections that have some are in range. -/
def InRange (c : ToolkitConfig) : Prop := c.rollout.InRange ∧ c.optimizer.InRange

theorem keeps : codec.Keeps InRange where
  read_write c inRange := by
    have distinct : (fields.map Field.name).Nodup := by decide
    exact read_record_iff.mpr
      { rollout := RolloutConfig.keeps.given distinct 0 rfl inRange.1 _
        codemod := Codemod.Config.keeps.given distinct 1 rfl trivial _
        optimizer := OptimizerConfig.keeps.given distinct 2 rfl inRange.2 _
        client := Endpoint.keeps.given distinct 3 rfl trivial _
        store := StoreSection.keeps.given distinct 4 rfl trivial _ }
  inRange := by
    have initial : InRange {} := by
      unfold InRange RolloutConfig.InRange OptimizerConfig.InRange
      decide
    refine Codec.settings_keep ?_ initial
    simp only [fields, List.forall_mem_cons]
    exact ⟨RolloutConfig.keeps.put_keep fun _ _ inRange kept => ⟨inRange, kept.2⟩,
      Codemod.Config.keeps.put_keep fun _ _ _ kept => kept,
      OptimizerConfig.keeps.put_keep fun _ _ inRange kept => ⟨kept.1, inRange⟩,
      Endpoint.keeps.put_keep fun _ _ _ kept => kept,
      StoreSection.keeps.put_keep fun _ _ _ kept => kept, List.forall_mem_nil _⟩
  proper _ := ⟨RolloutConfig.keeps.proper _, Codemod.Config.keeps.proper _, OptimizerConfig.keeps.proper _,
    Endpoint.keeps.proper _, StoreSection.keeps.proper _, trivial⟩

/-- A configuration is read back from the JSON text that is written for it. Whatever text one is read
from, its percentage is at most 100, its time has 64 bits, and it is read back from its own text. In a
record, for the whole or for a section, each entry under a known name sets the field of that name alone,
and a field without an entry has the section's default. -/
theorem json_readsBack :
    (∀ c : ToolkitConfig, c.rollout.percentage ≤ 100 → c.optimizer.maxExecutionTime < 2 ^ 64 →
      codec.ReadsBack c) ∧
    (∀ (t : Text) (c : ToolkitConfig), codec.ofJson t = some c →
      c.rollout.percentage ≤ 100 ∧ c.optimizer.maxExecutionTime < 2 ^ 64 ∧ codec.ReadsBack c) ∧
    ∀ es : List (String × Datum),
      (∀ c, codec.read (.record es) = some c ↔ TakenFrom es c) ∧
      (∀ c, RolloutConfig.codec.read (.record es) = some c ↔ RolloutConfig.TakenFrom es c) ∧
      (∀ c, Codemod.Config.codec.read (.record es) = some c ↔ Codemod.Config.TakenFrom es c) ∧
      (∀ c, OptimizerConfig.codec.read (.record es) = some c ↔ OptimizerConfig.TakenFrom es c) ∧
      (∀ e, Endpoint.codec.read (.record es) = some e ↔ Endpoint.TakenFrom es e) ∧
      ∀ s, StoreSection.codec.read (.record es) = some s ↔ StoreSection.TakenFrom es s := by
  refine ⟨fun c percentage time => keeps.readsBack ⟨percentage, time⟩, fun t c held => ?_, fun es =>
    ⟨fun _ => read_record_iff, fun _ => RolloutConfig.read_record_iff,
      fun _ => Codemod.Config.read_record_iff, fun _ => OptimizerConfig.read_record_iff,
      fun _ => Endpoint.read_record_iff, fun _ => StoreSection.read_record_iff⟩⟩
  obtain ⟨⟨percentage, time⟩, readsBack⟩ := keeps.of_ofJson held
  exact ⟨percentage, time, readsBack⟩

/-- A percentage that was cut down stays so. -/
theorem high_percentage_readsBack :
    codec.ReadsBack
        { rollout := { percentage := 25, enabledPaths := ["/\"\u00e9"] }, store := ⟨some "s.json"⟩ } ∧
      codec.ofJson "\x7b\"rollout\": \x7b\"rollout_percentage\": 250\x7d\x7d".toList =
        some { rollout := { percentage := 100 } } ∧
      codec.ReadsBack { rollout := { percentage := 100 } } := by
  have held : codec.ofJson "\x7b\"rollout\": \x7b\"rollout_percentage\": 250\x7d\x7d".toList =
      some { rollout := { percentage := 100 } } := by decide +kernel
  exact ⟨json_readsBack.1 _ (by decide) (by decide), held, (json_readsBack.2.1 _ _ held).2.2⟩

end ToolkitConfig

end ClientMigration
