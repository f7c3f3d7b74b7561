/-
# Proofs.Codemod.IdleRules -- files that the rules for legacy names leave alone

Four rules look for different things: a name that can lose its import, a factory
that has to be imported, calls on a client, calls of the accessor. All of it
hangs on one count. As long as no reference to a binding is replaceable none of
the rules makes an edit, and the first reference that is has its rule make one
(`legacyRules_idle_iff`).

What is not replaceable is told by the place alone: a name that is declared
again, one that is passed on as a value, one that something other than a verb is
asked of (`IsSpared`).
-/
import ClientMigration.Proofs.Codemod.SecondRun
import ClientMigration.Proofs.Codemod.Verified

namespace ClientMigration.Codemod

set_option autoImplicit false

open Script

variable {config : Config} {source : Text} {tree : Node} {preset : Preset} {b : Binding} {p : Place}

/-! ## References that stay -/

/-- A place where a name is not replaced, whatever it stands for: the name is declared again, or nothing
is called and no member is taken there, or the member is no verb. -/
inductive IsSpared (config : Config) (source : Text) (p : Place) : Prop
  | shadowed (declared : p.isShadowed source)
  | passed (noObject : ¬ p.node.plays .object) (noFunction : ¬ p.node.plays .function)
  | member {member : Node} {up : List Node} (above : p.above = member :: up)
      (kind : member.kind = .memberExpression)
      (noVerb : ∀ verb, member.child? .property = some verb →
        ¬ config.httpMethods.contains (verb.name source))

theorem not_replaces_of_passed (noObject : ¬ p.node.plays .object) (noFunction : ¬ p.node.plays .function)
    (kind : BindingKind) : ¬ kind.replaces config source p := by
  intro replaces
  cases kind with
  | client =>
      simp only [BindingKind.replaces, Bool.and_eq_true] at replaces
      obtain ⟨_, _, _, _, _, _, object, _⟩ := verbCall_cases replaces.2
      exact noObject object
  | accessor =>
      simp only [BindingKind.replaces, Bool.and_eq_true] at replaces
      obtain ⟨_, _, _, _, _, function, _⟩ := bareCall_cases replaces.2
      exact noFunction function

theorem not_replaces_of_member {member : Node} {up : List Node} (above : p.above = member :: up)
    (isMember : member.kind = .memberExpression)
    (noVerb : ∀ verb, member.child? .property = some verb → ¬ config.httpMethods.contains (verb.name source))
    (kind : BindingKind) : ¬ kind.replaces config source p := by
  intro replaces
  cases kind with
  | client =>
      simp only [BindingKind.replaces, Bool.and_eq_true] at replaces
      obtain ⟨member', _, _, verb, above', _, _, found, isVerb, _⟩ := verbCall_cases replaces.2
      rw [above] at above'
      cases above'
      exact noVerb verb found isVerb
  | accessor =>
      simp only [BindingKind.replaces, Bool.and_eq_true] at replaces
      obtain ⟨call, _, _, above', isCall, _⟩ := bareCall_cases replaces.2
      rw [above] at above'
      cases above'
      rw [isMember] at isCall
      cases isCall

theorem IsSpared.stays (spared : IsSpared config source p) (unshadowed : p.isShadowed source = false)
    (kind : BindingKind) : kind.replaces config source p = false := by
  rw [← Bool.not_eq_true]
  cases spared with
  | shadowed declared => simp [unshadowed] at declared
  | passed noObject noFunction => exact not_replaces_of_passed noObject noFunction kind
  | member above isMember noVerb => exact not_replaces_of_member above isMember noVerb kind

/-- No reference to a binding is replaceable exactly if no unshadowed one has the form. -/
theorem replaceable_zero_iff (listed : b ∈ (Bindings.collect config source tree).list) :
    b.replaceable = 0 ↔ ∀ p ∈ namePlaces tree, p.node.name source = b.name →
      p.isShadowed source = false → b.kind.replaces config source p = false := by
  rw [(Bindings.mem_collect listed).2, List.length_eq_zero_iff, List.filter_eq_nil_iff]
  simp only [Bindings.references, List.mem_filter, Bool.and_eq_true, beq_iff_eq, Bool.not_eq_true',
    Bool.not_eq_true, and_imp]

/-! ## Rules that make no edit -/

/-- The rules for legacy names make no edit exactly if no binding has a replaceable reference, and the
rule for one kind exactly if no binding of that kind has one. A reference is replaceable if its name
is not declared again and it has the form of the kind. So where all that spells a legacy name is spared,
in particular where nothing does, the rules leave text, tree and report as they are. -/
theorem legacyRules_idle_iff (config : Config) (preset : Preset) (source : Text) (tree : Node) :
    let s := settingOf config preset source tree
    ((∀ rule ∈ legacyRules, rule.edits s tree source = []) ↔ ∀ b ∈ s.bindings.list, b.replaceable = 0) ∧
    (∀ kind : BindingKind, kind.rule.edits s tree source = [] ↔
      ∀ b ∈ s.bindings.list, b.kind = kind → b.replaceable = 0) ∧
    (∀ b ∈ s.bindings.list, b.replaceable = 0 ↔ ∀ p ∈ namePlaces tree, p.node.name source = b.name →
      p.isShadowed source = false → b.kind.replaces config source p = false) ∧
    ((∀ b ∈ s.bindings.list, ∀ p ∈ namePlaces tree, p.node.name source = b.name →
        IsSpared config source p) →
      (∀ rule ∈ legacyRules, rule.edits s tree source = []) ∧
      ∀ (read : Reader) (path : Path) (applied : List Rule),
        legacyRules.foldlM (Draft.step read path s) ⟨source, tree, applied⟩ =
          .ok ⟨source, tree, applied⟩) := by
  intro s
  refine ⟨legacyRules_still_iff, kindEdits_nil_iff, fun b => replaceable_zero_iff, fun spared => ?_⟩
  have unused : ∀ b ∈ s.bindings.list, b.replaceable = 0 := fun b listed =>
    (replaceable_zero_iff listed).mpr fun p named spelled unshadowed =>
      (spared b listed p named spelled).stays unshadowed b.kind
  have still {rule : Rule} (legacy : rule ∈ legacyRules) : rule.edits s tree source = [] :=
    legacyRules_still unused legacy
  refine ⟨fun rule => still, fun read path applied => ?_⟩
  exact foldlM_still fun rule legacy => rewritten_of_no_edits (still legacy)

end ClientMigration.Codemod
