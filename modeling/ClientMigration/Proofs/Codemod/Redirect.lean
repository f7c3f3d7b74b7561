/-
# Proofs.Codemod.Redirect -- what the walk for calls plans

The walk carries the clients declared so far and the edits. One step of it does
nothing, or replaces one name, or declares a client and replaces the name by it
(`redirect_cases`). `Planned` is what every stretch of the walk keeps: an edit
is the replacement of a call's client or the declaration of a client in the log,
every entry of the log has its edit, and no call seen is left out.
-/
import ClientMigration.Codemod.CallEdits
import ClientMigration.Proofs.Script.Places

namespace ClientMigration.Codemod

set_option autoImplicit false

open Script

variable {s : Setting} {source : Text}

theorem callPlaces_identifier {tree : Node} {p : Place} (visited : p ∈ callPlaces tree) :
    p ∈ tree.allPlaces ∧ p.node.kind = .identifier := by
  obtain ⟨inside, kind⟩ := List.mem_filter.mp visited
  exact ⟨(Node.mem_places_iff_enters.mp inside).1, eq_of_beq kind⟩

/-- The declaration of a client in the body around a call. -/
structure Declaration (s : Setting) (source : Text) (p : Place) (d : Node × String) (e : Edit) :
    Prop where
  call : isClientCall s source p
  around : bodyAround? p = some d.1
  fresh : d.2 = freshName (usedNames source d.1) s.config.localClientName
  edit : declarationEdit? s source d.1 d.2 = some e

/-- What may take the place of the client at `p`: the call of the factory, a client that the body
declares in front of the call, or one that the walk has declared for the body. -/
inductive Substitute (s : Setting) (source : Text) (p : Place) (declared : List (Node × String)) :
    Text → Prop
  | call : Substitute s source p declared (s.factoryCall s.preset).toList
  | existing {block : Node} {name : String} (around : bodyAround? p = some block)
      (found : existingClient? s source block p.node.start = some name) :
      Substitute s source p declared name.toList
  | declared {block : Node} {d : Node × String} (around : bodyAround? p = some block)
      (logged : d ∈ declared) (start : d.1.start = block.start) (stop : d.1.stop = block.stop) :
      Substitute s source p declared d.2.toList

theorem Substitute.mono {p : Place} {declared declared' : List (Node × String)} {text : Text}
    (more : ∀ d ∈ declared, d ∈ declared') :
    Substitute s source p declared text → Substitute s source p declared' text
  | .call => .call
  | .existing around found => .existing around found
  | .declared around logged start stop => .declared around (more _ logged) start stop

/-- A declaration is put in; nothing goes for it. -/
theorem declarationEdit?_empty {block : Node} {name : String} {e : Edit}
    (made : declarationEdit? s source block name = some e) : e.start = e.stop := by
  unfold declarationEdit? at made
  split at made
  · simp at made
  · split at made
    · simp at made
    · cases made
      rfl

/-! ## One step -/

theorem declaredIn?_some {c : Clients} {block : Node} {name : String}
    (found : c.declaredIn? block = some name) :
    ∃ d ∈ c.declared, d.1.start = block.start ∧ d.1.stop = block.stop ∧ d.2 = name := by
  unfold Clients.declaredIn? at found
  obtain ⟨d, first, rfl⟩ := Option.map_eq_some_iff.mp found
  have same := List.find?_some first
  simp only [Bool.and_eq_true, beq_iff_eq] at same
  exact ⟨d, List.mem_of_find?_eq_some first, same.1, same.2, rfl⟩

theorem clientIn_cases {block : Node} {p : Place} (c : Clients) (call : isClientCall s source p)
    (around : bodyAround? p = some block) :
    (∃ text, Substitute s source p c.declared text.toList ∧
      clientIn s source block p c = (text, c)) ∨
      ∃ d e, Declaration s source p d e ∧
        clientIn s source block p c = (d.2, ⟨d :: c.declared, c.edits ++ [e]⟩) := by
  unfold clientIn
  cases existing : existingClient? s source block p.node.start with
  | some name => exact Or.inl ⟨name, .existing around existing, rfl⟩
  | none =>
      cases found : c.declaredIn? block with
      | some name =>
          obtain ⟨d, logged, start, stop, rfl⟩ := declaredIn?_some found
          exact Or.inl ⟨d.2, .declared around logged start stop, rfl⟩
      | none =>
          cases edit : declarationEdit? s source block
              (freshName (usedNames source block) s.config.localClientName) with
          | none =>
              simp only [edit]
              exact Or.inl ⟨_, .call, rfl⟩
          | some e =>
              simp only [edit]
              exact Or.inr ⟨(block, _), e, ⟨call, around, rfl, edit⟩, rfl⟩

/-- One place of the walk: no call, a call with a client at hand, or one that gets a client
declared. -/
theorem redirect_cases (c : Clients) (p : Place) :
    (¬ isClientCall s source p ∧ redirect s source c p = c) ∨
      (isClientCall s source p ∧ ∃ text, Substitute s source p c.declared text ∧
        redirect s source c p = ⟨c.declared, c.edits ++ [⟨p.node.start, p.node.stop, text⟩]⟩) ∨
      (∃ d e, Declaration s source p d e ∧ redirect s source c p =
        ⟨d :: c.declared, c.edits ++ [e] ++ [⟨p.node.start, p.node.stop, d.2.toList⟩]⟩) := by
  unfold redirect
  by_cases call : isClientCall s source p = true
  · simp only [call, if_true]
    cases around : bodyAround? p with
    | none => exact Or.inr (Or.inl ⟨trivial, _, .call, rfl⟩)
    | some block =>
        rcases clientIn_cases c call around with ⟨text, stands, same⟩ | ⟨d, e, declares, grown⟩
        · simp only [same]
          exact Or.inr (Or.inl ⟨trivial, _, stands, rfl⟩)
        · simp only [grown]
          exact Or.inr (Or.inr ⟨d, e, declares, rfl⟩)
  · rw [if_neg call]
    exact Or.inl ⟨call, rfl⟩

/-! ## The whole walk -/

/-- The clients declared and the edits made for the places seen so far. -/
structure Planned (s : Setting) (source : Text) (seen : List Place) (c : Clients) : Prop where
  /-- Every client in the log is declared by an edit. -/
  declared : ∀ d ∈ c.declared, ∃ p ∈ seen, ∃ e ∈ c.edits, Declaration s source p d e
  /-- Every edit declares a client in the log or replaces the client of a call. -/
  edits : ∀ e ∈ c.edits, (∃ p ∈ seen, ∃ d ∈ c.declared, Declaration s source p d e) ∨
    ∃ p ∈ seen, isClientCall s source p ∧ ∃ text, Substitute s source p c.declared text ∧
      e = ⟨p.node.start, p.node.stop, text⟩
  /-- Every call seen has its client replaced. -/
  replaced : ∀ p ∈ seen, isClientCall s source p →
    ∃ text, ⟨p.node.start, p.node.stop, text⟩ ∈ c.edits

theorem planned_nil : Planned s source [] {} where
  declared := by simp
  edits := by simp
  replaced := by simp

/-- What is planned stays planned when the log and the edits grow by what one more call needs. -/
theorem Planned.extend {seen : List Place} {c c' : Clients} {p : Place}
    (planned : Planned s source seen c)
    (log : ∀ d ∈ c'.declared, d ∈ c.declared ∨ ∃ e ∈ c'.edits, Declaration s source p d e)
    (more : ∀ e ∈ c'.edits, e ∈ c.edits ∨ (∃ d ∈ c'.declared, Declaration s source p d e) ∨
      isClientCall s source p ∧ ∃ text, Substitute s source p c'.declared text ∧
        e = ⟨p.node.start, p.node.stop, text⟩)
    (logKept : ∀ d ∈ c.declared, d ∈ c'.declared) (kept : ∀ e ∈ c.edits, e ∈ c'.edits)
    (here : isClientCall s source p → ∃ text, ⟨p.node.start, p.node.stop, text⟩ ∈ c'.edits) :
    Planned s source (seen ++ [p]) c' where
  declared := by
    intro d logged
    rcases log d logged with before | ⟨e, e_in, declares⟩
    · obtain ⟨q, q_seen, e, e_in, declares⟩ := planned.declared d before
      exact ⟨q, List.mem_append_left _ q_seen, e, kept e e_in, declares⟩
    · exact ⟨p, by simp, e, e_in, declares⟩
  edits := by
    intro e e_in
    rcases more e e_in with before | ⟨d, logged, declares⟩ | replaces
    · rcases planned.edits e before with ⟨q, q_seen, d, logged, declares⟩ |
        ⟨q, q_seen, call, text, stands, same⟩
      · exact Or.inl ⟨q, List.mem_append_left _ q_seen, d, logKept d logged, declares⟩
      · exact Or.inr ⟨q, List.mem_append_left _ q_seen, call, text, stands.mono logKept, same⟩
    · exact Or.inl ⟨p, by simp, d, logged, declares⟩
    · exact Or.inr ⟨p, by simp, replaces⟩
  replaced := by
    intro q q_seen call
    rcases List.mem_append.mp q_seen with before | last
    · obtain ⟨text, e_in⟩ := planned.replaced q before call
      exact ⟨text, kept _ e_in⟩
    · cases List.mem_singleton.mp last
      exact here call

theorem Planned.redirect {seen : List Place} {c : Clients} (planned : Planned s source seen c)
    (p : Place) : Planned s source (seen ++ [p]) (redirect s source c p) := by
  rcases @redirect_cases s source c p with
    ⟨other, same⟩ | ⟨call, text, stands, grown⟩ | ⟨d, e, declares, grown⟩
  · rw [same]
    exact planned.extend (fun _ => Or.inl) (fun _ => Or.inl) (fun _ => id) (fun _ => id)
      (fun call => absurd call other)
  · rw [grown]
    refine planned.extend (fun _ => Or.inl) ?_ (fun _ => id)
      (fun _ => List.mem_append_left _) (fun _ => ⟨text, by simp⟩)
    intro e e_in
    rcases List.mem_append.mp e_in with before | last
    · exact Or.inl before
    · exact Or.inr (Or.inr ⟨call, text, stands, List.mem_singleton.mp last⟩)
  · rw [grown]
    refine planned.extend ?_ ?_ (fun _ => List.mem_cons_of_mem _)
      (fun _ before => by simp [before]) (fun _ => ⟨d.2.toList, by simp⟩)
    · intro d' logged
      rcases List.mem_cons.mp logged with rfl | before
      · exact Or.inr ⟨e, by simp, declares⟩
      · exact Or.inl before
    · intro e' e_in
      rcases List.mem_append.mp e_in with earlier | last
      · rcases List.mem_append.mp earlier with before | declaration
        · exact Or.inl before
        · cases List.mem_singleton.mp declaration
          exact Or.inr (Or.inl ⟨d, by simp, declares⟩)
      · refine Or.inr (Or.inr ⟨declares.call, _, ?_, List.mem_singleton.mp last⟩)
        exact .declared declares.around (by simp) rfl rfl

theorem Planned.foldl : ∀ (ps : List Place) {seen : List Place} {c : Clients},
    Planned s source seen c → Planned s source (seen ++ ps) (ps.foldl (Codemod.redirect s source) c)
  | [], _, _, planned => by simpa using planned
  | p :: ps, seen, c, planned => by
      have further := Planned.foldl ps (planned.redirect p)
      rw [List.append_assoc] at further
      exact further

/-- What the walk over a whole tree plans. -/
theorem redirected_planned {tree : Node} (needed : s.bindings.replaces .client) :
    Planned s source (callPlaces tree) (redirected s tree source) := by
  rw [redirected, if_pos needed]
  exact Planned.foldl (callPlaces tree) planned_nil

end ClientMigration.Codemod
