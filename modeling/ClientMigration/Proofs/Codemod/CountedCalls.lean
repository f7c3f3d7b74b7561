/-
# Proofs.Codemod.CountedCalls -- the calls that a report counts

A report counts calls from above: it comes to a member, and asks whether its object
is a legacy client. A migration counts from below: it comes to a name, and asks
whether the member above it is called. In a well-formed tree a member has one
object, so what is seen at the members of a tree is what is seen at the names
(`verbs_perm`). What is seen at the names are the references that are replaced, one
binding after the other (`called_perm`).

A report adds up what it sees by verb (`find?_tally`). So it has for each verb the
number of references that are replaced and called with it, and in all the number of
references that are replaced (`verbCalls_counted`). That is so where no accessor is
imported, whose calls a report counts and a migration replaces elsewhere, and where
neither `create` nor `defaults` is a verb, of which a report only warns.
-/
import Mathlib.Algebra.GroupWithZero.Nat
import Mathlib.Data.List.Perm.Basic
import ClientMigration.Codemod.Usage
import ClientMigration.Proofs.Data.Table
import ClientMigration.Proofs.Codemod.References
import ClientMigration.Proofs.Codemod.Rereading

namespace ClientMigration.Codemod

set_option autoImplicit false

open Script

/-! ## Words counted -/

section

variable {t : Table Nat} {word : String}

/-- How often each word comes in a list. -/
def tally (words : List String) : Table Nat := words.foldl (fun t w => countUp w t) []

theorem find?_of_lt (before : ∀ e ∈ t, word < e.1) : Table.find? t word = none := by
  induction t with
  | nil => rfl
  | cons e rest ih =>
    obtain ⟨here, below⟩ := List.forall_mem_cons.mp before
    rw [Table.find?, if_neg (by simpa using here.ne'), ih below]

/-- Counting a word puts its new number under it. -/
theorem countUp_eq (sorted : Table.Sorted t) (word : String) :
    countUp word t = Table.insert t word ((Table.find? t word).getD 0 + 1) := by
  induction t with
  | nil => rfl
  | cons e rest ih =>
    obtain ⟨k, n⟩ := e
    obtain ⟨above, below⟩ := List.pairwise_cons.mp sorted
    rw [countUp, Table.insert, Table.find?]
    by_cases same : word = k
    · subst same
      simp
    · by_cases before : word < k
      · have none : Table.find? rest word = none :=
          find?_of_lt fun e listed => before.trans (above e listed)
        simp [same, Ne.symm same, before, none]
      · simp [same, Ne.symm same, before, ih below]

theorem tally_append (words : List String) (word : String) :
    tally (words ++ [word]) = countUp word (tally words) := by
  simp [tally]

theorem sorted_tally (words : List String) : Table.Sorted (tally words) := by
  induction words using List.reverseRecOn with
  | nil => exact List.Pairwise.nil
  | append_singleton words word ih =>
    rw [tally_append, countUp_eq ih]
    exact Table.sorted_insert ih

theorem find?_tally (words : List String) (word : String) :
    Table.find? (tally words) word = if words.count word = 0 then none else some (words.count word) := by
  induction words using List.reverseRecOn with
  | nil => rfl
  | append_singleton words last ih =>
    rw [tally_append, countUp_eq (sorted_tally words), List.count_append]
    by_cases same : word = last
    · subst same
      rw [Table.find?_insert_self, ih]
      split <;> simp_all
    · rw [Table.find?_insert_of_ne _ _ same, ih]
      simp [Ne.symm same]

theorem sum_countUp (t : Table Nat) (word : String) :
    ((countUp word t).map Prod.snd).sum = (t.map Prod.snd).sum + 1 := by
  induction t with
  | nil => rfl
  | cons e rest ih =>
    rw [countUp]
    split
    · simp only [List.map_cons, List.sum_cons]
      omega
    · split
      · simp only [List.map_cons, List.sum_cons]
        omega
      · simp only [List.map_cons, List.sum_cons, ih]
        omega

theorem sum_tally (words : List String) : ((tally words).map Prod.snd).sum = words.length := by
  induction words using List.reverseRecOn with
  | nil => rfl
  | append_singleton words word ih => rw [tally_append, sum_countUp, ih, List.length_append, List.length_singleton]

end

/-! ## What a report sees at one member -/

variable {config : Config} {source : Text} {bs : Bindings} {p : Place}

def Sighting.verb? : Sighting → Option String
  | .call verb => some verb
  | _ => none

/-- The verb of the call that a report sees at a place. -/
def seenVerb? (config : Config) (bs : Bindings) (source : Text) (p : Place) : Option String :=
  if p.node.kind == .memberExpression then (sighting config bs source p).verb? else none

/-- Whether a place is a name that stands for a legacy client and that is called with a verb. -/
def isCalledClient (config : Config) (bs : Bindings) (source : Text) (p : Place) : Bool :=
  isThroughClient bs source p && isVerbCall config source p

/-- The member's name that is read off what a place names. -/
def memberName? (source : Text) (p : Place) : Option String :=
  p.parent?.bind fun member => (member.child? .property).map (·.name source)

/-- The verb that the legacy client at a place is called with. -/
def calledVerb? (config : Config) (bs : Bindings) (source : Text) (p : Place) : Option String :=
  if isCalledClient config bs source p then memberName? source p else none

theorem calledVerb?_other (other : p.node.kind ≠ .identifier) : calledVerb? config bs source p = none := by
  simp [calledVerb?, isCalledClient, isThroughClient, other]

/-- Only the object of a member is called with a verb. -/
theorem calledVerb?_cases {c n : Node} {above : List Node} {verb : String}
    (called : calledVerb? config bs source ⟨c, n :: above⟩ = some verb) :
    n.kind = .memberExpression ∧ c.role = some .object := by
  unfold calledVerb? at called
  split at called
  · rename_i isCalled
    simp only [isCalledClient, Bool.and_eq_true] at isCalled
    obtain ⟨member, _, _, _, chain, kind, object, _⟩ := verbCall_cases isCalled.2
    obtain ⟨rfl, _⟩ := List.cons.inj chain
    exact ⟨kind, eq_of_beq object⟩
  · cases called

theorem not_throughAccessor (noAccessor : ∀ b ∈ bs.list, b.kind ≠ .accessor) :
    isThroughAccessor bs source p = false := by
  have none (name : String) : bs.isKind .accessor name = false := by
    unfold Bindings.isKind
    cases found : bs.get? name with
    | none => rfl
    | some b => simpa using noAccessor b (List.mem_of_find?_eq_some found)
  simp [isThroughAccessor, none]

/-- What the object of a member has to be called with a verb. -/
theorem isVerbCall_object {n object : Node} {above : List Node} (kind : n.kind = .memberExpression)
    (plays : object.plays .object) :
    isVerbCall config source ⟨object, n :: above⟩ =
      ((n.child? .property).any (fun verb => config.httpMethods.contains (verb.name source)) &&
        (above.head?.any (·.kind == .callExpression) && n.plays .function)) := by
  cases above with
  | nil => simp [isVerbCall]
  | cons call above => simp [isVerbCall, kind, plays, Bool.and_assoc]

/-- What a report sees at a member is what its object is called with. -/
theorem seenVerb?_member (noCreate : "create" ∉ config.httpMethods) (noDefaults : "defaults" ∉ config.httpMethods)
    (noAccessor : ∀ b ∈ bs.list, b.kind ≠ .accessor) {n : Node} {above : List Node}
    (kind : n.kind = .memberExpression) :
    seenVerb? config bs source ⟨n, above⟩ =
      (n.child? .object).bind fun object => calledVerb? config bs source ⟨object, n :: above⟩ := by
  unfold seenVerb? sighting
  rw [if_pos (by simp [kind])]
  cases isObject : n.child? .object with
  | none => rfl
  | some object =>
    have plays : object.plays .object := child?_plays isObject
    simp only [Option.bind_some, calledVerb?, isCalledClient, isVerbCall_object kind plays, memberName?,
      Place.parent?, List.head?_cons]
    cases isProperty : n.child? .property with
    | none => simp [Sighting.verb?]
    | some property =>
      simp only [Option.any_some, Option.map_some, not_throughAccessor noAccessor, Bool.or_false]
      generalize property.name source = verb
      by_cases isVerb : config.httpMethods.contains verb = true
      · have create : (verb == "create") = false :=
          beq_false_of_ne fun same => noCreate (List.contains_iff_mem.mp (same ▸ isVerb))
        have defaults : (verb == "defaults") = false :=
          beq_false_of_ne fun same => noDefaults (List.contains_iff_mem.mp (same ▸ isVerb))
        simp only [create, defaults, isVerb, Bool.and_false, Bool.and_true, Bool.true_and, Bool.false_eq_true,
          if_false]
        rw [Bool.and_comm]
        split <;> rfl
      · simp only [isVerb, Bool.and_false, Bool.false_and, Bool.false_eq_true, if_false]
        split
        · rfl
        · split <;> rfl

/-! ## What a report sees in a tree -/

theorem filterMap_cons_toList {α β : Type} {f : α → Option β} (x : α) (xs : List α) :
    (x :: xs).filterMap f = (f x).toList ++ xs.filterMap f := by
  rw [List.filterMap_cons]
  cases f x <;> rfl

/-- Of the nodes of a list only the first in a part counts, if no other node is in that part and nodes
in other parts count for nothing. -/
theorem flatMap_of_role {α : Type} {r : Role} {f : Node → List α} : ∀ {ns : List Node},
    (ns.filterMap Node.role).Nodup → (∀ n ∈ ns, n.role ≠ some r → f n = []) →
      ns.flatMap f = ((ns.find? (·.role == some r)).map f).getD []
  | [], _, _ => rfl
  | n :: ns, distinct, others => by
      have others' := fun m listed => others m (List.mem_cons_of_mem n listed)
      rw [List.flatMap_cons, List.find?_cons]
      by_cases here : n.role = some r
      · rw [List.filterMap_cons_some here, List.nodup_cons] at distinct
        have none : ns.flatMap f = [] := by
          refine List.flatMap_eq_nil_iff.mpr fun m listed => others' m listed fun same => ?_
          exact distinct.1 (List.mem_filterMap.mpr ⟨m, listed, same⟩)
        simp [here, none]
      · have distinct' := distinct.sublist ((List.sublist_cons_self n ns).filterMap Node.role)
        have other : (n.role == some r) = false := beq_false_of_ne here
        rw [others n List.mem_cons_self here, flatMap_of_role distinct' others', other]
        rfl

/-- A report goes everywhere but into imports. -/
def entersForUsage (n : Node) : Bool := n.kind != .importStatement

theorem entered_not_name {n : Node} (enters : entersForNames n) : n.kind ≠ .identifier := by
  intro name
  simp [entersForNames, name] at enters

theorem entered_for_usage {n : Node} (enters : entersForNames n) : entersForUsage n := by
  simp only [entersForUsage, bne_iff_ne]
  intro statement
  simp [entersForNames, statement] at enters

/-- Where a walk over names stops, one that goes everywhere but into imports has come to an end. -/
theorem usage_ends {n : Node} (above : List Node) (wf : n.WellFormed) (stops : ¬ entersForNames n) :
    n.places entersForUsage above = [⟨n, above⟩] ∧ n.kind ≠ .memberExpression := by
  unfold entersForNames at stops
  split at stops
  · rename_i statement
    exact ⟨Node.places_passed above (by simp [entersForUsage, statement]), by simp [statement]⟩
  · rename_i name
    have leaf : n.children = [] := (wf.word (by rw [name]; rfl)).2
    rw [Node.places_entered above (by simp [entersForUsage, name]), leaf]
    exact ⟨rfl, by simp [name]⟩
  · rename_i name
    have leaf : n.children = [] := (wf.word (by rw [name]; rfl)).2
    rw [Node.places_entered above (by simp [entersForUsage, name]), leaf]
    exact ⟨rfl, by simp [name]⟩
  · exact absurd rfl stops

section

variable (noCreate : "create" ∉ config.httpMethods) (noDefaults : "defaults" ∉ config.httpMethods)
  (noAccessor : ∀ b ∈ bs.list, b.kind ≠ .accessor)

include noCreate noDefaults noAccessor

/-- What a report sees at a node is what the node's children are called with. -/
theorem called_children {n : Node} (above : List Node) (wf : n.WellFormed) :
    (n.children.flatMap fun c => (calledVerb? config bs source ⟨c, n :: above⟩).toList) =
      (seenVerb? config bs source ⟨n, above⟩).toList := by
  by_cases kind : n.kind = .memberExpression
  · rw [seenVerb?_member noCreate noDefaults noAccessor kind,
      flatMap_of_role (r := .object) wf.roles_nodup fun c _ other => ?_]
    · cases isObject : n.child? .object <;> unfold Node.child? at isObject <;> simp [isObject]
    · cases called : calledVerb? config bs source ⟨c, n :: above⟩ with
      | none => rfl
      | some verb => exact absurd (calledVerb?_cases called).2 other
  · have unseen : seenVerb? config bs source ⟨n, above⟩ = none := by
      simp [seenVerb?, kind]
    rw [unseen]
    refine List.flatMap_eq_nil_iff.mpr fun c _ => ?_
    cases called : calledVerb? config bs source ⟨c, n :: above⟩ with
    | none => rfl
    | some verb => exact absurd (calledVerb?_cases called).1 kind

/-- The verbs that are seen at the names below a node are those seen at its members, and the one that
the node itself is called with. -/
theorem verbs_perm {n : Node} : ∀ {above : List Node}, n.WellFormed →
    ((n.places entersForNames above).filterMap (calledVerb? config bs source)).Perm
      ((calledVerb? config bs source ⟨n, above⟩).toList ++
        (n.places entersForUsage above).filterMap (seenVerb? config bs source)) := by
  induction n using Node.byChildren with
  | step n below =>
      intro above wf
      by_cases down : entersForNames n = true
      · have here : calledVerb? config bs source ⟨n, above⟩ = none :=
          calledVerb?_other (entered_not_name down)
        rw [Node.places_entered above down, Node.places_entered above (entered_for_usage down),
          Node.placesIn_eq_flatMap, Node.placesIn_eq_flatMap, List.filterMap_cons_none here, here,
          Option.toList_none, List.nil_append, filterMap_cons_toList, List.filterMap_flatMap,
          List.filterMap_flatMap]
        -- What is seen at `n` itself is what its children, and not it, bring in from below.
        rw [← called_children noCreate noDefaults noAccessor above wf]
        exact (List.Perm.flatMap_left _ fun c isChild => below c isChild (wf.child isChild).2.1).trans
          (List.flatMap_append_perm _ _ _).symm
      · obtain ⟨ends, notMember⟩ := usage_ends above wf down
        have unseen : seenVerb? config bs source ⟨n, above⟩ = none := by
          simp [seenVerb?, notMember]
        rw [Node.places_passed above down, ends, filterMap_cons_toList, filterMap_cons_toList, unseen]
        rfl

end

/-! ## The references to one client after the other -/

/-- A list taken key by key. -/
theorem filter_perm_flatMap {α κ : Type} [BEq κ] [LawfulBEq κ] (key : α → κ) (xs : List α) :
    ∀ {keys : List κ}, keys.Nodup →
      (keys.flatMap fun k => xs.filter fun x => key x == k).Perm (xs.filter fun x => keys.contains (key x))
  | [], _ => by simp
  | k :: keys, distinct => by
      obtain ⟨new, distinct⟩ := List.nodup_cons.mp distinct
      rw [List.flatMap_cons]
      refine ((filter_perm_flatMap key xs distinct).append_left _).trans ?_
      refine List.Perm.trans (List.Perm.of_eq ?_) (List.filter_append_perm (fun x => key x == k) _)
      rw [List.filter_filter, List.filter_filter]
      congr 1
      · refine List.filter_congr fun x _ => ?_
        by_cases same : key x = k <;> simp [same]
      · refine List.filter_congr fun x _ => ?_
        by_cases same : key x = k <;> simp [same, new]

section

variable {tree : Node} {b : Binding}

/-- The bindings that stand for a legacy client. -/
def clients (config : Config) (source : Text) (tree : Node) : List Binding :=
  (Bindings.collect config source tree).list.filter (·.kind == .client)

/-- The references to legacy clients that are replaced, one client after the other. -/
def clientCalls (config : Config) (source : Text) (tree : Node) : List Place :=
  (clients config source tree).flatMap (counted config source tree)

/-- Whether a rule could replace a name at a place if it stood for a client. -/
def isOpenCall (config : Config) (source : Text) (p : Place) : Bool :=
  p.node.kind == .identifier && !p.isShadowed source && isVerbCall config source p

theorem counted_client (client : b ∈ clients config source tree) :
    counted config source tree b =
      ((tree.places entersForNames []).filter (isOpenCall config source)).filter
        fun p => p.node.name source == b.name := by
  have kind : b.kind = .client := by simpa using (List.mem_filter.mp client).2
  unfold counted Bindings.references namePlaces
  rw [List.filter_filter, List.filter_filter, List.filter_filter]
  refine List.filter_congr fun p _ => ?_
  simp only [kind, BindingKind.replaces, isOpenCall]
  cases p.node.kind == .identifier <;> cases p.node.name source == b.name <;>
    cases p.isShadowed source <;> simp

/-- A name stands for a client if it is the name of one. -/
theorem isKind_client (name : String) :
    (Bindings.collect config source tree).isKind .client name =
      ((clients config source tree).map Binding.name).contains name := by
  rw [Bool.eq_iff_iff, List.contains_iff_mem, List.mem_map]
  constructor
  · intro isKind
    obtain ⟨b, found, kind⟩ := (Option.any_eq_true _ _).mp isKind
    have same := List.find?_some found
    exact ⟨b, List.mem_filter.mpr ⟨List.mem_of_find?_eq_some found, kind⟩, eq_of_beq same⟩
  · rintro ⟨b, client, rfl⟩
    obtain ⟨listed, kind⟩ := List.mem_filter.mp client
    exact ((Bindings.collect_distinct tree).isKind listed .client).mpr (eq_of_beq kind)

/-- The references to the clients that are replaced are the names at which a client is called. -/
theorem clientCalls_perm :
    (clientCalls config source tree).Perm
      ((tree.places entersForNames []).filter
        (isCalledClient config (Bindings.collect config source tree) source)) := by
  have distinct : ((clients config source tree).map Binding.name).Nodup :=
    (Bindings.collect_distinct tree).sublist (List.filter_sublist.map _)
  have parts := filter_perm_flatMap (fun p : Place => p.node.name source)
    ((tree.places entersForNames []).filter (isOpenCall config source)) distinct
  have calls : clientCalls config source tree =
      ((clients config source tree).map Binding.name).flatMap fun name =>
        ((tree.places entersForNames []).filter (isOpenCall config source)).filter
          fun p => p.node.name source == name := by
    rw [List.flatMap_map]
    exact List.flatMap_congr fun b client => counted_client client
  rw [calls]
  refine parts.trans (List.Perm.of_eq ?_)
  rw [List.filter_filter]
  refine List.filter_congr fun p _ => ?_
  simp only [isCalledClient, isThroughClient, isOpenCall, isKind_client]
  cases p.node.kind == .identifier <;> cases isVerbCall config source p <;> simp

/-- A reference that is replaced is called with some verb. -/
theorem clientCalls_named {p : Place} (called : p ∈ clientCalls config source tree) :
    (memberName? source p).isSome := by
  have isCalled := (List.mem_filter.mp (clientCalls_perm.mem_iff.mp called)).2
  simp only [isCalledClient, Bool.and_eq_true] at isCalled
  obtain ⟨member, _, _, verb, chain, _, _, isProperty, _⟩ := verbCall_cases isCalled.2
  simp [memberName?, Place.parent?, chain, isProperty]

/-- What a report sees are the references that are replaced. -/
theorem called_perm (wf : tree.WellFormed) (noCreate : "create" ∉ config.httpMethods)
    (noDefaults : "defaults" ∉ config.httpMethods)
    (noAccessor : ∀ b ∈ (Bindings.collect config source tree).list, b.kind ≠ .accessor) :
    ((usagePlaces tree).filterMap (seenVerb? config (Bindings.collect config source tree) source)).Perm
      ((clientCalls config source tree).filterMap (memberName? source)) := by
  have root : calledVerb? config (Bindings.collect config source tree) source ⟨tree, []⟩ = none := by
    simp [calledVerb?, isCalledClient, isVerbCall]
  have seen : ((tree.places entersForNames []).filterMap
      (calledVerb? config (Bindings.collect config source tree) source)).Perm _ :=
    verbs_perm noCreate noDefaults noAccessor wf
  rw [root] at seen
  refine seen.symm.trans ((List.Perm.of_eq ?_).trans (clientCalls_perm.filterMap _).symm)
  rw [List.filterMap_filter]
  rfl

theorem length_clientCalls :
    (clientCalls config source tree).length =
      ((clients config source tree).map Binding.replaceable).sum := by
  rw [clientCalls, List.length_flatMap]
  congr 1
  refine List.map_congr_left fun b client => ?_
  exact (Bindings.mem_collect (List.mem_filter.mp client).1).2.symm

end

/-! ## The report -/

theorem see_warning (r : UsageReport) (text : String) : (r.see (.warning text)).verbCalls = r.verbCalls := by
  simp only [UsageReport.see]
  split <;> rfl

theorem foldl_see_verbCalls : ∀ (sightings : List Sighting) (r : UsageReport),
    (sightings.foldl UsageReport.see r).verbCalls =
      (sightings.filterMap Sighting.verb?).foldl (fun t verb => countUp verb t) r.verbCalls
  | [], _ => rfl
  | s :: sightings, r => by
      rw [List.foldl_cons, foldl_see_verbCalls sightings]
      cases s with
      | warning text =>
          rw [see_warning]
          rfl
      | call verb => rfl
      | nothing => rfl

theorem totalCalls_eq (r : UsageReport) : r.totalCalls = (r.verbCalls.map Prod.snd).sum := by
  rw [UsageReport.totalCalls, List.sum_eq_foldl, List.foldl_map]

variable {read : Reader} {path : Path} {tree : Node}

/-- A file that is no test is reported with its sightings counted. -/
theorem analyzeWith_verbCalls (config : Config) (notTest : isTestPath path = false)
    (reads : read (hasMarkup path) source = .ok tree) :
    ∃ report, analyzeWith read config path source = .ok report ∧
      report.verbCalls = tally ((usagePlaces tree).filterMap
        (seenVerb? config (Bindings.collect config source tree) source)) := by
  unfold analyzeWith
  rw [if_neg (by simp [notTest]), treeOf_ok reads]
  refine ⟨_, rfl, ?_⟩
  show (List.foldl UsageReport.see _ _).verbCalls = _
  rw [foldl_see_verbCalls, List.filterMap_map, List.filterMap_filter]
  rfl

/-- A test is reported without a look at it. -/
theorem analyzeWith_test (read : Reader) (config : Config) (isTest : isTestPath path = true) (source : Text) :
    ∃ report, analyzeWith read config path source = .ok report ∧ report.verbCalls = [] := by
  unfold analyzeWith
  rw [if_pos isTest]
  exact ⟨_, rfl, rfl⟩

end ClientMigration.Codemod
