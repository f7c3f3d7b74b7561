/-
# Proofs.Codemod.FittingEdits -- the edits of the six rules, one sort after the other

With the words that the default configuration puts in, and a reader that is
`Grammatical`, the edits of the rules fit the tree that they are made for, but
for three sorts: a factory call in a decorator's name (`InDecorator`), an import
taken out from between statements that run together then (`IsRunOn`), and a
clause left as a bare name in front of a word that nothing parts it from
(`IsGlued`).
-/
import ClientMigration.Proofs.Codemod.Bodies
import ClientMigration.Proofs.Codemod.Fitting
import ClientMigration.Proofs.Codemod.FreshNames
import ClientMigration.Proofs.Codemod.References
import ClientMigration.Proofs.Codemod.Versions

namespace ClientMigration.Codemod

set_option autoImplicit false

open Script

variable {read : Reader} {source : Text} {tree : Node}

/-! ## The words of a setting -/

/-- A setting whose words the grammar knows. -/
structure Setting.Good (read : Reader) (s : Setting) : Prop where
  config : s.config = {}
  factory : IsName read s.factoryName.toList
  quote : isQuote s.bindings.quote

theorem preset_name_letters (preset : Preset) : preset.name.toList.all Char.isAlpha := by
  cases preset <;> decide

theorem Setting.Good.call {s : Setting} (good : s.Good read) (preset : Preset) :
    IsCall read (s.factoryCall preset).toList := by
  refine ⟨s.factoryName.toList, preset.name.toList, s.bindings.quote, good.factory,
    preset_name_letters preset, good.quote, ?_⟩
  simp [Setting.factoryCall, Setting.quoted]

theorem default_factory_isName (law : Grammatical read) :
    IsName read (({} : Config).factoryFunction).toList :=
  law.word (by decide +kernel)

/-- The setting of a run with the default configuration. -/
theorem settingOf_good (law : Grammatical read) {markup : Bool} (preset : Preset)
    (reads : read markup source = .ok tree) : (settingOf {} preset source tree).Good read where
  config := rfl
  factory := by
    unfold Setting.factoryName settingOf
    cases known : (Bindings.collect {} source tree).factory? with
    | none => exact default_factory_isName law
    | some f =>
        obtain ⟨spec, there, inside, kind, names⟩ := Bindings.factory?_specifier known
        exact law.specifier reads inside kind names
  quote := by
    show isQuote (Bindings.collect {} source tree).quote
    rw [Bindings.collect_quote]
    cases found : Bindings.importQuote? source tree with
    | none => rfl
    | some q =>
        obtain ⟨statement, isImport, opened⟩ := List.exists_of_findSome?_eq_some found
        obtain ⟨n, isSource, head⟩ := Option.bind_eq_some_iff.mp opened
        exact law.quote reads isImport isSource head

/-! ## Names of clients -/

theorem digits_alphanum (n : Nat) : (toString n).toList.all Char.isAlphanum := by
  rw [List.all_eq_true]
  intro c digit
  have isDigit := Nat.isDigit_of_mem_toDigits (by omega) (by omega) (Nat.toList_repr ▸ digit)
  simp [Char.isAlphanum, isDigit]

/-- No reserved word begins with the preferred name of a client. -/
theorem reserved_not_client : ∀ w ∈ reservedWords, ¬ "client".toList.isPrefixOf w.toList := by
  decide +kernel

theorem candidate_isName (law : Grammatical read) :
    ∀ i : Nat, IsName read (candidateName ({} : Config).localClientName i).toList
  | 0 => law.word (by decide +kernel)
  | 1 => law.word (by decide +kernel)
  | n + 2 => by
      refine law.word ?_
      have begins : "client".toList.isPrefixOf ("client" ++ toString (n + 2)).toList := by
        rw [String.toList_append]
        exact List.isPrefixOf_iff_prefix.mpr (List.prefix_append _ _)
      have free : "client" ++ toString (n + 2) ∉ reservedWords :=
        fun reserved => reserved_not_client _ reserved begins
      have letters : ("client".toList ++ (toString (n + 2)).toList).all Char.isAlphanum := by
        rw [List.all_append, digits_alphanum]
        decide
      have begins_alpha : ("client".toList ++ (toString (n + 2)).toList).head?.any Char.isAlpha := rfl
      show isPlainWord ("client" ++ toString (n + 2)) = true
      unfold isPlainWord
      rw [String.toList_append, letters, begins_alpha]
      simpa using free

theorem identifier_isName {markup : Bool} (reads : read markup source = .ok tree) {n : Node}
    (inside : Node.Within tree n) (plain : n.kind = .identifier) : IsName read (n.name source).toList := by
  obtain ⟨above, place⟩ := inside
  exact ⟨markup, source, tree, _, reads, place, plain, String.toList_ofList.symm⟩

theorem existingClient?_isName {markup : Bool} (reads : read markup source = .ok tree) {s : Setting}
    {block : Node} {offset : Nat} {name : String} (inside : Node.Within tree block)
    (found : existingClient? s source block offset = some name) : IsName read name.toList := by
  obtain ⟨statement, isStatement, _, _, d, isChild, _, ⟨n, named, plain, rfl⟩, _⟩ :=
    existingClient?_constructs found
  have d_within := (inside.child isStatement).child isChild
  exact identifier_isName reads (d_within.child (Node.child?_mem named)) plain

/-! ## Declarations -/

theorem indent_blank (offset : Nat) :
    (source.indent offset).all fun c => c == ' ' || c == '\t' || c == '\n' := by
  unfold Text.indent
  cases found : source.indent? offset with
  | none => rfl
  | some line =>
      obtain ⟨front, _, rest, _, rfl⟩ := by
        simpa [Text.indent?, Option.bind_eq_some_iff, Option.map_eq_some_iff] using found
      simp only [Option.getD_some, List.all_eq_true]
      intro c blank
      have holds := List.all_eq_true.mp List.all_takeWhile c blank
      simp only [Bool.or_eq_true] at holds ⊢
      exact Or.inl holds

theorem declaration_text {s : Setting} (good : s.Good read) {name : String}
    (word : IsName read name.toList) {blank : Text} (some_blank : blank ≠ [])
    (isBlank : blank.all fun c => c == ' ' || c == '\t' || c == '\n') :
    IsDeclaration read
      (blank ++ ("const " ++ name ++ " = " ++ s.factoryCall s.preset ++ ";").toList) := by
  refine ⟨blank, name.toList, _, some_blank, isBlank, word, good.call s.preset, ?_⟩
  simp [String.toList_append]

/-- A declared client stands where a declaration fits. -/
theorem declarationEdit?_fits {s : Setting} (good : s.Good read) {block : Node} {name : String}
    {e : Edit} (inside : Node.Within tree block) (kind : block.kind = .statementBlock)
    (word : IsName read name.toList) (made : declarationEdit? s source block name = some e) :
    Fits read source tree e := by
  have here : IsDeclaration read (' ' :: ("const " ++ name ++ " = " ++ s.factoryCall s.preset ++ ";").toList) :=
    @declaration_text _ s good name word [' '] (by simp) (by decide)
  have below (offset : Nat) : IsDeclaration read ('\n' :: source.indent offset ++
      ("const " ++ name ++ " = " ++ s.factoryCall s.preset ++ ";").toList) :=
    declaration_text good word (by simp) (by simpa using indent_blank offset)
  unfold declarationEdit? at made
  split at made
  · cases made
  · rename_i brace rest children
    split at made
    · cases made
    · rename_i opens
      have opens : brace.kind = .token "\x7b" := by simpa using opens
      have named : block.namedChildren = rest.filter Node.isNamed := by
        rw [Node.namedChildren, children, List.filter_cons_of_neg]
        simp [Node.isNamed, opens, Kind.isNamed]
      simp only [Option.some.injEq] at made
      rcases prologue_cases none (rest.filter Node.isNamed) (rest.filter Node.isNamed) with
        ⟨noDirective, _⟩ | ⟨front, n, back, split, directive, found, _⟩
      · rw [noDirective] at made
        subst made
        refine .opening inside kind children opens ?_
        simp only [Option.getD_none, Option.isSome_none]
        split
        · split
          · exact below _
          · exact here
        · exact here
      · rw [found] at made
        subst made
        have isChild : n ∈ block.children :=
          namedChild_mem (named ▸ split ▸ by simp)
        refine .behindDirective inside kind isChild directive ?_ ?_
        · simp only [Option.getD_some, Option.isSome_some, if_true]
          split
          · split
            · exact below _
            · exact here
          · exact below _
        · simp only [Option.getD_some, Option.isSome_some, if_true]
          split
          · rename_i next later
            split
            · exact Or.inl rfl
            · rename_i sameLine
              refine Or.inr ⟨front, next, later, by rw [named, split], by simpa using sameLine⟩
          · exact Or.inl rfl

/-! ## Calls -/

theorem isClientCall_heads {s : Setting} {p : Place} (call : isClientCall s source p) :
    p.node.kind = .identifier ∧ HeadsCall p := by
  simp only [isClientCall, Bool.and_eq_true, beq_iff_eq] at call
  obtain ⟨⟨⟨plain, _⟩, form⟩, _⟩ := call
  obtain ⟨member, call, up, _, above, kind, object, _, _, callKind, function⟩ := verbCall_cases form
  exact ⟨plain, member, call, up, above, kind, object, callKind, function⟩

/-- A substitute for a client is a call of the factory or a name. -/
theorem Substitute.isCall_or_isName (law : Grammatical read) {markup : Bool}
    (reads : read markup source = .ok tree) {s : Setting} (good : s.Good read) {seen : List Place}
    {c : Clients} (planned : Planned s source seen c) {p : Place} (inTree : p ∈ tree.allPlaces)
    {text : Text} : Substitute s source p c.declared text → IsCall read text ∨ IsName read text
  | .call => Or.inl (good.call s.preset)
  | .existing around found =>
      Or.inr (existingClient?_isName reads (bodyAround?_within inTree around).1 found)
  | .declared (d := d) _ logged _ _ => by
      obtain ⟨_, _, _, _, declares⟩ := planned.declared d logged
      obtain ⟨k, first, _⟩ := freshName_first (usedNames source d.1) s.config.localClientName
      rw [declares.fresh, first, good.config]
      exact Or.inr (candidate_isName law k)

theorem callSiteEdits_fit (law : Grammatical read) {markup : Bool}
    (reads : read markup source = .ok tree) {s : Setting} (good : s.Good read) {e : Edit}
    (made : e ∈ callSiteEdits s tree source) : Fits read source tree e ∨ InDecorator read tree e := by
  by_cases needed : s.bindings.replaces .client = true
  · have planned := @redirected_planned s source tree needed
    rcases planned.edits e made with ⟨p, visited, d, logged, declares⟩ |
      ⟨p, visited, call, text, stands, rfl⟩
    · obtain ⟨inside, kind⟩ := bodyAround?_within (callPlaces_identifier visited).1 declares.around
      obtain ⟨k, first, _⟩ := freshName_first (usedNames source d.1) s.config.localClientName
      have word : IsName read d.2.toList := by
        rw [declares.fresh, first, good.config]
        exact candidate_isName law k
      exact Or.inl (declarationEdit?_fits good inside kind word declares.edit)
    · have inTree := (callPlaces_identifier visited).1
      obtain ⟨plain, heads⟩ := isClientCall_heads call
      rcases stands.isCall_or_isName law reads good planned inTree with isCall | isName
      · by_cases decorating : isDecorating p = true
        · exact Or.inr ⟨p, inTree, plain, heads, decorating, text, isCall, rfl⟩
        · exact Or.inl (.inlined inTree plain heads decorating isCall)
      · exact Or.inl (.name inTree plain heads isName)
  · rw [callSiteEdits, redirected, if_neg needed] at made
    cases made

theorem accessorEdits_fit {s : Setting} (good : s.Good read) {e : Edit}
    (made : e ∈ accessorEdits s tree source) : Fits read source tree e := by
  unfold accessorEdits at made
  split at made
  · obtain ⟨p, visited, edit⟩ := List.mem_filterMap.mp made
    split at edit
    · rename_i acts
      obtain ⟨call, parent, rfl⟩ := Option.map_eq_some_iff.mp edit
      simp only [isAccessorCall, Bool.and_eq_true] at acts
      obtain ⟨call', rest, _, above, kind, _⟩ := bareCall_cases acts.1.2
      have one : call' = call := by simpa [Place.parent?, above] using parent
      subst one
      obtain ⟨call_in, _⟩ := Node.parent_mem_allPlaces (callPlaces_identifier visited).1 above
      exact .recalled ⟨rest, call_in⟩ kind (good.call .auth)
    · cases edit
  · cases made

/-! ## Literals -/

/-- Versions are characters of a path. -/
theorem IsVersion.path {v : Text} (version : IsVersion v) :
    v.all fun c => c.isAlphanum || c == '/' := by
  obtain ⟨digits, _, areDigits, rfl⟩ := version
  rw [List.all_append, Bool.and_eq_true]
  refine ⟨by decide, List.all_eq_true.mpr fun c among => ?_⟩
  simp [Char.isAlphanum, List.all_eq_true.mp areDigits c among]

/-- What goes from a path are characters of a path. -/
theorem Shortened.front {versions : List Text} {tail path short : Text}
    (shortened : Shortened versions tail path short) :
    (versions.flatten.all fun c => c.isAlphanum || c == '/') ∧ (short = tail ∨ short = '/' :: tail) := by
  constructor
  · simp only [List.all_flatten, List.all_eq_true]
    exact fun v listed => List.all_eq_true.mp (shortened.each v listed).path
  · rw [shortened.remains]
    by_cases slash : tail.head? = some '/'
    · exact Or.inl (slashed_of_slash slash)
    · exact Or.inr (slashed_of_other slash)

theorem quoted_whole {raw : Text} {q : Char} (head : raw.head? = some q)
    (last : raw.getLast? = some q) (long : (raw.drop 1).dropLast ≠ []) :
    raw = q :: (raw.drop 1).dropLast ++ [q] := by
  cases raw with
  | nil => cases head
  | cons c t =>
      cases head
      have inner : t ≠ [] := fun none => long (by simp [none])
      have last_t : t.getLast inner = q := by
        rw [List.getLast?_cons_of_ne_nil inner, List.getLast?_eq_some_getLast inner] at last
        exact Option.some.inj last
      rw [List.drop_one, List.tail_cons, List.cons_append]
      conv => lhs; rw [← List.dropLast_concat_getLast inner, last_t]

/-- A literal is changed exactly if the path between its quotes loses versions. -/
theorem literalEdit?_iff {n : Node} {e : Edit} : literalEdit? source n = some e ↔
    ∃ quote path short, n.text source = quote :: path ++ [quote] ∧ stripVersions? path = some short ∧
      e = ⟨n.start, n.stop, quote :: short ++ [quote]⟩ := by
  unfold literalEdit?
  simp only
  constructor
  · intro made
    split at made
    · cases made
    · rename_i quote head
      split at made
      · cases made
      · rename_i closed
        obtain ⟨short, stripped, rfl⟩ := Option.map_eq_some_iff.mp made
        simp only [Bool.or_eq_true, bne_iff_ne, not_or, Classical.not_not] at closed
        have long : ((n.text source).drop 1).dropLast ≠ [] := by
          intro none
          rw [none] at stripped
          cases stripped
        exact ⟨quote, _, short, quoted_whole head closed.2 long, stripped, rfl⟩
  · rintro ⟨quote, path, short, whole, stripped, rfl⟩
    have first := Text.utf8Size_pos quote
    have long : ¬ Text.bytes (quote :: path ++ [quote]) < 2 := by
      simp only [Text.bytes_append, Text.bytes]
      omega
    have last : (quote :: path ++ [quote]).getLast? = some quote := List.getLast?_concat ..
    have inner : ((quote :: path ++ [quote]).drop 1).dropLast = path := by simp
    rw [whole, last, inner, stripped, decide_eq_false long]
    simp

theorem literalEdit?_fits {n : Node} {e : Edit} (inside : Node.Within tree n) (literal : isLiteral n)
    (made : literalEdit? source n = some e) : Fits read source tree e := by
  obtain ⟨quote, path, short, whole, stripped, rfl⟩ := literalEdit?_iff.mp made
  obtain ⟨versions, tail, shortened⟩ := stripVersions?_some stripped
  obtain ⟨isPath, kept⟩ := shortened.front
  rw [shortened.whole] at whole
  exact .literal inside literal whole isPath kept

theorem pathEdits_fit {config : Config} {e : Edit} (made : e ∈ pathEdits config tree source) :
    Fits read source tree e := by
  unfold pathEdits at made
  split at made
  · obtain ⟨p, visited, edit⟩ := List.mem_filterMap.mp made
    have inTree := (Node.mem_places_iff_enters.mp visited).1
    split at edit
    · rename_i literal
      exact literalEdit?_fits ⟨p.above, inTree⟩ (Bool.and_eq_true _ _ ▸ literal).1 edit
    · cases edit
  · cases made

/-! ## Imports -/

/-- A clause left as a bare name in front of a word that nothing parts it from. -/
def IsGlued (source : Text) (tree : Node) (e : Edit) : Prop :=
  ∃ statement ∈ importStatements tree, ∃ clause, importClause? statement = some clause ∧
    wordAt source clause.stop ∧ ∃ name : String, (defaultImport? clause).map (·.name source) = some name ∧
      e = ⟨clause.start, clause.stop, name.toList⟩

theorem deletion_fits {statement : Node} (isImport : statement ∈ importStatements tree) :
    Fits read source tree (deletion source statement) ∨ IsRunOn source tree (deletion source statement) := by
  by_cases runsOn : RunsOn source tree statement
  · exact Or.inr ⟨statement, isImport, runsOn, rfl⟩
  · exact Or.inl (.removal isImport runsOn)

theorem clauseEdit_fits {statement clause : Node} {default? : Option String} {named : List String}
    (isImport : statement ∈ importStatements tree) (found : importClause? statement = some clause)
    (default_ : ∀ d ∈ default?, (defaultImport? clause).map (·.name source) = some d)
    (names : ∀ n ∈ named, IsSpecifier source tree n ∨ IsName read n.toList) :
    Fits read source tree (clauseEdit source statement clause (clauseText? default? named)) ∨
      IsRunOn source tree (clauseEdit source statement clause (clauseText? default? named)) ∨
      IsGlued source tree (clauseEdit source statement clause (clauseText? default? named)) := by
  cases written : clauseText? default? named with
  | none => exact (deletion_fits isImport).imp_right Or.inl
  | some text =>
      by_cases parted : named ≠ [] ∨ ¬ wordAt source clause.stop
      · exact Or.inl (.clause isImport found default_ names written parted)
      · simp only [ne_eq, not_or, Classical.not_not] at parted
        obtain ⟨rfl, glued⟩ := parted
        cases default? with
        | none => cases written
        | some d =>
            have same : d = text := Option.some.inj written
            subst same
            exact Or.inr (Or.inr ⟨statement, isImport, clause, found, glued, d, default_ d rfl, rfl⟩)

theorem factoryImport_fits (law : Grammatical read) {s : Setting} (good : s.Good read)
    {statement : Node} (isImport : statement ∈ importStatements tree) :
    Fits read source tree (factoryImport s statement) := by
  refine .ahead isImport ⟨s.config.factoryFunction.toList, s.config.unifiedModule.toList,
    s.bindings.quote, ?_, good.quote, ?_, ?_⟩
  · rw [good.config]
    exact default_factory_isName law
  · rw [good.config]
    decide
  · simp [Setting.quoted, String.toList_append]

/-- An edit of a list of statements was made for one of them. -/
theorem mem_statementEdits {f : Bool → Node → Option StatementEdits} {e : Edit} :
    ∀ {pending : Bool} {ns : List Node}, e ∈ statementEdits f pending ns →
      ∃ n ∈ ns, ∃ pending r, f pending n = some r ∧ e ∈ r.edits
  | pending, n :: ns, made => by
      unfold statementEdits at made
      split at made
      · obtain ⟨m, later, rest⟩ := mem_statementEdits made
        exact ⟨m, List.mem_cons_of_mem _ later, rest⟩
      · rename_i r edits
        rcases List.mem_append.mp made with here | there
        · exact ⟨n, by simp, pending, r, edits, here⟩
        · obtain ⟨m, later, rest⟩ := mem_statementEdits there
          exact ⟨m, List.mem_cons_of_mem _ later, rest⟩

theorem legacyImport?_clause {s : Setting} {statement clause : Node} {module : String}
    (found : legacyImport? s source statement = some (module, clause)) :
    importClause? statement = some clause := by
  unfold legacyImport? at found
  split at found
  · cases found
  · obtain ⟨_, _, found⟩ := Option.bind_eq_some_iff.mp found
    split at found
    · obtain ⟨_, same, pair⟩ := Option.map_eq_some_iff.mp found
      cases pair
      exact same
    · cases found

theorem specifier_text {statement clause named : Node}
    (isImport : statement ∈ importStatements tree) (found : importClause? statement = some clause)
    (braces : namedImports? clause = some named) {text : String}
    (among : text ∈ (specifiers named).map (·.name source)) : IsSpecifier source tree text := by
  obtain ⟨spec, listed, rfl⟩ := List.mem_map.mp among
  obtain ⟨inside, kind⟩ := specifier_within isImport found braces listed
  exact ⟨spec, inside, kind, rfl⟩

/-- What the rules for imports do to one statement: they bring the factory in, and edit the clause. -/
theorem statement_fits (law : Grammatical read) {s : Setting} (good : s.Good read)
    {statement clause : Node} {place : FactoryPlace} {default? : Option String}
    {named : List String} {e : Edit} (isImport : statement ∈ importStatements tree)
    (found : importClause? statement = some clause)
    (default_ : ∀ d ∈ default?, (defaultImport? clause).map (·.name source) = some d)
    (names : ∀ n ∈ named, IsSpecifier source tree n ∨ IsName read n.toList)
    (made : e ∈ (if place == .before then [factoryImport s statement] else []) ++
      [clauseEdit source statement clause (clauseText? default? named)]) :
    Fits read source tree e ∨ IsRunOn source tree e ∨ IsGlued source tree e := by
  rcases List.mem_append.mp made with front | edit
  · split at front
    · cases List.mem_singleton.mp front
      exact Or.inl (factoryImport_fits law good isImport)
    · cases front
  · cases List.mem_singleton.mp edit
    exact clauseEdit_fits isImport found default_ names

theorem defaultImportEdits_fit (law : Grammatical read) {s : Setting} (good : s.Good read) {e : Edit}
    (made : e ∈ defaultImportEdits s tree source) :
    Fits read source tree e ∨ IsRunOn source tree e ∨ IsGlued source tree e := by
  obtain ⟨statement, isImport, pending, r, edits, inside⟩ := mem_statementEdits made
  unfold defaultStatement at edits
  split at edits
  · cases edits
  · rename_i module clause legacy
    have found := legacyImport?_clause legacy
    split at edits
    · cases edits
    · split at edits
      · cases edits
      · rename_i default_ isDefault
        simp only at edits
        split at edits
        · cases edits
        · cases edits
          refine statement_fits law good isImport found ?_ ?_ inside
          · intro d kept
            split at kept
            · cases kept
            · cases kept
              rw [isDefault]
              rfl
          · intro n among
            have old (listed : n ∈ ((namedImports? clause).map fun n =>
                (specifiers n).map (·.name source)).getD []) : IsSpecifier source tree n := by
              cases braces : namedImports? clause with
              | none => simp [braces] at listed
              | some named =>
                  rw [braces] at listed
                  exact specifier_text isImport found braces listed
            split at among
            · rcases List.mem_cons.mp among with rfl | listed
              · exact Or.inr good.factory
              · exact Or.inl (old listed)
            · exact Or.inl (old among)

theorem namedImportEdits_fit (law : Grammatical read) {s : Setting} (good : s.Good read) {e : Edit}
    (made : e ∈ namedImportEdits s tree source) :
    Fits read source tree e ∨ IsRunOn source tree e ∨ IsGlued source tree e := by
  obtain ⟨statement, isImport, pending, r, edits, inside⟩ := mem_statementEdits made
  unfold namedStatement at edits
  split at edits
  · cases edits
  · rename_i module clause legacy
    have found := legacyImport?_clause legacy
    split at edits
    · cases edits
    · rename_i named braces
      simp only at edits
      split at edits
      · cases edits
      · cases edits
        refine statement_fits law good isImport found (fun d kept => kept) ?_ inside
        intro n among
        have old (listed : n ∈ ((specifiers named).filter (!dropsSpecifier s source ·)).map
            (·.name source)) : IsSpecifier source tree n := by
          obtain ⟨spec, kept, rfl⟩ := List.mem_map.mp listed
          exact specifier_text isImport found braces
            (List.mem_map_of_mem (List.mem_filter.mp kept).1)
        split at among
        · rcases List.mem_append.mp among with front | back
          · exact Or.inl (old (List.mem_of_mem_take front))
          · rcases List.mem_cons.mp back with rfl | later
            · exact Or.inr good.factory
            · exact Or.inl (old (List.mem_of_mem_drop later))
        · exact Or.inl (old among)

/-- Names that move are texts of specifiers. -/
theorem moved_specifiers {specs : List Node} {present : List String}
    (inside : ∀ spec ∈ specs, Node.Within tree spec ∧ spec.kind = .importSpecifier) :
    ∀ n ∈ (specs.foldl (Merge.add source) ⟨present, []⟩).moved, IsSpecifier source tree n := by
  intro n among
  rw [foldl_merge, List.nil_append] at among
  obtain ⟨spec, came, rfl⟩ := List.mem_map.mp among
  obtain ⟨within, kind⟩ := inside spec ((added_sublist specs present).subset came)
  exact ⟨spec, within, kind, rfl⟩

theorem bytes_trimLeft (t : Text) :
    t.bytes - t.trimLeft.bytes = Text.bytes (t.takeWhile Text.isBlank) := by
  have split_bytes := Text.bytes_append (t.takeWhile Text.isBlank) (t.dropWhile Text.isBlank)
  rw [List.takeWhile_append_dropWhile] at split_bytes
  rw [Text.trimLeft, split_bytes]
  omega

/-- Names go into empty braces, behind the last of those that are there, or behind its comma. -/
theorem appendEdit_cases (source : Text) (braces : Node) (names : List String) :
    (specifiers braces = [] ∧ appendEdit source braces names =
      ⟨braces.start, braces.stop, ("\x7b " ++ ", ".intercalate names ++ " \x7d").toList⟩) ∨
    ∃ last, (specifiers braces).getLast? = some last ∧
      (appendEdit source braces names = .insert last.stop (", " ++ ", ".intercalate names).toList ∨
        ∃ blank rest : Text, source.dropBytes? last.stop = some (blank ++ ',' :: rest) ∧
          blank.all Text.isBlank = true ∧ appendEdit source braces names =
            .insert (last.stop + blank.bytes + 1) (" " ++ ", ".intercalate names).toList) := by
  unfold appendEdit
  simp only
  split
  · rename_i none
    exact Or.inl ⟨List.getLast?_eq_none_iff.mp none, rfl⟩
  · rename_i last isLast
    refine Or.inr ⟨last, isLast, ?_⟩
    split
    · rename_i comma
      cases behind : source.dropBytes? last.stop with
      | none => simp [behind, Text.trimLeft, Text.startsWith] at comma
      | some after =>
          rw [behind, Option.getD_some] at comma
          rw [Option.getD_some]
          obtain ⟨rest, split⟩ := List.isPrefixOf_iff_prefix.mp comma
          have whole : after = after.takeWhile Text.isBlank ++ ',' :: rest := by
            conv => lhs; rw [← List.takeWhile_append_dropWhile (p := Text.isBlank) (l := after)]
            rw [show after.dropWhile Text.isBlank = after.trimLeft from rfl, ← split]
            rfl
          rw [bytes_trimLeft]
          exact Or.inr ⟨_, rest, congrArg some whole, List.all_takeWhile, rfl⟩
    · exact Or.inl rfl

theorem appendEdit_appends {statement clause braces : Node} {names : List String}
    (isImport : statement ∈ importStatements tree) (found : importClause? statement = some clause)
    (named : namedImports? clause = some braces) (some_names : names ≠ [])
    (specs : ∀ n ∈ names, IsSpecifier source tree n) :
    Appends source tree (appendEdit source braces names) := by
  rcases appendEdit_cases source braces names with
    ⟨empty, same⟩ | ⟨last, isLast, same | ⟨blank, rest, comma, isBlank, same⟩⟩
  · rw [same]
    exact .filled isImport found named empty some_names specs
  · rw [same]
    exact .behindLast isImport found named isLast some_names specs
  · rw [same]
    exact .behindComma isImport found named isLast comma isBlank some_names specs

theorem errorImportEdits_fit (s : Setting) (tree : Node) (source : Text) :
    ∃ (changes : List Edit) (append? : Option Edit),
      errorImportEdits s tree source = changes ++ append?.toList ∧
      (∀ e ∈ changes, Fits read source tree e ∨ IsRunOn source tree e) ∧
      (∀ e ∈ append?, Appends source tree e) := by
  unfold errorImportEdits
  split
  · exact ⟨[], none, rfl, by simp, by simp⟩
  · rename_i braces unified
    obtain ⟨_, statement, _, split, ⟨clause, names⟩, _⟩ := unifiedBraces?_iff.mp unified
    have isImport : statement ∈ importStatements tree := by simp [split]
    simp only
    have movable {statement : Node} {specs : List Node}
        (moving : (statement, specs) ∈ (importStatements tree).filterMap fun statement =>
          (errorImport? s source statement).map fun specs => (statement, specs)) :
        statement ∈ importStatements tree ∧ errorImport? s source statement = some specs := by
      obtain ⟨_, isImport, found⟩ := List.mem_filterMap.mp moving
      obtain ⟨_, found, pair⟩ := Option.map_eq_some_iff.mp found
      cases pair
      exact ⟨isImport, found⟩
    have deletions_fit : ∀ e ∈ ((importStatements tree).filterMap fun statement =>
        (errorImport? s source statement).map fun specs => (statement, specs)).map
          (fun moved => deletion source moved.1),
        Fits read source tree e ∨ IsRunOn source tree e := by
      intro e made
      obtain ⟨⟨statement, specs⟩, moving, rfl⟩ := List.mem_map.mp made
      exact deletion_fits (movable moving).1
    split
    · exact ⟨_, none, by simp, deletions_fit, by simp⟩
    · rename_i some_moved
      refine ⟨_, some _, rfl, deletions_fit, ?_⟩
      rintro e ⟨⟩
      refine appendEdit_appends isImport names.isClause names.named (by simpa using some_moved) ?_
      refine moved_specifiers ?_
      intro spec listed
      obtain ⟨⟨statement, specs⟩, moving, inside⟩ := List.mem_flatMap.mp listed
      obtain ⟨isImport, found⟩ := movable moving
      obtain ⟨_, ⟨_, _, _, names, _⟩, rfl⟩ := errorImport?_iff.mp found
      exact specifier_within isImport names.isClause names.named inside

end ClientMigration.Codemod
