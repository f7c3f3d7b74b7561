/-
# Proofs.Script.ReadNames -- names stand apart in every tree that is read

The grammar makes words with nothing below them, and a form over parts is never of
a kind that is a word for a value. So every reader of the grammar is tidy if the
forms inside it are (`Rules.Tidy`), and by induction on the depth of nesting they
are (`rules_tidy`). The comments that are put into the tree last change nothing
about it: `parse_namesApart`.

Each form has its own instance, which goes through the form's definition and cites
the instances of its parts. Only where a form chooses by what it sees ahead is the
choice split by hand.
-/
import ClientMigration.Script.Fault
import ClientMigration.Proofs.Script.Reading

namespace ClientMigration.Script

set_option autoImplicit false
set_option synthInstance.maxSize 1000

namespace Grammar

open Grammar.Parser

/-! ## Literals -/

instance number_tidy : number.Tidy := by
  unfold number
  infer_instance

instance string_tidy : string.Tidy := by
  unfold string
  refine .after fun c _ => ?_
  split
  · split
    · split <;> infer_instance
    · infer_instance
  · infer_instance

instance markupString_tidy : markupString.Tidy := by
  unfold markupString
  refine .after fun c _ => ?_
  split
  · split
    · dsimp only
      split <;> infer_instance
    · infer_instance
  · infer_instance

instance regex_tidy : regex.Tidy := by
  unfold regex
  refine .after fun c _ => ?_
  split
  · split <;> infer_instance
  · infer_instance

instance plain_tidy {split : Text → Text × Text} : Parser.Tidy (plain split) where
  found clean ran := by
    cases ran
    exact ⟨fun _ inside => absurd inside List.not_mem_nil, clean⟩

instance template_tidy {k hole : Kind} [k.IsOther] [hole.IsOther] {n : Nat} {inner : Parser Node}
    [inner.Tidy] : (template k hole n inner).Tidy := by
  unfold template
  infer_instance

namespace Rules

/-- Names stand apart in the forms that occur inside others. -/
class Tidy (g : Rules) : Prop where
  read : ∀ f, (g.read f).Tidy

instance enclosed_tidy {openMark closeMark : String} {inner : Parts} [inner.Tidy] :
    Parser.Tidy (enclosed openMark closeMark inner) := by
  unfold enclosed
  infer_instance

instance commaList_tidy {g : Rules} {item : Parser Node} [item.Tidy] :
    Parser.Tidy (g.commaList item) := by
  unfold commaList
  infer_instance

instance sparseList_tidy {g : Rules} {item : Parser Node} [item.Tidy] :
    Parser.Tidy (g.sparseList item) := by
  unfold sparseList
  infer_instance

variable {g : Rules} [g.Tidy]

instance read_tidy (f : Form) : (g.read f).Tidy := Tidy.read f

instance expression_tidy : g.expression.Tidy := read_tidy _

instance sequence_tidy : g.sequence.Tidy := by
  unfold sequence
  infer_instance

instance block_tidy : g.block.Tidy := by
  unfold block
  infer_instance

instance computedName_tidy : g.computedName.Tidy := by
  unfold computedName
  infer_instance

instance privateName_tidy : privateName.Tidy := by
  unfold privateName
  refine .after fun c _ => ?_
  split <;> infer_instance

instance propertyName_tidy : g.propertyName.Tidy := by
  unfold propertyName
  infer_instance

/-! ## Patterns -/

instance identifier_tidy : identifier.Tidy := Parser.Tidy.nameBut

instance memberTarget_climb_tidy (k : Nat) (n : Node) [Apart n] :
    (memberTarget.climb g k n).Tidy := by
  induction k generalizing n with
  | zero => exact Parser.Tidy.pure
  | succ k further =>
      unfold memberTarget.climb
      infer_instance

instance memberTarget_tidy : g.memberTarget.Tidy := by
  unfold memberTarget
  infer_instance

instance binding_tidy : g.binding.Tidy := by
  unfold binding
  refine .after fun ahead _ => ?_
  split <;> infer_instance

instance target_tidy : g.target.Tidy := by
  unfold target
  refine .after fun ahead _ => ?_
  split <;> infer_instance

instance fallback_tidy : Parser.Tidy g.fallback := by
  unfold fallback
  infer_instance

instance targetWithFallback_tidy : g.targetWithFallback.Tidy := by
  unfold targetWithFallback
  infer_instance

instance restPattern_tidy : g.restPattern.Tidy := by
  unfold restPattern
  infer_instance

instance objectPatternPart_tidy : g.objectPatternPart.Tidy := by
  unfold objectPatternPart
  infer_instance

instance objectPattern_tidy : g.objectPattern.Tidy := by
  unfold objectPattern
  infer_instance

instance arrayPattern_tidy : g.arrayPattern.Tidy := by
  unfold arrayPattern
  infer_instance

instance pattern_tidy : g.pattern.Tidy := by
  unfold pattern
  infer_instance

/-! ## Types -/

instance type_tidy : g.type.Tidy := read_tidy _

instance typeParameter_tidy : g.typeParameter.Tidy := by
  unfold typeParameter
  infer_instance

instance typeParameters_tidy : g.typeParameters.Tidy := by
  unfold typeParameters
  infer_instance

instance typeArguments_tidy : g.typeArguments.Tidy := by
  unfold typeArguments
  infer_instance

instance parameterModifier_tidy : parameterModifier.Tidy := by
  unfold parameterModifier
  infer_instance

instance decorator_members_tidy (k : Nat) (n : Node) [Apart n] :
    (decorator.members k n).Tidy := by
  induction k generalizing n with
  | zero => exact Parser.Tidy.pure
  | succ k further =>
      unfold decorator.members
      infer_instance

instance decorator_tidy : g.decorator.Tidy := by
  unfold decorator
  infer_instance

instance typed_tidy : g.typed.Tidy := by
  unfold typed
  infer_instance

instance parameterTarget_tidy : g.parameterTarget.Tidy := by
  unfold parameterTarget
  infer_instance

instance parameter_tidy : g.parameter.Tidy := by
  unfold parameter
  infer_instance

instance parameters_tidy : g.parameters.Tidy := by
  unfold parameters
  infer_instance

instance thisType_tidy : thisType.Tidy := Parser.Tidy.keyword

instance typePredicate_tidy : g.typePredicate.Tidy := by
  unfold typePredicate
  infer_instance

instance resultType_tidy : g.resultType.Tidy := by
  unfold resultType
  infer_instance

instance declaredResult_tidy : g.declaredResult.Tidy := by
  unfold declaredResult
  infer_instance

instance signature_tidy : Parser.Tidy g.signature := by
  unfold signature
  infer_instance

instance memberNameEnds_tidy : memberNameEnds.Tidy := Parser.Tidy.sees

instance memberModifier_tidy {ws : List String} : (memberModifier ws).Tidy := by
  unfold memberModifier
  infer_instance

instance indexSignature_tidy : g.indexSignature.Tidy := by
  unfold indexSignature
  infer_instance

instance objectTypeMember_tidy : g.objectTypeMember.Tidy := by
  unfold objectTypeMember
  infer_instance

instance memberEnd_tidy : Parser.Tidy memberEnd := by
  unfold memberEnd
  infer_instance

instance objectType_tidy : g.objectType.Tidy := by
  unfold objectType
  infer_instance

instance typeName_climb_tidy (k : Nat) (n : Node) [Apart n] : (typeName.climb k n).Tidy := by
  induction k generalizing n with
  | zero =>
      unfold typeName.climb
      infer_instance
  | succ k further =>
      unfold typeName.climb
      infer_instance

instance typeName_tidy : g.typeName.Tidy := by
  unfold typeName
  infer_instance

instance namedType_tidy : g.namedType.Tidy := by
  unfold namedType
  infer_instance

instance queriedMembers_climb_tidy (k : Nat) (n : Node) [Apart n] :
    (queriedMembers.climb k n).Tidy := by
  induction k generalizing n with
  | zero => exact Parser.Tidy.pure
  | succ k further =>
      unfold queriedMembers.climb
      infer_instance

instance queriedMembers_tidy (n : Node) [Apart n] : (g.queriedMembers n).Tidy := by
  unfold queriedMembers
  infer_instance

instance importedModule_tidy : g.importedModule.Tidy := by
  unfold importedModule
  infer_instance

instance typeQuery_tidy : g.typeQuery.Tidy := by
  unfold typeQuery
  infer_instance

instance importedType_tidy : g.importedType.Tidy := by
  unfold importedType
  infer_instance

instance literalType_tidy : literalType.Tidy := by
  unfold literalType
  infer_instance

instance tupleMember_tidy : g.tupleMember.Tidy := by
  unfold tupleMember
  infer_instance

instance plainType_tidy : g.plainType.Tidy := by
  unfold plainType
  refine .after fun first _ => ?_
  split
  all_goals try infer_instance
  -- What begins with a word is chosen once more, by the word.
  refine .after fun word _ => ?_
  split <;> infer_instance

instance typeBreaks_tidy : typeBreaks.Tidy := by
  unfold typeBreaks
  infer_instance

instance typeSuffixes_tidy (k : Nat) (n : Node) [Apart n] : (g.typeSuffixes k n).Tidy := by
  induction k generalizing n with
  | zero => exact Parser.Tidy.pure
  | succ k further =>
      unfold typeSuffixes
      infer_instance

instance typeOperand_tidy : g.typeOperand.Tidy := by
  unfold typeOperand
  refine .after fun first _ => ?_
  split <;> infer_instance

instance joined_tidy {k : Kind} [k.IsOther] {m : String} {item : Parser Node} [item.Tidy] :
    (g.joined k m item).Tidy := by
  unfold joined
  infer_instance

instance functionType_tidy : g.functionType.Tidy := by
  unfold functionType
  infer_instance

instance unionType_tidy : g.unionType.Tidy := by
  unfold unionType
  infer_instance

instance conditionalType_tidy : g.conditionalType.Tidy := by
  unfold conditionalType
  infer_instance

/-! ## What can be called -/

instance arguments_tidy : g.arguments.Tidy := by
  unfold arguments
  infer_instance

instance classModifier_tidy : classModifier.Tidy := by
  unfold classModifier
  infer_instance

instance memberName_tidy : Parser.Tidy g.memberName := by
  unfold memberName
  infer_instance

instance methodDefinition_tidy : g.methodDefinition.Tidy := by
  unfold methodDefinition
  infer_instance

instance arrowBody_tidy {typedArrows : Bool} : (g.arrowBody typedArrows).Tidy := by
  unfold arrowBody
  refine .after fun ahead _ => ?_
  split <;> infer_instance

instance arrowHead_tidy {typedArrows : Bool} : Parser.Tidy (g.arrowHead typedArrows) := by
  unfold arrowHead
  infer_instance

instance arrowFunction_tidy {typedArrows : Bool} : (g.arrowFunction typedArrows).Tidy := by
  unfold arrowFunction
  infer_instance

instance functionExpression_tidy : g.functionExpression.Tidy := by
  unfold functionExpression
  infer_instance

instance functionDeclaration_tidy : g.functionDeclaration.Tidy := by
  unfold functionDeclaration
  refine .after fun front _ => .after fun star _ => .after fun name _ => .after fun rest _ =>
    .after fun ahead _ => ?_
  split <;> infer_instance

instance heritage_tidy {base : Parser Node} [base.Tidy] : Parser.Tidy (g.heritage base) := by
  unfold heritage
  infer_instance

instance staticBlock_tidy : g.staticBlock.Tidy := by
  unfold staticBlock
  refine .after fun front _ => .after fun ahead _ => ?_
  split <;> infer_instance

instance fieldEnd_tidy {afterValue : Bool} : Parser.Tidy (fieldEnd afterValue) := by
  unfold fieldEnd
  infer_instance

instance classMember_method_tidy {head : List Node} [Apart head] :
    (classMember.method g head).Tidy := by
  unfold classMember.method
  refine .after fun rest _ => .after fun ahead _ => ?_
  split <;> infer_instance

instance classMember_tidy : g.classMember.Tidy := by
  unfold classMember
  refine .after fun front _ => .firstOf inferInstance (.firstOf inferInstance (.firstOf ?_ .absent))
  refine .after fun name _ => .after fun mark? _ => .after fun ahead _ => ?_
  split <;> infer_instance

instance classBody_tidy : g.classBody.Tidy := by
  unfold classBody
  infer_instance

instance classOf_tidy {k : Kind} [k.IsOther] {front : List Node} [Apart front] {name : Parts}
    [name.Tidy] {base : Parser Node} [base.Tidy] : (g.classOf k front name base).Tidy := by
  unfold classOf
  infer_instance

instance className_tidy : className.Tidy := by
  unfold className
  infer_instance

/-! ## Values -/

instance parenthesized_tidy : g.parenthesized.Tidy := by
  unfold parenthesized
  infer_instance

instance array_tidy : g.array.Tidy := by
  unfold array
  infer_instance

instance objectModifier_tidy : objectModifier.Tidy := memberModifier_tidy

instance objectPart_method_tidy {front : List Node} {name : Node} [Apart front] [Apart name] :
    (objectPart.method g front name).Tidy := by
  unfold objectPart.method
  infer_instance

instance objectPart_tidy : g.objectPart.Tidy := by
  unfold objectPart
  refine .firstOf inferInstance (.firstOf ?_ .absent)
  refine .after fun front _ => .after fun name _ => .after fun ahead _ => ?_
  split <;> infer_instance

instance object_tidy : g.object.Tidy := by
  unfold object
  infer_instance

instance templateString_tidy : g.templateString.Tidy := template_tidy

instance makerMembers_tidy (k : Nat) (n : Node) [Apart n] : (g.makerMembers k n).Tidy := by
  induction k generalizing n with
  | zero => exact Parser.Tidy.pure
  | succ k further =>
      unfold makerMembers
      infer_instance

instance newExpression_tidy {primary : Parser Node} [primary.Tidy] :
    (g.newExpression primary).Tidy := by
  unfold newExpression
  infer_instance

instance wordValue_tidy : g.wordValue.Tidy := by
  unfold wordValue
  refine .after fun word _ => ?_
  split <;> infer_instance

instance primary_tidy : g.primary.Tidy := by
  unfold primary
  refine .after fun ahead _ => ?_
  split <;> infer_instance

instance construction_tidy : g.construction.Tidy := newExpression_tidy

instance endsInstance_tidy : endsInstance.Tidy := by
  unfold endsInstance
  refine .after fun ahead _ => ?_
  split <;> infer_instance

instance follower_tidy (n : Node) [Apart n] : (g.follower n).Tidy := by
  unfold follower
  refine .after fun c _ => ?_
  split
  · infer_instance
  · refine .after fun ahead _ => ?_
    split
    all_goals try infer_instance
    -- Type arguments are followed by a call, by a template or by nothing.
    refine .after fun types _ => .after fun next _ => ?_
    split <;> infer_instance

instance followers_tidy (k : Nat) (n : Node) [Apart n] : (g.followers k n).Tidy := by
  induction k generalizing n with
  | zero => exact Parser.Tidy.pure
  | succ k further =>
      unfold followers
      infer_instance

instance reference_tidy : g.reference.Tidy := by
  unfold reference
  infer_instance

instance unaryMark_tidy : unaryMark.Tidy := by
  unfold unaryMark
  infer_instance

instance updated_tidy : g.updated.Tidy := by
  unfold updated
  infer_instance

instance operandForm_unaryWord_tidy {w : String} : (operandForm.unaryWord g w).Tidy := by
  unfold operandForm.unaryWord
  infer_instance

instance operandForm_tidy : g.operandForm.Tidy := by
  unfold operandForm
  refine .after fun word _ => ?_
  split <;> infer_instance

/-! ## Rows of operands -/

instance : HasNodes Joint where
  NamesApart
    | .operator _ token right => token.NamesApart ∧ right.NamesApart
    | .typing kind token type => ¬ kind.namesValue ∧ token.NamesApart ∧ type.NamesApart

instance operator_apart {level : Nat} {token right : Node} [first : Apart token]
    [second : Apart right] : Apart (Joint.operator level token right) :=
  ⟨first.apart, second.apart⟩

instance typing_apart {k : Kind} [other : k.IsOther] {token type : Node} [first : Apart token]
    [second : Apart type] : Apart (Joint.typing k token type) :=
  ⟨other.other, first.apart, second.apart⟩

instance joint_operator_tidy {level : Nat} {token : Parser Node} [token.Tidy] :
    (joint.operator g level token).Tidy := by
  unfold joint.operator
  infer_instance

instance joint_tidy : g.joint.Tidy := by
  unfold joint
  refine .after fun c _ => ?_
  split
  · infer_instance
  · refine .after fun word _ => ?_
    split <;> infer_instance

instance join_apart {left token right : Node} [Apart left] [Apart token] [Apart right] :
    Apart (join left token right) := by
  unfold join
  infer_instance

/-- Names stand apart in the operands that wait, and in their operators. -/
def WaitApart (waiting : List (Node × Nat × Node)) : Prop :=
  ∀ w ∈ waiting, Apart w.1 ∧ Apart w.2.2

theorem settle_apart (level : Nat) (right : Node) [last : Apart right]
    {waiting : List (Node × Nat × Node)} (wait : WaitApart waiting) :
    WaitApart (settle level waiting right).1 ∧ Apart (settle level waiting right).2 := by
  induction waiting generalizing right with
  | nil => exact ⟨wait, last⟩
  | cons w rest more =>
      obtain ⟨left, l, token⟩ := w
      obtain ⟨⟨_, _⟩, others⟩ := List.forall_mem_cons.mp wait
      unfold settle
      split
      · exact more _ others
      · exact ⟨wait, last⟩

theorem regroup_apart (last : Node) [final : Apart last] {waiting : List (Node × Nat × Node)}
    {joints : List Joint} (wait : WaitApart waiting) (row : ∀ j ∈ joints, HasNodes.NamesApart j) :
    Apart (regroup waiting last joints) := by
  -- On the joints still to come: each of them may settle some of the operands that wait.
  induction joints generalizing waiting last with
  | nil =>
      unfold regroup
      exact (settle_apart 0 last wait).2
  | cons j more rest =>
      obtain ⟨first, others⟩ := List.forall_mem_cons.mp row
      unfold regroup
      cases j with
      | operator level token right =>
          have : Apart token := ⟨first.1⟩
          have : Apart right := ⟨first.2⟩
          obtain ⟨wait', left⟩ := settle_apart (if level == 12 then 13 else level) last wait
          exact rest right (List.forall_mem_cons.mpr ⟨⟨left, ‹_›⟩, wait'⟩) others
      | typing k token type =>
          have : k.IsOther := ⟨first.1⟩
          have : Apart token := ⟨first.2.1⟩
          have : Apart type := ⟨first.2.2⟩
          obtain ⟨wait', left⟩ := settle_apart 8 last wait
          exact rest _ wait' others

instance binary_tidy : g.binary.Tidy := by
  unfold binary
  refine .after fun first _ => .after fun joints row => ?_
  have none : WaitApart [] := fun _ inside => absurd inside List.not_mem_nil
  have := regroup_apart first none row.apart
  infer_instance

/-! ## Choices, assignments, arrows -/

instance choiceMark_tidy : choiceMark.Tidy := by
  unfold choiceMark
  refine .after fun c _ => ?_
  split <;> infer_instance

instance ternary_tidy {typedArrows : Bool} : (g.ternary typedArrows).Tidy := by
  unfold ternary
  infer_instance

instance assignment_right_tidy {typedArrows : Bool} : (assignment.right g typedArrows).Tidy :=
  read_tidy _

instance assignment_tidy {typedArrows : Bool} : (g.assignment typedArrows).Tidy := by
  unfold assignment
  infer_instance

instance destructuring_tidy : g.destructuring.Tidy := by
  unfold destructuring
  infer_instance

instance yieldExpression_tidy : g.yieldExpression.Tidy := by
  unfold yieldExpression
  infer_instance

instance typeParametersAhead_tidy : typeParametersAhead.Tidy := Parser.Tidy.sees

instance expressionForm_tidy {typedArrows : Bool} : (g.expressionForm typedArrows).Tidy := by
  unfold expressionForm
  refine .after fun first _ => ?_
  split
  all_goals try infer_instance
  -- What begins with a word is chosen once more, by the word.
  refine .after fun word _ => ?_
  split <;> infer_instance

/-! ## Markup -/

instance markupWord_tidy {k : Kind} : (markupWord k).Tidy := by
  unfold markupWord
  refine .after fun c _ => ?_
  split <;> infer_instance

instance elementName_members_tidy (k : Nat) (n : Node) [Apart n] :
    (elementName.members k n).Tidy := by
  induction k generalizing n with
  | zero => exact Parser.Tidy.pure
  | succ k further =>
      unfold elementName.members
      infer_instance

instance elementName_tidy : g.elementName.Tidy := by
  unfold elementName
  infer_instance

instance markupExpression_tidy : g.markupExpression.Tidy := by
  unfold markupExpression
  infer_instance

instance markupAttribute_tidy : g.markupAttribute.Tidy := by
  unfold markupAttribute
  infer_instance

instance markupText_tidy : markupText.Tidy where
  found clean ran := by
    simp only [markupText] at ran
    split at ran
    · cases ran
    · exact Parser.Tidy.leaf.found clean ran

instance markupEntity_tidy : markupEntity.Tidy where
  found clean ran := by
    simp only [markupEntity] at ran
    split at ran
    · split at ran
      · cases ran
      · exact Parser.Tidy.leaf.found clean ran
    · cases ran

instance content_tidy : Parser.Tidy g.content := by
  unfold content
  infer_instance

instance closingTag_tidy : g.closingTag.Tidy := by
  unfold closingTag
  infer_instance

instance elementForm_tidy : g.elementForm.Tidy := by
  unfold elementForm
  infer_instance

/-! ## Statements -/

instance statement_tidy : g.statement.Tidy := read_tidy _

instance condition_tidy : g.condition.Tidy := by
  unfold condition
  infer_instance

instance expressionStatement_tidy : g.expressionStatement.Tidy := by
  unfold expressionStatement
  infer_instance

instance variableDeclarator_tidy : g.variableDeclarator.Tidy := by
  unfold variableDeclarator
  infer_instance

instance variableList_tidy : Parser.Tidy g.variableList := by
  unfold variableList
  infer_instance

instance declarationKind_other {parts : List Node} : (declarationKind parts).IsOther := by
  unfold declarationKind
  infer_instance

instance variableStatement_tidy : g.variableStatement.Tidy := by
  unfold variableStatement
  infer_instance

instance ifStatement_tidy : g.ifStatement.Tidy := by
  unfold ifStatement
  infer_instance

instance caseBody_tidy : Parser.Tidy g.caseBody := by
  unfold caseBody
  infer_instance

instance switchStatement_tidy : g.switchStatement.Tidy := by
  unfold switchStatement
  infer_instance

instance loopHead_loopWord_tidy : loopHead.loopWord.Tidy := Parser.Tidy.as

instance loopHead_tidy : Parser.Tidy g.loopHead := by
  unfold loopHead
  infer_instance

instance emptyPart_tidy : emptyPart.Tidy := by
  unfold emptyPart
  infer_instance

instance countHead_tidy : Parser.Tidy g.countHead := by
  unfold countHead
  infer_instance

instance forStatement_tidy : g.forStatement.Tidy := by
  unfold forStatement
  infer_instance

instance tryStatement_tidy : g.tryStatement.Tidy := by
  unfold tryStatement
  infer_instance

instance jump_tidy {k : Kind} [k.IsOther] {w : String} {what : Parser Node} [what.Tidy] :
    (jump k w what).Tidy := by
  unfold jump
  infer_instance

instance interfaceDeclaration_tidy : g.interfaceDeclaration.Tidy := by
  unfold interfaceDeclaration
  infer_instance

instance typeAliasDeclaration_tidy : g.typeAliasDeclaration.Tidy := by
  unfold typeAliasDeclaration
  infer_instance

instance enumDeclaration_tidy : g.enumDeclaration.Tidy := by
  unfold enumDeclaration
  infer_instance

instance moduleName_climb_tidy (k : Nat) (n : Node) [Apart n] :
    (moduleName.climb k n).Tidy := by
  induction k generalizing n with
  | zero => exact Parser.Tidy.pure
  | succ k further =>
      unfold moduleName.climb
      infer_instance

instance moduleName_tidy : g.moduleName.Tidy := by
  unfold moduleName
  infer_instance

instance moduleDeclaration_tidy {k : Kind} [k.IsOther] {w : String} :
    (g.moduleDeclaration k w).Tidy := by
  unfold moduleDeclaration
  infer_instance

instance namedModule_tidy : namedModule.Tidy := by
  unfold namedModule
  infer_instance

instance classDeclaration_tidy {front : List Node} [Apart front] :
    (g.classDeclaration front).Tidy := by
  unfold classDeclaration
  infer_instance

instance decoratedClass_tidy : g.decoratedClass.Tidy := by
  unfold decoratedClass
  infer_instance

instance declarationOf_tidy {w : String} : (g.declarationOf w).Tidy := by
  unfold declarationOf
  split <;> infer_instance

instance ambientDeclaration_tidy : g.ambientDeclaration.Tidy := by
  unfold ambientDeclaration
  infer_instance

instance declaration_tidy : g.declaration.Tidy := by
  unfold declaration
  refine .after fun ahead _ => ?_
  split
  · infer_instance
  · refine .after fun word _ => ?_
    split <;> infer_instance

instance fromClause_tidy : Parser.Tidy g.fromClause := by
  unfold fromClause
  infer_instance

instance moduleExportName_tidy : moduleExportName.Tidy := by
  unfold moduleExportName
  infer_instance

instance specifier_named_tidy {there here : Parser Node} [there.Tidy] [here.Tidy] :
    Parser.Tidy (specifier.named there here) := by
  unfold specifier.named
  infer_instance

instance specifier_tidy {k : Kind} [k.IsOther] {there here : Parser Node} [there.Tidy] [here.Tidy] :
    (specifier k there here).Tidy := by
  unfold specifier
  infer_instance

instance namedImports_tidy : g.namedImports.Tidy := by
  unfold namedImports
  infer_instance

instance namespaceImport_tidy : namespaceImport.Tidy := by
  unfold namespaceImport
  infer_instance

instance importClause_tidy : g.importClause.Tidy := by
  unfold importClause
  infer_instance

instance importStatement_tidy : g.importStatement.Tidy := by
  unfold importStatement
  infer_instance

instance exportClause_tidy : g.exportClause.Tidy := by
  unfold exportClause
  infer_instance

instance exportStatement_defaultDeclaration_tidy : (exportStatement.defaultDeclaration g).Tidy := by
  unfold exportStatement.defaultDeclaration
  infer_instance

instance exportStatement_tidy {decorators : List Node} [Apart decorators] :
    (g.exportStatement decorators).Tidy := by
  unfold exportStatement
  infer_instance

instance decorated_tidy : g.decorated.Tidy := by
  unfold decorated
  refine .after fun front _ => .after fun word _ => ?_
  split <;> infer_instance

instance keywordStatement_tidy : g.keywordStatement.Tidy := by
  unfold keywordStatement
  refine .after fun word _ => ?_
  split <;> infer_instance

instance labeledStatement_tidy : g.labeledStatement.Tidy := by
  unfold labeledStatement
  infer_instance

instance statementForm_tidy : g.statementForm.Tidy := by
  unfold statementForm
  refine .after fun first _ => ?_
  split <;> infer_instance

/-! ## Whole modules -/

instance form_tidy (f : Form) : (g.form f).Tidy := by
  unfold form
  split <;> infer_instance

end Rules

instance rules_tidy (markup : Bool) (depth : Nat) : (rules markup depth).Tidy := by
  induction depth with
  | zero => exact ⟨fun _ => Parser.Tidy.absent⟩
  | succ depth inner => exact ⟨fun f => ⟨fun clean ran => (Rules.form_tidy f).found clean ran⟩⟩

instance hashBang_tidy : hashBang.Tidy where
  found clean ran := by
    simp only [hashBang] at ran
    split at ran
    · exact Parser.Tidy.leaf.found clean ran
    · cases ran

instance module_tidy {g : Rules} [g.Tidy] : (module g).Tidy := by
  unfold module
  infer_instance

end Grammar

theorem read_namesApart {markup : Bool} {source : Text} {tree : Node}
    (isRead : read markup source = .ok tree) : tree.NamesApart := by
  unfold read at isRead
  dsimp only [Grammar.start] at isRead
  split at isRead <;> cases isRead
  rename_i whole c found
  have clean : Grammar.Cursor.Clean
      { rest := source, pos := 0, stop := 0, comments := [], breakable := true, far := 0 } :=
    fun _ inside => absurd inside List.not_mem_nil
  obtain ⟨apart, passed⟩ := Grammar.module_tidy.found clean found
  exact apart.withComments fun m inside => passed m (List.mem_reverse.mp inside)

/-- In a tree that was read, nothing below a word that names a value is another. -/
theorem parse_namesApart {markup : Bool} {source : Text} {tree : Node}
    (isRead : parse markup source = .ok tree) : tree.NamesApart := by
  unfold parse at isRead
  split at isRead <;> cases isRead
  exact read_namesApart ‹_›

end ClientMigration.Script
