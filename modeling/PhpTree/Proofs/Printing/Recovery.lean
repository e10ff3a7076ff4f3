import PhpTree.Proofs.Printing.Operands

/-! # Recovering expressions

Every form of expression recovers from its words when its parts do. -/
set_option autoImplicit false
namespace PhpTree

namespace Parse
open Node Printed

variable {context : Context} {depth : Nat} {rest : List Word} {grammar : Grammar} {node : Node}

theorem nameExpr_callee {name : Node} (isName : IsName name) (fuel : Nat)
    (ends : Word.headKind rest = .openParen ∨ Word.headKind rest = .doubleColon) :
    ReadsBack context depth (nameExpr fuel) (name.printed.words ++ rest) rest
      fun answer => answer.map unplaced = some name := by
  apply ReadsBack.start
  intro start
  have noBackslash : Word.headKind rest ≠ .backslash := by
    rcases ends with ends | ends <;> simp [ends]
  apply ReadsBack.bind_some (name_readsBack isName fuel noBackslash)
  intro read same
  rcases ends with ends | ends
  · apply ReadsBack.kind_eq .openParen ends
    exact ReadsBack.pure (congrArg some same)
  · apply ReadsBack.kind_eq .doubleColon ends
    exact ReadsBack.pure (congrArg some same)

theorem nameExpr_constant {name : Node} (isName : IsName name) (fuel : Nat)
    (ends : endsExpr (Word.headKind rest) = true) :
    ReadsBack context depth (nameExpr fuel) (name.printed.words ++ rest) rest
      fun answer => answer.map unplaced = some (.bare (.constFetch (some name))) := by
  apply ReadsBack.start
  intro start
  have noBackslash : Word.headKind rest ≠ .backslash := by
    intro same
    simp [same, endsExpr] at ends
  apply ReadsBack.bind_some (name_readsBack isName fuel noBackslash)
  intro read same
  apply ReadsBack.kind
  split
  · simp_all [endsExpr]
  · simp_all [endsExpr]
  · apply ReadsBack.found
    apply ReadsBack.finished
    intro position
    simp [Form.map, same]

theorem primary_of_name {name : Node} (isName : IsName name) {fuel : Nat}
    {post : Option Node → Prop} {after : List Word}
    (reads : ReadsBack context depth (nameExpr fuel) (name.printed.words ++ rest) after post) :
    ReadsBack context depth (primary fuel grammar) (name.printed.words ++ rest) after post := by
  cases isName with
  | @mk qualification first others isFirst areParts =>
      simp only [printed_name, words_append, List.append_assoc] at reads ⊢
      cases qualification with
      | unqualified =>
          have isIdentifier := (isFirst.begins.append
            (joined ((others.map printed).map (token .backslash ++ ·)))).headKind rest
          exact ReadsBack.kind_eq .identifier (beq_iff_eq.mp isIdentifier) reads
      | fullyQualified => exact ReadsBack.kind_eq .backslash rfl reads
      | relative =>
          apply ReadsBack.kind_eq (.keyword .namespace) rfl
          exact ReadsBack.nextKind_eq .backslash rfl reads

theorem endsTrailers_assigns (mode : AssignMode) (rest : List Word) :
    endsTrailers (Word.headKind ((assigns mode).words ++ rest)) = true := by
  cases mode <;> rfl

theorem assignment_readsBack {target source read : Node} (mode : AssignMode)
    (same : read.unplaced = target) (fits : Fits .expr source)
    (restores : grammar.Restores .expr context depth source)
    (ends : endsExpr (Word.headKind rest) = true) {start : Nat} :
    ReadsBack context depth (assignment grammar start read)
      ((assigns mode).words ++ (source.printed.words ++ rest)) rest
      fun answer => answer.unplaced = .bare (.assign mode (some target) (some source)) := by
  cases mode with
  | value =>
      apply ReadsBack.kind_eq .equals rfl
      apply ReadsBack.advance
      apply ReadsBack.eat_missing (fits.expr_begins.headKind_ne rfl rest)
      apply ReadsBack.bind_some (restores rest ends)
      intro readSource sameSource
      apply ReadsBack.finished
      intro position
      simp [Form.map, same, sameSource]
  | reference =>
      apply ReadsBack.kind_eq .equals rfl
      apply ReadsBack.advance
      apply ReadsBack.eat_found rfl
      apply ReadsBack.bind_some (restores rest ends)
      intro readSource sameSource
      apply ReadsBack.finished
      intro position
      simp [Form.map, same, sameSource]
  | compound op =>
      apply ReadsBack.kind_eq (.compound op) rfl
      apply ReadsBack.advance
      apply ReadsBack.bind_some (restores rest ends)
      intro readSource sameSource
      apply ReadsBack.finished
      intro position
      simp [Form.map, same, sameSource]

theorem noParen_of_follows {kind : TokenKind} (follows : followsOperand false kind = true) :
    kind ≠ .openParen := by
  rintro rfl
  cases follows

end Parse

namespace Node
open Parse Printed

variable {context : Context} {node : Node}

theorem IsVariable.readsWhole (isVariable : IsVariable node) :
    ReadsWhole context (fun _ => true) node := by
  intro fuel depth rest _ _
  apply ReadsBack.kind_eq .variableName (beq_iff_eq.mp (isVariable.begins.headKind rest))
  exact simpleVariable_readsBack isVariable

theorem IsStatic.readsWhole (isStatic : IsStatic node) :
    ReadsWhole context (· != .keyword .function) node := by
  intro fuel depth rest _ ends
  apply ReadsBack.kind_eq (.keyword .static) (beq_iff_eq.mp (isStatic.begins.headKind rest))
  have reads := @leaf_readsBack context depth rest _ _ _ isStatic
  cases isStatic with
  | @mk text spells =>
      rw [printed_leaf] at reads ⊢
      apply ReadsBack.nextKind_eq (Word.headKind rest) rfl
      rw [if_neg (by simpa using ends)]
      exact reads

theorem IsName.readsWhole (isName : IsName node) :
    ReadsWhole context (fun kind => kind == .openParen || kind == .doubleColon) node := by
  intro fuel depth rest _ ends
  apply primary_of_name isName
  exact nameExpr_callee isName fuel (by simpa using ends)

theorem IsName.constant_readsWhole (isName : IsName node) :
    ReadsWhole context endsExpr (.bare (.constFetch (some node))) := by
  intro fuel depth rest _ ends
  rw [printed_constFetch]
  apply primary_of_name isName
  exact nameExpr_constant isName fuel ends

theorem RecoversNode.computed_readsWhole (fits : Fits .expr node)
    (recovers : RecoversNode context .expr node) :
    ReadsWhole context (fun _ => true) (.bare (.variableRef (some node))) := by
  intro fuel depth rest room _
  rw [printed_computed fits.isVariableName] at room ⊢
  have room : depth + node.printed.nested.levels ≤ context.options.maxDepth := by
    simpa [braces] using room
  simp only [braces, words_append, words_token, words_nested, List.append_assoc,
    List.cons_append, List.nil_append]
  apply ReadsBack.kind_eq .dollar rfl
  apply ReadsBack.found
  apply ReadsBack.start
  intro start
  apply ReadsBack.advance
  apply ReadsBack.eat_found rfl
  apply ReadsBack.bind_some (recovers fuel depth room _ rfl)
  intro read same
  apply ReadsBack.expect (by rfl)
  apply ReadsBack.finished
  intro position
  simp [Form.map, same]

section Lists
variable {params uses args interfaces stmts : List Node} {type extended : Option Node}

theorem ReadsArgument.all {fuel depth : Nat} (reads : ∀ arg ∈ args, ReadsArgument context arg)
    (room : depth + (listed (args.map printed)).levels ≤ context.options.maxDepth) :
    ∀ arg ∈ args, ReadsItem context depth (Parse.argument (Grammar.closed fuel)) arg := by
  intro arg member
  have below := levels_le_listed (List.mem_map_of_mem (f := printed) member)
  exact reads arg member fuel depth (by omega)

theorem ReadsParameter.all {fuel depth : Nat}
    (reads : ∀ param ∈ params, ReadsParameter context param)
    (room : depth + (listed (params.map printed)).levels ≤ context.options.maxDepth) :
    ∀ param ∈ params,
      ReadsItem context depth (Parse.parameter fuel (Grammar.closed fuel)) param := by
  intro param member
  have below := levels_le_listed (List.mem_map_of_mem (f := printed) member)
  exact reads param member fuel depth (by omega)

theorem RecoversNode.statements {fuel depth : Nat}
    (recovers : ∀ stmt ∈ stmts, RecoversNode context .statement stmt)
    (room : depth + (Printed.block (stmts.map printed)).levels ≤ context.options.maxDepth) :
    ∀ stmt ∈ stmts, (Grammar.closed fuel).Restores .statement context depth stmt := by
  intro stmt member
  have below := levels_le_block (List.mem_map_of_mem (f := printed) member)
  exact recovers stmt member fuel depth (Nat.le_trans (Nat.add_le_add_left below depth) room)

theorem RecoversNode.members {fuel depth : Nat}
    (recovers : ∀ stmt ∈ stmts, RecoversNode context .member stmt)
    (room : depth + (joined (stmts.map printed)).levels ≤ context.options.maxDepth) :
    ∀ stmt ∈ stmts, (Grammar.closed fuel).Restores .member context depth stmt := by
  intro stmt member
  have below := levels_le_joined (List.mem_map_of_mem (f := printed) member)
  exact recovers stmt member fuel depth (Nat.le_trans (Nat.add_le_add_left below depth) room)

/-- After the keyword, a closure is an operand. -/
theorem closure_readsWhole {static returnsRef : Bool}
    (fitParams : ∀ param ∈ params, Fits .parameter param)
    (areCaptures : ∀ use ∈ uses, IsCapture use) (isType : ∀ node ∈ type, IsType node)
    (fitStmts : ∀ stmt ∈ stmts, Fits .statement stmt)
    (reads : ∀ param ∈ params, ReadsParameter context param)
    (recovers : ∀ stmt ∈ stmts, RecoversNode context .statement stmt) :
    ReadsWhole context (fun _ => true)
      (.closure params uses type stmts static returnsRef) := by
  intro fuel depth rest room _
  have parts : depth + (listed (params.map printed)).levels ≤ context.options.maxDepth ∧
      depth + (Printed.block (stmts.map printed)).levels ≤ context.options.maxDepth := by
    simp only [printed_closure, functionTail, levels_append] at room
    omega
  have closure := @closure_readsBack context depth rest (Grammar.closed fuel) _ _ _ _ fitParams
    areCaptures isType fitStmts fuel (ReadsParameter.all reads parts.1)
    (RecoversNode.statements recovers parts.2) static returnsRef
  rw [printed_closure] at closure ⊢
  cases static with
  | true =>
      apply ReadsBack.kind_eq (.keyword .static) rfl
      apply ReadsBack.nextKind_eq (.keyword .function) rfl
      rw [if_pos rfl]
      exact closure.found
  | false =>
      apply ReadsBack.kind_eq (.keyword .function) rfl
      exact closure.found

theorem new_readsWhole {scope : Node} (isInstantiated : IsInstantiated scope)
    (fits : ∀ arg ∈ args, Fits .argument arg) (reads : ∀ arg ∈ args, ReadsArgument context arg) :
    ReadsWhole context (fun _ => true) (.bare (.new (some scope) args)) := by
  intro fuel depth rest room _
  have room : depth + (listed (args.map printed)).levels ≤ context.options.maxDepth := by
    simp only [printed_new isInstantiated.isClass, levels_append] at room
    omega
  apply ReadsBack.kind_eq (.keyword .new) (by simp [printed_new isInstantiated.isClass])
  exact (instantiation_readsBack isInstantiated fits (ReadsArgument.all reads room)).found

theorem anonymous_readsWhole (fitArgs : ∀ arg ∈ args, Fits .argument arg)
    (isName : ∀ name ∈ extended, IsName name) (areNames : ∀ name ∈ interfaces, IsName name)
    (fitStmts : ∀ stmt ∈ stmts, Fits .method stmt)
    (reads : ∀ arg ∈ args, ReadsArgument context arg)
    (recovers : ∀ stmt ∈ stmts, RecoversNode context .member stmt) :
    ReadsWhole context (fun _ => true)
      (.bare (.new (some (.bare (.classDecl none [] args extended interfaces stmts))) [])) := by
  intro fuel depth rest room _
  have isClass : (Node.bare (.classDecl none [] args extended interfaces stmts)).isClass = true :=
    rfl
  have parts : depth + (listed (args.map printed)).levels ≤ context.options.maxDepth ∧
      depth + (joined (stmts.map printed)).levels ≤ context.options.maxDepth := by
    simp only [printed_new_class isClass, printed_anonymousClass, classTail, levels_append,
      levels_braces] at room
    omega
  apply ReadsBack.kind_eq (.keyword .new) (by simp [printed_new_class isClass])
  exact (instantiation_of_class_readsBack fitArgs (ReadsArgument.all reads parts.1) isName areNames
    fitStmts (RecoversNode.members recovers parts.2)).found

end Lists

/-! ## Chains of calls and accesses -/

section Chaining
variable {called : Bool} {callee member : Node} {args : List Node}

theorem ChainsTrailers.functionCall
    (chains : ChainsTrailers context true (followsCallee true) callee)
    (fits : ∀ arg ∈ args, Fits .argument arg) (reads : ∀ arg ∈ args, ReadsArgument context arg)
    (follows : TokenKind → Bool) :
    ChainsTrailers context called follows (.bare (.functionCall (some callee) args)) := by
  apply ChainsTrailers.extend rfl (printed_functionCall callee args) chains
  · exact ((begins_token rfl).append _).append _
  · intro fuel depth rest start operand room _ same
    exact trailer_functionCall same fits (ReadsArgument.all reads room)

theorem ChainsTrailers.methodCall
    (chains : ChainsTrailers context false (followsOperand false) callee)
    (isMember : IsMember member) (fits : ∀ arg ∈ args, Fits .argument arg)
    (reads : ∀ arg ∈ args, ReadsArgument context arg) (follows : TokenKind → Bool) :
    ChainsTrailers context called follows
      (.bare (.methodCall (some callee) (some member) args)) := by
  have words := printed_methodCall callee member args
  simp only [append_assoc] at words
  apply ChainsTrailers.extend rfl words chains
  · exact (begins_token rfl).append _
  · intro fuel depth rest start operand room _ same
    have room : depth + (listed (args.map printed)).levels ≤ context.options.maxDepth := by
      simp only [levels_append] at room
      omega
    simp only [words_append, List.append_assoc]
    exact trailer_arrow
      (memberAccess_methodCall same isMember fits (ReadsArgument.all reads room))

theorem ChainsTrailers.property
    (chains : ChainsTrailers context false (followsOperand false) callee)
    (isMember : IsMember member) :
    ChainsTrailers context false (followsOperand false)
      (.bare (.propertyFetch (some callee) (some member))) := by
  have words := printed_propertyFetch callee member
  rw [append_assoc] at words
  apply ChainsTrailers.extend rfl words chains
  · exact (begins_token rfl).append _
  · intro fuel depth rest start operand _ ends same
    rw [words_append, List.append_assoc]
    exact trailer_arrow (memberAccess_property same isMember (noParen_of_follows ends))

theorem ChainsTrailers.staticCall
    (chains : ChainsTrailers context false (followsCallee false) callee)
    (isMember : IsMember member) (fits : ∀ arg ∈ args, Fits .argument arg)
    (reads : ∀ arg ∈ args, ReadsArgument context arg) (follows : TokenKind → Bool) :
    ChainsTrailers context called follows
      (.bare (.staticCall (some callee) (some member) args)) := by
  have words := printed_staticCall callee member args
  simp only [append_assoc] at words
  apply ChainsTrailers.extend rfl words chains
  · exact (begins_token rfl).append _
  · intro fuel depth rest start operand room _ same
    have room : depth + (listed (args.map printed)).levels ≤ context.options.maxDepth := by
      simp only [levels_append] at room
      omega
    simp only [words_append, List.append_assoc]
    exact trailer_doubleColon
      (staticAccess_call same isMember fits (ReadsArgument.all reads room))

theorem ChainsTrailers.staticProperty
    (chains : ChainsTrailers context false (followsCallee false) callee)
    (isVariable : IsVariable member) :
    ChainsTrailers context false (followsOperand false)
      (.bare (.staticPropertyFetch (some callee) (some member))) := by
  have words := printed_staticPropertyFetch callee member
  rw [append_assoc] at words
  apply ChainsTrailers.extend rfl words chains
  · exact (begins_token rfl).append _
  · intro fuel depth rest start operand _ ends same
    rw [words_append, List.append_assoc]
    exact trailer_doubleColon (staticAccess_property same isVariable (noParen_of_follows ends))

theorem ChainsTrailers.classConstant
    (chains : ChainsTrailers context false (followsCallee false) callee)
    (isIdentifier : IsIdentifier member) :
    ChainsTrailers context false (followsOperand false)
      (.bare (.classConstFetch (some callee) (some member))) := by
  have words := printed_classConstFetch callee member
  rw [append_assoc] at words
  apply ChainsTrailers.extend rfl words chains
  · exact (begins_token rfl).append _
  · intro fuel depth rest start operand _ ends same
    rw [words_append, List.append_assoc]
    exact trailer_doubleColon (staticAccess_constant same isIdentifier (noParen_of_follows ends))

end Chaining

/-! ## Assignments -/

theorem RecoversNode.assign {target source : Node} (mode : AssignMode)
    (chains : ChainsTrailers context false (followsOperand false) target) (fits : Fits .expr source)
    (recovers : RecoversNode context .expr source) :
    RecoversNode context .expr (.bare (.assign mode (some target) (some source))) := by
  apply RecoversNode.of_body
  intro fuel depth rest room ends
  rw [printed_assign] at room ⊢
  simp only [levels_append] at room
  simp only [words_append, words_nested, List.append_assoc]
  rw [exprBody_eq]
  apply ReadsBack.start
  intro start
  apply ReadsBack.bind_some (chains.complete (by omega) (endsTrailers_assigns mode _))
  intro read same
  have room : depth + source.printed.nested.levels ≤ context.options.maxDepth := by omega
  apply ReadsBack.found
  exact assignment_readsBack mode same fits (recovers fuel depth room) ends

end Node
end PhpTree
