import PhpTree.Proofs.Printing.Recovery

/-! # Recovering statements

Statements are told apart by their first token, except that `function` may begin a
declaration or a closure: a name or a parenthesis decides, one token or two later. -/
set_option autoImplicit false
namespace PhpTree
namespace Parse
open Node Printed

variable {context : Context} {depth : Nat} {rest : List Word} {grammar : Grammar}

theorem expectSemicolon_readsBack :
    ReadsBack context depth expectSemicolon (.fixed .semicolon :: rest) rest fun _ => True := by
  apply ReadsBack.clearDoc
  apply ReadsBack.kind_eq .semicolon rfl
  exact ReadsBack.advance (ReadsBack.pure trivial)

theorem ended_readsBack {start : Nat} {form other : Form Node}
    (same : form.map unplaced = other) :
    ReadsBack context depth
      (do
        expectSemicolon
        Parse.finish start (.bare form))
      (.fixed .semicolon :: rest) rest fun answer => answer.unplaced = .bare other := by
  apply ReadsBack.bind expectSemicolon_readsBack
  intro _ _
  apply ReadsBack.finished
  intro position
  simp [same]

theorem returned_readsBack {expr : Option Node} (fits : ∀ node ∈ expr, Fits .expr node)
    (restores : ∀ node ∈ expr, grammar.Restores .expr context depth node) :
    ReadsBack context depth (returned grammar)
      ((required (expr.map fun expr => expr.printed.nested)).words ++ .fixed .semicolon :: rest)
      (.fixed .semicolon :: rest) fun answer => answer.map unplaced = expr := by
  cases expr with
  | none =>
      apply ReadsBack.kind_eq .semicolon rfl
      exact ReadsBack.pure rfl
  | some expr =>
      have starts := (fits expr rfl).expr_begins.headKind (.fixed .semicolon :: rest)
      apply ReadsBack.kind
      rw [if_neg]
      · exact restores expr rfl _ rfl
      · intro ends
        unfold endsReturn at ends
        split at ends
        · simp_all [required, startsExpr, startsOperand]
        · simp_all [required, startsExpr, startsOperand]
        · simp_all [required, startsExpr, startsOperand]
        · cases ends

theorem statementByKind_of_class {fuel start : Nat} {before after : List Word}
    {post : Node → Prop}
    (begins : isClassModifier (Word.headKind before) = true ∨
      Word.headKind before = .keyword .class)
    (reads : ReadsBack context depth (classDeclaration fuel grammar) before after post) :
    ReadsBack context depth (statementByKind fuel grammar start) before after post := by
  rcases begins with begins | begins
  · unfold isClassModifier at begins
    split at begins
    · exact ReadsBack.kind_eq (.keyword .abstract) ‹_› reads
    · exact ReadsBack.kind_eq (.keyword .final) ‹_› reads
    · exact ReadsBack.kind_eq (.keyword .readonly) ‹_› reads
    · cases begins
  · exact ReadsBack.kind_eq (.keyword .class) begins reads

theorem statementByKind_of_operand {fuel start : Nat} {before after : List Word}
    {post : Node → Prop} (begins : startsOperand (Word.headKind before) = true)
    (reads : ReadsBack context depth (expressionStatement grammar start) before after post) :
    ReadsBack context depth (statementByKind fuel grammar start) before after post := by
  apply ReadsBack.kind
  split
  all_goals first | exact reads | (simp_all [startsOperand])

theorem functionStatement_readsBack {functionName : Node} {params stmts : List Node}
    {type : Option Node} (isIdentifier : IsIdentifier functionName)
    (fitParams : ∀ param ∈ params, Fits .parameter param) (isType : ∀ node ∈ type, IsType node)
    (fitStmts : ∀ stmt ∈ stmts, Fits .statement stmt) (fuel : Nat)
    (eachParam : ∀ param ∈ params, ReadsItem context depth (parameter fuel grammar) param)
    (restores : ∀ stmt ∈ stmts, grammar.Restores .statement context depth stmt)
    (start : Nat) (returnsRef : Bool) :
    ReadsBack context depth (functionStatement fuel grammar start)
      ((Node.function (some functionName) returnsRef params type stmts).printed.words ++ rest) rest
      fun answer => answer.unplaced =
        .function (some functionName) returnsRef params type stmts := by
  simp only [printed_function, words_append, List.append_assoc]
  apply ReadsBack.takeDoc
  apply ReadsBack.advance
  apply ReadsBack.eat_given (isIdentifier.begins.headKind_ne rfl _)
  apply ReadsBack.kind
  rw [if_neg (isIdentifier.begins.headKind_ne rfl _)]
  apply signature_readsBack isIdentifier fitParams isType fuel eachParam
  intro readName readParams readType sameName sameParams sameType
  apply ReadsBack.bind (block_readsBack fitStmts restores fuel)
  intro readStmts sameStmts
  rw [document_none]
  apply ReadsBack.finished
  intro position
  simp [Node.function, Form.map, sameName, sameParams, sameType, sameStmts]

end Parse

namespace Node
open Parse Printed

variable {context : Context} {node : Node}

/-- One level deeper, a statement recovers. -/
theorem RecoversNode.of_statement (fits : Fits .statement node)
    (reads : ∀ fuel depth rest start, depth + node.printed.levels ≤ context.options.maxDepth →
      ReadsBack context depth (statementByKind fuel (Grammar.closed fuel) start)
        (node.printed.words ++ rest) rest fun answer => answer.unplaced = node) :
    RecoversNode context .statement node := by
  intro fuel depth room rest _
  have room : depth + (node.printed.levels + 1) ≤ context.options.maxDepth := room
  cases fuel with
  | zero => exact ReadsBack.out fun _ => rfl
  | succ fuel =>
      have starts := fits.statement_begins
      apply ReadsBack.kind
      split
      · exact absurd ‹_› (starts.headKind_ne rfl rest)
      · exact absurd ‹_› (starts.headKind_ne rfl rest)
      · exact absurd ‹_› (starts.headKind_ne rfl rest)
      · exact absurd ‹_› (starts.headKind_ne rfl rest)
      · apply ReadsBack.deeper (by omega)
        apply ReadsBack.found
        apply ReadsBack.start
        intro start
        apply ReadsBack.takeComments
        apply ReadsBack.bind (reads fuel (depth + 1) rest start (by omega))
        intro read same
        apply ReadsBack.pure
        rw [prependComments_nil]
        exact same

theorem RecoversNode.echo {first : Node} {others : List Node}
    (fits : ∀ expr ∈ first :: others, Fits .expr expr)
    (recovers : ∀ expr ∈ first :: others, RecoversNode context .expr expr) :
    RecoversNode context .statement (.bare (.echo (first :: others))) := by
  apply RecoversNode.of_statement (.echo fits)
  intro fuel depth rest start room
  simp only [printed_echo, levels_append, levels_token] at room
  simp only [printed_echo, words_append, words_token, List.append_assoc, List.cons_append,
    List.nil_append]
  have restores : ∀ expr ∈ first :: others,
      (Grammar.closed fuel).Restores .expr context depth expr := by
    intro expr member
    have below := levels_le_separated .comma
      (List.mem_map_of_mem (f := fun expr => expr.printed.nested) member)
    exact recovers expr member fuel depth (by simp only [Phrase.printed]; omega)
  apply ReadsBack.kind_eq (.keyword .echo) rfl
  apply ReadsBack.advance
  apply ReadsBack.bind (exprList_readsBack restores fuel rfl)
  intro exprs same
  exact ended_readsBack (by simp [Form.map, same])

theorem RecoversNode.throw {expr : Node} (fits : Fits .expr expr)
    (recovers : RecoversNode context .expr expr) :
    RecoversNode context .statement (.bare (.throwStmt (some expr))) := by
  apply RecoversNode.of_statement (.throw fits)
  intro fuel depth rest start room
  simp only [printed_throw, levels_append, levels_token] at room
  simp only [printed_throw, words_append, words_token, words_nested, List.append_assoc,
    List.cons_append, List.nil_append]
  have room : depth + expr.printed.nested.levels ≤ context.options.maxDepth := by omega
  apply ReadsBack.kind_eq (.keyword .throw) rfl
  apply ReadsBack.advance
  apply ReadsBack.bind_some (recovers fuel depth room _ rfl)
  intro read same
  exact ended_readsBack (by simp [Form.map, same])

theorem RecoversNode.return {expr : Option Node} (fits : ∀ node ∈ expr, Fits .expr node)
    (recovers : ∀ node ∈ expr, RecoversNode context .expr node) :
    RecoversNode context .statement (.bare (.returnStmt expr)) := by
  apply RecoversNode.of_statement (.return fits)
  intro fuel depth rest start room
  simp only [printed_return, levels_append, levels_token] at room
  simp only [printed_return, words_append, words_token, List.append_assoc, List.cons_append,
    List.nil_append]
  have restores : ∀ node ∈ expr, (Grammar.closed fuel).Restores .expr context depth node := by
    rintro node rfl
    simp only [Option.map_some, required, Option.getD_some] at room
    exact recovers node rfl fuel depth (by simp only [Phrase.printed]; omega)
  apply ReadsBack.kind_eq (.keyword .return) rfl
  apply ReadsBack.advance
  apply ReadsBack.bind (returned_readsBack fits restores)
  intro read same
  exact ended_readsBack (by simp [Form.map, same])

theorem RecoversNode.block {stmts : List Node} (fits : ∀ stmt ∈ stmts, Fits .statement stmt)
    (recovers : ∀ stmt ∈ stmts, RecoversNode context .statement stmt) :
    RecoversNode context .statement (.bare (.stmtList stmts)) := by
  apply RecoversNode.of_statement (.block fits)
  intro fuel depth rest start room
  rw [printed_stmtList] at room ⊢
  apply ReadsBack.kind_eq .openBrace (by simp [Printed.block, braces])
  apply ReadsBack.bind (block_readsBack fits (RecoversNode.statements recovers room) fuel)
  intro read same
  apply ReadsBack.finished
  intro position
  simp [Form.map, same]

section Declarations
variable {functionName : Node} {modifiers params uses interfaces stmts : List Node}
  {type extended : Option Node}

theorem RecoversNode.function (returnsRef : Bool) (isIdentifier : IsIdentifier functionName)
    (fitParams : ∀ param ∈ params, Fits .parameter param) (isType : ∀ node ∈ type, IsType node)
    (fitStmts : ∀ stmt ∈ stmts, Fits .statement stmt)
    (reads : ∀ param ∈ params, ReadsParameter context param)
    (recovers : ∀ stmt ∈ stmts, RecoversNode context .statement stmt) :
    RecoversNode context .statement
      (.function (some functionName) returnsRef params type stmts) := by
  apply RecoversNode.of_statement (.function returnsRef isIdentifier fitParams isType fitStmts)
  intro fuel depth rest start room
  have parts : depth + (listed (params.map printed)).levels ≤ context.options.maxDepth ∧
      depth + (Printed.block (stmts.map printed)).levels ≤ context.options.maxDepth := by
    simp only [printed_function, functionTail, levels_append] at room
    omega
  have function := @functionStatement_readsBack context depth rest (Grammar.closed fuel) _ _ _ _
    isIdentifier fitParams isType fitStmts fuel (ReadsParameter.all reads parts.1)
    (RecoversNode.statements recovers parts.2) start returnsRef
  simp only [printed_function, words_append, words_token, List.append_assoc, List.cons_append,
    List.nil_append] at function ⊢
  apply ReadsBack.kind_eq (.keyword .function) rfl
  apply ReadsBack.nextKind_eq _ rfl
  rw [if_neg]
  · exact function
  · cases returnsRef with
    | true => simp
    | false => exact isIdentifier.begins.headKind_ne rfl _

theorem RecoversNode.class (isIdentifier : IsIdentifier functionName)
    (areModifiers : ∀ modifier ∈ modifiers, IsLeaf .identifier isClassModifier modifier)
    (isName : ∀ name ∈ extended, IsName name) (areNames : ∀ name ∈ interfaces, IsName name)
    (fits : ∀ stmt ∈ stmts, Fits .method stmt)
    (recovers : ∀ stmt ∈ stmts, RecoversNode context .member stmt) :
    RecoversNode context .statement
      (.bare (.classDecl (some functionName) modifiers [] extended interfaces stmts)) := by
  apply RecoversNode.of_statement (.class isIdentifier areModifiers isName areNames fits)
  intro fuel depth rest start room
  have members : depth + (joined (stmts.map printed)).levels ≤ context.options.maxDepth := by
    simp only [printed_class, classTail, levels_append, levels_braces] at room
    omega
  apply statementByKind_of_class
  · rw [printed_class]
    cases modifiers with
    | nil => exact Or.inr rfl
    | cons first others =>
        have begins := (areModifiers first (List.mem_cons_self ..)).begins
        exact Or.inl (((((begins.append _).append _).append _).append _).headKind rest)
  · exact classDeclaration_readsBack isIdentifier areModifiers isName areNames fits
      (RecoversNode.members recovers members)

theorem RecoversNode.method (returnsRef : Bool) (isIdentifier : IsIdentifier functionName)
    (areModifiers : ∀ modifier ∈ modifiers, IsLeaf .identifier TokenKind.isModifier modifier)
    (fitParams : ∀ param ∈ params, Fits .parameter param) (isType : ∀ node ∈ type, IsType node)
    (fitStmts : ∀ stmt ∈ stmts, Fits .statement stmt)
    (reads : ∀ param ∈ params, ReadsParameter context param)
    (recovers : ∀ stmt ∈ stmts, RecoversNode context .statement stmt) :
    RecoversNode context .member
      (.classMethod (some functionName) modifiers returnsRef params type stmts) := by
  intro fuel depth room rest _
  cases fuel with
  | zero => exact ReadsBack.out fun _ => rfl
  | succ fuel =>
      have parts : depth + (listed (params.map printed)).levels ≤ context.options.maxDepth ∧
          depth + (Printed.block (stmts.map printed)).levels ≤ context.options.maxDepth := by
        simp only [Phrase.printed, printed_method, functionTail, levels_append] at room
        omega
      exact member_readsBack isIdentifier areModifiers fitParams isType fitStmts fuel
        (ReadsParameter.all reads parts.1) (RecoversNode.statements recovers parts.2) returnsRef

/-- A statement that begins with `function &` and has no name is a closure. -/
theorem RecoversNode.refClosure (fitParams : ∀ param ∈ params, Fits .parameter param)
    (areCaptures : ∀ use ∈ uses, IsCapture use) (isType : ∀ node ∈ type, IsType node)
    (fitStmts : ∀ stmt ∈ stmts, Fits .statement stmt)
    (reads : ∀ param ∈ params, ReadsParameter context param)
    (recovers : ∀ stmt ∈ stmts, RecoversNode context .statement stmt) :
    RecoversNode context .statement
      (.bare (.expression (some (.closure params uses type stmts false true)))) := by
  apply RecoversNode.of_statement
    (.expression (.closure false true fitParams areCaptures isType fitStmts))
  intro fuel depth rest start room
  have isRefClosure : (Node.closure params uses type stmts false true).isRefClosure = true := rfl
  rw [printed_expression_refClosure isRefClosure] at room ⊢
  have parts : depth + (listed (params.map printed)).levels ≤ context.options.maxDepth ∧
      depth + (Printed.block (stmts.map printed)).levels ≤ context.options.maxDepth := by
    simp only [printed_closure, functionTail, levels_append] at room
    omega
  rw [printed_closure]
  simp only [given_false, given_true, words_append, words_token, List.append_assoc,
    List.cons_append, List.nil_append]
  apply ReadsBack.kind_eq (.keyword .function) rfl
  apply ReadsBack.nextKind_eq .ampersand rfl
  rw [if_neg (by decide)]
  apply ReadsBack.takeDoc
  apply ReadsBack.advance
  apply ReadsBack.eat_found rfl
  apply ReadsBack.kind_eq .openParen rfl
  rw [if_pos rfl]
  apply ReadsBack.bind (closureTail_readsBack fitParams areCaptures isType fitStmts fuel
    (ReadsParameter.all reads parts.1) (RecoversNode.statements recovers parts.2) start false true)
  intro closure same
  exact ended_readsBack (by simp [Form.map, same])

end Declarations

/-- Any other expression is read as one, whether it begins like an operand or with `function`. -/
theorem RecoversNode.expression {expr : Node} (fits : Fits .expr expr)
    (isRefClosure : expr.isRefClosure = false) (recovers : RecoversNode context .expr expr) :
    RecoversNode context .statement (.bare (.expression (some expr))) := by
  apply RecoversNode.of_statement (.expression fits)
  intro fuel depth rest start room
  rw [printed_expression isRefClosure] at room ⊢
  have room : depth + expr.printed.nested.levels ≤ context.options.maxDepth := by
    simpa using room
  have statement : ReadsBack context depth (expressionStatement (Grammar.closed fuel) start)
      (expr.printed.words ++ .fixed .semicolon :: rest) rest
      fun answer => answer.unplaced = .bare (.expression (some expr)) := by
    apply ReadsBack.bind_some (recovers fuel depth room _ rfl)
    intro read same
    exact ended_readsBack (by simp [Form.map, same])
  simp only [words_append, words_nested, words_token, List.append_assoc, List.cons_append,
    List.nil_append]
  rcases fits.begins_or_closure with begins | ⟨params, uses, type, stmts, returnsRef, rfl⟩
  · exact statementByKind_of_operand (begins.headKind _) statement
  · cases returnsRef with
    | true => cases isRefClosure
    | false =>
        rw [printed_closure] at statement ⊢
        apply ReadsBack.kind_eq (.keyword .function) rfl
        apply ReadsBack.nextKind_eq .openParen rfl
        exact statement

end Node
end PhpTree
