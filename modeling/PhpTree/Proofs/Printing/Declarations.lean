import PhpTree.Proofs.Printing.Expressions

/-! # Reading declarations back

Functions, closures and classes over a grammar that reads their statements and
members back. -/
set_option autoImplicit false
namespace PhpTree
namespace Parse
open Node Printed

variable {context : Context} {depth : Nat} {rest : List Word} {grammar : Grammar}

theorem document_none (node : Node) : document none node = node := by
  cases node
  rfl

theorem prependComments_nil (node : Node) :
    (node.modifyAttributes fun attributes => attributes.prependComments []) = node := by
  cases node
  rfl

/-! ## Bodies -/

theorem not_endsBody {kind : TokenKind} (noBrace : kind ≠ .closeBrace) (noEnd : kind ≠ .eof) :
    ¬ endsBody kind = true := by
  unfold endsBody
  split
  · exact absurd rfl noBrace
  · exact absurd rfl noEnd
  · exact Bool.false_ne_true

theorem braced_readsBack {element : Parse (Option Node)} {nodes : List Node}
    {accepts : TokenKind → Bool} (begins : ∀ node ∈ nodes, node.printed.BeginsWith accepts)
    (noBrace : accepts .closeBrace = false) (noEnd : accepts .eof = false)
    (each : ∀ node ∈ nodes, ∀ tail,
      ReadsBack context depth element (node.printed.words ++ tail) tail
        fun answer => answer.map unplaced = some node)
    (fuel : Nat) :
    ReadsBack context depth (braced fuel element)
      ((joined (nodes.map printed)).braces.words ++ rest) rest
      fun answer => answer.map unplaced = nodes := by
  have words : (joined (nodes.map printed)).braces.words ++ rest = .fixed .openBrace ::
      (nodes.flatMap (fun node => node.printed.words) ++ .fixed .closeBrace :: rest) := by
    simp [braces, List.flatMap_map]
  rw [words]
  apply ReadsBack.expect (by rfl)
  have collected := @ReadsBack.collect_joined context depth (.fixed .closeBrace :: rest)
    (do
      if endsBody (← kind) then pure (none, false)
      else
        let element ← element
        pure (element, true))
    (fun node => node.printed.words) nodes
    (ReadsBack.kind_eq .closeBrace rfl (ReadsBack.pure rfl))
    (fun node member tail => by
      apply ReadsBack.kind
      rw [if_neg (not_endsBody ((begins node member).headKind_ne noBrace tail)
        ((begins node member).headKind_ne noEnd tail))]
      apply ReadsBack.bind (each node member tail)
      intro element same
      exact ReadsBack.pure ⟨same, rfl⟩) fuel
  apply ReadsBack.bind collected
  intro elements same
  apply ReadsBack.expect (by rfl)
  apply ReadsBack.clearDoc
  exact ReadsBack.pure same

theorem block_readsBack {stmts : List Node} (fits : ∀ stmt ∈ stmts, Fits .statement stmt)
    (restores : ∀ stmt ∈ stmts, grammar.Restores .statement context depth stmt) (fuel : Nat) :
    ReadsBack context depth (Parse.block fuel grammar)
      ((Printed.block (stmts.map printed)).words ++ rest) rest
      fun answer => answer.map unplaced = stmts := by
  have words : (Printed.block (stmts.map printed)).words =
      (joined (stmts.map printed)).braces.words := by
    simp [Printed.block, braces, List.flatMap_map]
  rw [words]
  exact braced_readsBack (fun stmt member => (fits stmt member).statement_begins) rfl rfl
    (fun stmt member tail => restores stmt member tail rfl) fuel

/-! ## Functions -/

theorem closureTail_readsBack {params uses stmts : List Node} {type : Option Node}
    (fitParams : ∀ param ∈ params, Fits .parameter param)
    (areCaptures : ∀ use ∈ uses, IsCapture use) (isType : ∀ node ∈ type, IsType node)
    (fitStmts : ∀ stmt ∈ stmts, Fits .statement stmt) (fuel : Nat)
    (eachParam : ∀ param ∈ params, ReadsItem context depth (parameter fuel grammar) param)
    (restores : ∀ stmt ∈ stmts, grammar.Restores .statement context depth stmt)
    (start : Nat) (static returnsRef : Bool) :
    ReadsBack context depth (closureTail fuel grammar start none static returnsRef)
      ((functionTail (params.map printed) (uses.map printed) (type.map printed)
        (stmts.map printed)).words ++ rest) rest
      fun answer => answer.unplaced = .closure params uses type stmts static returnsRef := by
  simp only [functionTail, words_append, List.append_assoc]
  apply ReadsBack.bind (parameters_readsBack fitParams fuel eachParam)
  intro readParams sameParams
  have ends : ∀ rest, Word.headKind ((ifAny (token .colon) (type.map printed)).words ++
      ((Printed.block (stmts.map printed)).words ++ rest)) = .colon ∨
      Word.headKind ((ifAny (token .colon) (type.map printed)).words ++
        ((Printed.block (stmts.map printed)).words ++ rest)) = .openBrace := by
    intro rest
    cases type with
    | none => exact Or.inr rfl
    | some type => exact Or.inl rfl
  apply ReadsBack.bind (captures_readsBack areCaptures fuel (ends rest))
  intro readUses sameUses
  apply ReadsBack.bind (returnType_readsBack isType fuel rfl)
  intro readType sameType
  apply ReadsBack.bind (block_readsBack fitStmts restores fuel)
  intro readStmts sameStmts
  rw [document_none]
  apply ReadsBack.finished
  intro position
  simp [Node.closure, Form.map, sameParams, sameUses, sameType, sameStmts]

theorem closure_readsBack {params uses stmts : List Node} {type : Option Node}
    (fitParams : ∀ param ∈ params, Fits .parameter param)
    (areCaptures : ∀ use ∈ uses, IsCapture use) (isType : ∀ node ∈ type, IsType node)
    (fitStmts : ∀ stmt ∈ stmts, Fits .statement stmt) (fuel : Nat)
    (eachParam : ∀ param ∈ params, ReadsItem context depth (parameter fuel grammar) param)
    (restores : ∀ stmt ∈ stmts, grammar.Restores .statement context depth stmt)
    (static returnsRef : Bool) :
    ReadsBack context depth (Parse.closure fuel grammar)
      ((Node.closure params uses type stmts static returnsRef).printed.words ++ rest) rest
      fun answer => answer.unplaced = .closure params uses type stmts static returnsRef := by
  simp only [printed_closure, words_append, List.append_assoc]
  apply ReadsBack.start
  intro start
  apply ReadsBack.takeDoc
  apply ReadsBack.eat_given (by simp)
  apply ReadsBack.expect (by rfl)
  apply ReadsBack.eat_given (by simp [functionTail, listed, parens])
  exact closureTail_readsBack fitParams areCaptures isType fitStmts fuel eachParam restores start
    static returnsRef

theorem methodBody_readsBack {stmts : List Node} (fits : ∀ stmt ∈ stmts, Fits .statement stmt)
    (restores : ∀ stmt ∈ stmts, grammar.Restores .statement context depth stmt) (fuel : Nat) :
    ReadsBack context depth (methodBody fuel grammar)
      ((Printed.block (stmts.map printed)).words ++ rest) rest
      fun answer => answer.map unplaced = stmts := by
  apply ReadsBack.eat_missing (by simp [Printed.block, braces])
  exact block_readsBack fits restores fuel

theorem signature_readsBack {α : Type} {functionName : Node} {params stmts : List Node}
    {type : Option Node} {next : Option Node → List Node → Option Node → Parse α} {post : α → Prop}
    {expected : Expected} {after : List Word} (isIdentifier : IsIdentifier functionName)
    (fitParams : ∀ param ∈ params, Fits .parameter param) (isType : ∀ node ∈ type, IsType node)
    (fuel : Nat)
    (eachParam : ∀ param ∈ params, ReadsItem context depth (parameter fuel grammar) param)
    (then_ : ∀ readName readParams readType, readName.unplaced = functionName →
      readParams.map unplaced = params → readType.map unplaced = type →
      ReadsBack context depth (next (some readName) readParams readType)
        ((Printed.block (stmts.map printed)).words ++ rest) after post) :
    ReadsBack context depth
      (do
        let functionName ← identifier expected
        let params ← parameters fuel grammar
        let type ← returnType fuel
        next functionName params type)
      (functionName.printed.words ++ ((functionTail (params.map printed) [] (type.map printed)
        (stmts.map printed)).words ++ rest)) after post := by
  simp only [functionTail, before, List.isEmpty_nil, if_true, words_append, List.append_assoc,
    List.nil_append]
  apply ReadsBack.bind_some (identifier_readsBack isIdentifier expected)
  intro readName sameName
  apply ReadsBack.bind (parameters_readsBack fitParams fuel eachParam)
  intro readParams sameParams
  apply ReadsBack.bind (returnType_readsBack isType fuel rfl)
  intro readType sameType
  exact then_ readName readParams readType sameName sameParams sameType

theorem method_readsBack {methodName : Node} {modifiers readModifiers params stmts : List Node}
    {type : Option Node} (sameModifiers : readModifiers.map unplaced = modifiers)
    (isIdentifier : IsIdentifier methodName) (fitParams : ∀ param ∈ params, Fits .parameter param)
    (isType : ∀ node ∈ type, IsType node) (fitStmts : ∀ stmt ∈ stmts, Fits .statement stmt)
    (fuel : Nat)
    (eachParam : ∀ param ∈ params, ReadsItem context depth (parameter fuel grammar) param)
    (restores : ∀ stmt ∈ stmts, grammar.Restores .statement context depth stmt)
    (start : Nat) (returnsRef : Bool) :
    ReadsBack context depth (method fuel grammar start [] readModifiers)
      (.fixed (.keyword .function) :: ((given (some returnsRef) (token .ampersand)).words ++
        (methodName.printed.words ++ ((functionTail (params.map printed) [] (type.map printed)
          (stmts.map printed)).words ++ rest)))) rest
      fun answer => answer.unplaced =
        .classMethod (some methodName) modifiers returnsRef params type stmts := by
  apply ReadsBack.takeDoc
  apply ReadsBack.advance
  apply ReadsBack.eat_given (isIdentifier.begins.headKind_ne rfl _)
  apply signature_readsBack isIdentifier fitParams isType fuel eachParam
  intro readName readParams readType sameName sameParams sameType
  apply ReadsBack.bind (methodBody_readsBack fitStmts restores fuel)
  intro readStmts sameStmts
  simp only [document_none, prependComments_nil]
  apply ReadsBack.finished
  intro position
  simp [Node.classMethod, Form.map, sameModifiers, sameName, sameParams, sameType, sameStmts]

theorem member_readsBack {methodName : Node} {modifiers params stmts : List Node}
    {type : Option Node} (isIdentifier : IsIdentifier methodName)
    (areModifiers : ∀ modifier ∈ modifiers, IsLeaf .identifier TokenKind.isModifier modifier)
    (fitParams : ∀ param ∈ params, Fits .parameter param) (isType : ∀ node ∈ type, IsType node)
    (fitStmts : ∀ stmt ∈ stmts, Fits .statement stmt) (fuel : Nat)
    (eachParam : ∀ param ∈ params, ReadsItem context depth (parameter fuel grammar) param)
    (restores : ∀ stmt ∈ stmts, grammar.Restores .statement context depth stmt)
    (returnsRef : Bool) :
    ReadsBack context depth (member fuel grammar)
      ((Node.classMethod (some methodName) modifiers returnsRef params type stmts).printed.words ++
        rest) rest
      fun answer => answer.map unplaced =
        some (.classMethod (some methodName) modifiers returnsRef params type stmts) := by
  simp only [printed_method, words_append, List.append_assoc, words_token, List.cons_append,
    List.nil_append]
  apply ReadsBack.start
  intro start
  apply ReadsBack.takeComments
  apply ReadsBack.bind (modifiers_readsBack areModifiers fuel rfl)
  intro readModifiers sameModifiers
  apply ReadsBack.kind_eq (.keyword .function) rfl
  rw [if_pos rfl]
  apply ReadsBack.found
  exact method_readsBack sameModifiers isIdentifier fitParams isType fitStmts fuel eachParam
    restores start returnsRef

/-! ## Classes -/

section Classes
variable {modifiers args interfaces stmts : List Node} {extended : Option Node} {fuel : Nat}

theorem classBody_readsBack (fits : ∀ stmt ∈ stmts, Fits .method stmt)
    (restores : ∀ stmt ∈ stmts, grammar.Restores .member context depth stmt) :
    ReadsBack context depth (classBody fuel grammar)
      ((joined (stmts.map printed)).braces.words ++ rest) rest
      fun answer => answer.map unplaced = stmts :=
  braced_readsBack (fun stmt member => (fits stmt member).method_begins) rfl rfl
    (fun stmt member tail => restores stmt member tail rfl) fuel

theorem headKind_before_class (items : List Printed) (list : Printed) (stmts : List Printed)
    (rest : List Word) :
    Word.headKind ((before (token (.keyword .implements)) items list).words ++
        ((joined stmts).braces.words ++ rest)) = .keyword .implements ∨
      Word.headKind ((before (token (.keyword .implements)) items list).words ++
        ((joined stmts).braces.words ++ rest)) = .openBrace := by
  cases items with
  | nil => exact Or.inr rfl
  | cons first others => exact Or.inl rfl

theorem classTail_readsBack {α : Type}
    {next : Option Node → List Node → List Node → Parse α} {post : α → Prop} {after : List Word}
    (isName : ∀ name ∈ extended, IsName name) (areNames : ∀ name ∈ interfaces, IsName name)
    (fits : ∀ stmt ∈ stmts, Fits .method stmt)
    (restores : ∀ stmt ∈ stmts, grammar.Restores .member context depth stmt)
    (then_ : ∀ readParent readInterfaces readStmts, readParent.map unplaced = extended →
      readInterfaces.map unplaced = interfaces → readStmts.map unplaced = stmts →
      ReadsBack context depth (next readParent readInterfaces readStmts) rest after post) :
    ReadsBack context depth
      (do
        let parent ← parent fuel
        let interfaces ← Parse.interfaces fuel
        let stmts ← classBody fuel grammar
        next parent interfaces stmts)
      ((classTail (extended.map printed) (interfaces.map printed)
        (stmts.map printed)).words ++ rest)
      after post := by
  simp only [classTail, words_append, List.append_assoc]
  apply ReadsBack.bind (parent_readsBack isName fuel (headKind_before_class ..))
  intro readParent sameParent
  apply ReadsBack.bind (interfaces_readsBack areNames fuel rfl)
  intro readInterfaces sameInterfaces
  apply ReadsBack.bind (classBody_readsBack fits restores)
  intro readStmts sameStmts
  exact then_ readParent readInterfaces readStmts sameParent sameInterfaces sameStmts

theorem classDeclaration_readsBack {className : Node} (isIdentifier : IsIdentifier className)
    (areModifiers : ∀ modifier ∈ modifiers, IsLeaf .identifier isClassModifier modifier)
    (isName : ∀ name ∈ extended, IsName name) (areNames : ∀ name ∈ interfaces, IsName name)
    (fits : ∀ stmt ∈ stmts, Fits .method stmt)
    (restores : ∀ stmt ∈ stmts, grammar.Restores .member context depth stmt) :
    ReadsBack context depth (classDeclaration fuel grammar)
      ((Node.bare
        (.classDecl (some className) modifiers [] extended interfaces stmts)).printed.words
        ++ rest) rest
      fun answer => answer.unplaced =
        .bare (.classDecl (some className) modifiers [] extended interfaces stmts) := by
  simp only [printed_class, words_append, List.append_assoc, words_token,
    List.cons_append, List.nil_append]
  apply ReadsBack.start
  intro start
  apply ReadsBack.takeDoc
  apply ReadsBack.bind (modifiers_readsBack areModifiers fuel rfl)
  intro readModifiers sameModifiers
  apply ReadsBack.expect (by rfl)
  apply ReadsBack.bind_some (identifier_readsBack isIdentifier _)
  intro readName sameName
  apply classTail_readsBack isName areNames fits restores
  intro readParent readInterfaces readStmts sameParent sameInterfaces sameStmts
  rw [document_none]
  apply ReadsBack.finished
  intro position
  simp [Form.map, sameModifiers, sameName, sameParent, sameInterfaces, sameStmts]

theorem anonymousClass_readsBack (fitArgs : ∀ arg ∈ args, Fits .argument arg)
    (eachArg : ∀ arg ∈ args, ReadsItem context depth (argument grammar) arg)
    (isName : ∀ name ∈ extended, IsName name) (areNames : ∀ name ∈ interfaces, IsName name)
    (fits : ∀ stmt ∈ stmts, Fits .method stmt)
    (restores : ∀ stmt ∈ stmts, grammar.Restores .member context depth stmt) :
    ReadsBack context depth (anonymousClass fuel grammar)
      ((Node.bare (.classDecl none [] args extended interfaces stmts)).printed.words ++ rest) rest
      fun answer =>
        answer.unplaced = .bare (.classDecl none [] args extended interfaces stmts) := by
  simp only [printed_anonymousClass, words_append, List.append_assoc, words_token,
    List.cons_append, List.nil_append]
  apply ReadsBack.start
  intro start
  apply ReadsBack.takeDoc
  apply ReadsBack.advance
  apply ReadsBack.bind (optionalArguments_readsBack fitArgs eachArg fuel)
  intro readArgs sameArgs
  apply classTail_readsBack isName areNames fits restores
  intro readParent readInterfaces readStmts sameParent sameInterfaces sameStmts
  rw [document_none]
  apply ReadsBack.finished
  intro position
  simp [Form.map, sameArgs, sameParent, sameInterfaces, sameStmts]

theorem instantiated_readsBack {scope : Node} (isInstantiated : IsInstantiated scope)
    (ends : Word.headKind rest = .openParen) :
    ReadsBack context depth (instantiated fuel) (scope.printed.words ++ rest) rest
      fun answer => answer.map unplaced = some scope := by
  apply ReadsBack.kind
  cases isInstantiated with
  | name isName =>
      rw [if_pos (isName.begins.headKind rest)]
      exact name_readsBack isName fuel (by simp [ends])
  | static isStatic =>
      have isKeyword := beq_iff_eq.mp (isStatic.begins.headKind rest)
      rw [isKeyword, if_neg (by decide), if_pos rfl]
      exact leaf_readsBack isStatic
  | «variable» isVariable =>
      rw [beq_iff_eq.mp (isVariable.begins.headKind rest), if_neg (by decide),
        if_neg (by decide), if_pos rfl]
      exact simpleVariable_readsBack isVariable

theorem instantiation_readsBack {scope : Node} (isInstantiated : IsInstantiated scope)
    (fitArgs : ∀ arg ∈ args, Fits .argument arg)
    (eachArg : ∀ arg ∈ args, ReadsItem context depth (argument grammar) arg) :
    ReadsBack context depth (instantiation fuel grammar)
      ((Node.bare (.new (some scope) args)).printed.words ++ rest) rest
      fun answer => answer.unplaced = .bare (.new (some scope) args) := by
  simp only [printed_new isInstantiated.isClass, words_append, List.append_assoc, words_token,
    List.cons_append, List.nil_append]
  apply ReadsBack.start
  intro start
  apply ReadsBack.advance
  apply ReadsBack.kind
  rw [if_neg]
  · apply ReadsBack.bind_some (instantiated_readsBack isInstantiated rfl)
    intro readScope sameScope
    apply ReadsBack.bind (optionalArguments_readsBack fitArgs eachArg fuel)
    intro readArgs sameArgs
    apply ReadsBack.finished
    intro position
    simp [Form.map, sameScope, sameArgs]
  · rcases isInstantiated with isName | isStatic | isVariable
    · exact isName.begins.headKind_ne rfl _
    · exact isStatic.begins.headKind_ne rfl _
    · exact isVariable.begins.headKind_ne rfl _

theorem instantiation_of_class_readsBack (fitArgs : ∀ arg ∈ args, Fits .argument arg)
    (eachArg : ∀ arg ∈ args, ReadsItem context depth (argument grammar) arg)
    (isName : ∀ name ∈ extended, IsName name) (areNames : ∀ name ∈ interfaces, IsName name)
    (fits : ∀ stmt ∈ stmts, Fits .method stmt)
    (restores : ∀ stmt ∈ stmts, grammar.Restores .member context depth stmt) :
    ReadsBack context depth (instantiation fuel grammar)
      ((Node.bare (.new (some (.bare (.classDecl none [] args extended interfaces stmts)))
        [])).printed.words ++ rest) rest
      fun answer => answer.unplaced =
        .bare (.new (some (.bare (.classDecl none [] args extended interfaces stmts))) []) := by
  rw [@printed_new_class (.bare (.classDecl ..)) rfl, words_append, List.append_assoc]
  apply ReadsBack.start
  intro start
  apply ReadsBack.advance
  apply ReadsBack.kind_eq (.keyword .class) (by simp [printed_anonymousClass])
  rw [if_pos rfl]
  apply ReadsBack.bind
    (anonymousClass_readsBack fitArgs eachArg isName areNames fits restores)
  intro readScope sameScope
  apply ReadsBack.finished
  intro position
  simp [Form.map, sameScope]

end Classes

end Parse
end PhpTree
