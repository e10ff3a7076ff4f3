import PhpTree.Proofs.Printing.Statements
import PhpTree.Proofs.Termination

/-! # Parsing what was printed

By induction on how a tree fits together, each of its nodes is recovered from its words;
so a printable tree comes back from its canonical source. -/
set_option autoImplicit false
namespace PhpTree

namespace Node
open Parse

/-- What is known of an expression: it recovers, and it does as an operand. -/
structure IsExpressionReadBack (context : Context) (node : Node) : Prop where
  recovers : RecoversNode context .expr node
  chains : ∀ called, ChainsTrailers context called (followsOperand called) node
  evaluates : RecoversNode context .statement (.bare (.expression (some node)))

variable {context : Context} {follows : TokenKind → Bool} {node : Node}

theorem IsExpressionReadBack.of_recovers (fits : Fits .expr node)
    (isRefClosure : node.isRefClosure = false)
    (recovers : RecoversNode context .expr node)
    (chains : ∀ called, node.isOperand called = true →
      ChainsTrailers context called (followsOperand called) node) :
        IsExpressionReadBack context node where
  recovers := recovers
  chains called := by
    by_cases isOperand : node.isOperand called = true
    · exact chains called isOperand
    · exact ChainsTrailers.of_recovers (Bool.eq_false_iff.mpr isOperand) recovers
  evaluates := RecoversNode.expression fits isRefClosure recovers

theorem IsExpressionReadBack.of_chains (fits : Fits .expr node)
    (isRefClosure : node.isRefClosure = false)
    (isOperand : node.isOperand false = true)
    (chains : ∀ called, node.isOperand called = true →
      ChainsTrailers context called (followsOperand called) node) :
        IsExpressionReadBack context node :=
  .of_recovers fits isRefClosure (RecoversNode.of_chains isOperand (chains false isOperand)) chains

theorem IsExpressionReadBack.of_readsWhole (fits : Fits .expr node)
    (isRefClosure : node.isRefClosure = false)
    (reads : ReadsWhole context (fun _ => true) node) : IsExpressionReadBack context node :=
  .of_recovers fits isRefClosure (RecoversNode.of_readsWhole (reads.mono fun _ _ => rfl))
    fun _ isOperand => ChainsTrailers.of_readsWhole isOperand (reads.mono fun _ _ => rfl)

theorem IsLeaf.isRefClosure {kind : LeafKind} {accepts : TokenKind → Bool}
    (isLeaf : IsLeaf kind accepts node) : node.isRefClosure = false := by
  cases isLeaf
  rfl

theorem IsVariable.isRefClosure (isVariable : IsVariable node) : node.isRefClosure = false := by
  cases isVariable
  rfl

theorem IsName.isOperand (isName : IsName node) (called : Bool) :
    node.isOperand called = true := by
  cases isName
  rfl

theorem IsExpressionReadBack.static (isStatic : IsStatic node) :
    IsExpressionReadBack context node := by
  have isOperand : ∀ called, node.isOperand called = true := by
    cases isStatic
    exact fun _ => rfl
  apply IsExpressionReadBack.of_chains (.static isStatic) isStatic.isRefClosure (isOperand false)
  intro called _
  apply ChainsTrailers.of_readsWhole (isOperand called)
  apply isStatic.readsWhole.mono
  rintro kind follows
  cases called <;> simp_all [followsOperand]

theorem IsExpressionReadBack.constant (isName : IsName node) :
    IsExpressionReadBack context (.bare (.constFetch (some node))) := by
  apply IsExpressionReadBack.of_recovers (.constant isName) rfl
    (RecoversNode.of_readsWhole isName.constant_readsWhole)
  intro called isOperand
  cases isOperand

theorem IsExpressionReadBack.of_access (fits : Fits .expr node)
    (isRefClosure : node.isRefClosure = false)
    (isOperand : ∀ called, node.isOperand called = !called)
    (chains : ChainsTrailers context false (followsOperand false) node) :
    IsExpressionReadBack context node := by
  apply IsExpressionReadBack.of_chains fits isRefClosure (isOperand false)
  intro called operand
  cases called with
  | false => exact chains
  | true => exact absurd (operand.symm.trans (isOperand true)) (by decide)

theorem IsExpressionReadBack.closure {params uses stmts : List Node} {type : Option Node}
    (static returnsRef : Bool) (fitParams : ∀ param ∈ params, Fits .parameter param)
    (areCaptures : ∀ use ∈ uses, IsCapture use) (isType : ∀ node ∈ type, IsType node)
    (fitStmts : ∀ stmt ∈ stmts, Fits .statement stmt)
    (reads : ∀ param ∈ params, ReadsParameter context param)
    (recovers : ∀ stmt ∈ stmts, RecoversNode context .statement stmt) :
    IsExpressionReadBack context (.closure params uses type stmts static returnsRef) := by
  have fits := Fits.closure static returnsRef fitParams areCaptures isType fitStmts
  have closure :
    RecoversNode context .expr (.closure params uses type stmts static returnsRef) := by
    apply RecoversNode.of_readsWhole
    exact (closure_readsWhole fitParams areCaptures isType fitStmts reads recovers).mono
      fun _ _ => rfl
  refine ⟨closure, fun called => ChainsTrailers.of_recovers rfl closure, ?_⟩
  by_cases isRefClosure :
      (Node.closure params uses type stmts static returnsRef).isRefClosure = true
  · cases static with
    | true => cases isRefClosure
    | false =>
        cases returnsRef with
        | true => exact RecoversNode.refClosure fitParams areCaptures isType fitStmts reads recovers
        | false => cases isRefClosure
  · exact RecoversNode.expression fits (Bool.eq_false_iff.mpr isRefClosure) closure

theorem ReadsArgument.mk {expr : Node} (variadic : Bool) (fits : Fits .expr expr)
    (recovers : RecoversNode context .expr expr) :
    ReadsArgument context (.argument (some expr) variadic) := by
  intro fuel depth room
  rw [printed_argument, Printed.levels_append] at room
  have room : depth + expr.printed.nested.levels ≤ context.options.maxDepth := by omega
  exact argument_readsBack fits (recovers fuel depth room) variadic

theorem ReadsParameter.mk {type initial : Option Node} {binding : Node} (byRef variadic : Bool)
    (isType : ∀ node ∈ type, IsType node) (isVariable : IsVariable binding)
    (recovers : ∀ expr ∈ initial, RecoversNode context .expr expr) :
    ReadsParameter context (.parameter type (some binding) initial byRef variadic) := by
  intro fuel depth room
  apply parameter_readsBack isType isVariable
  rintro expr rfl
  simp only [printed_parameter, Printed.levels_append, Option.map_some, Printed.ifAny] at room
  have room : depth + expr.printed.nested.levels ≤ context.options.maxDepth := by omega
  exact recovers expr rfl fuel depth room

end Node

open Node in
def Role.Restored (context : Context) : Role → Node → Prop
  | .expr => IsExpressionReadBack context
  | .callee => fun node => ∀ called, ChainsTrailers context called (followsCallee called) node
  | .argument => ReadsArgument context
  | .parameter => ReadsParameter context
  | .statement => RecoversNode context .statement
  | .method => RecoversNode context .member

theorem followsOperand_of_callee {called : Bool} {kind : TokenKind}
    (follows : followsCallee called kind = true) : followsOperand called kind = true := by
  cases called <;> simp_all [followsCallee, followsOperand]

open Node Parse in
/-- Every node comes back from its words. -/
theorem Fits.restored {role : Role} {node : Node} (fits : Fits role node) (context : Context) :
    role.Restored context node := by
  induction fits with
  | «variable» isVariable =>
      exact .of_readsWhole (.variable isVariable) isVariable.isRefClosure isVariable.readsWhole
  | computed name expressed =>
      exact .of_readsWhole (.computed name) rfl (expressed.recovers.computed_readsWhole name)
  | integer isLeaf =>
      apply IsExpressionReadBack.of_readsWhole (.integer isLeaf) isLeaf.isRefClosure
      intro fuel depth rest _ _
      apply ReadsBack.kind_eq .integer (beq_iff_eq.mp (isLeaf.begins.headKind rest))
      exact leaf_readsBack isLeaf
  | decimal isLeaf =>
      apply IsExpressionReadBack.of_readsWhole (.decimal isLeaf) isLeaf.isRefClosure
      intro fuel depth rest _ _
      apply ReadsBack.kind_eq .decimal (beq_iff_eq.mp (isLeaf.begins.headKind rest))
      exact leaf_readsBack isLeaf
  | string isLeaf =>
      apply IsExpressionReadBack.of_readsWhole (.string isLeaf) isLeaf.isRefClosure
      intro fuel depth rest _ _
      apply ReadsBack.kind_eq .string (beq_iff_eq.mp (isLeaf.begins.headKind rest))
      exact leaf_readsBack isLeaf
  | static isStatic => exact .static isStatic
  | constant isName => exact .constant isName
  | closure static returnsRef parameters captures type body reads recovers =>
      exact .closure static returnsRef parameters captures type body reads recovers
  | new isInstantiated arguments reads =>
      exact .of_readsWhole (.new isInstantiated arguments) rfl
        (new_readsWhole isInstantiated arguments reads)
  | anonymous arguments extends_ implements_ body reads recovers =>
      exact .of_readsWhole (.anonymous arguments extends_ implements_ body) rfl
        (anonymous_readsWhole arguments extends_ implements_ body reads recovers)
  | functionCall called arguments chains reads =>
      exact .of_chains (.functionCall called arguments) rfl rfl
        fun _ _ => .functionCall (chains true) arguments reads _
  | methodCall called isMember arguments expressed reads =>
      exact .of_chains (.methodCall called isMember arguments) rfl rfl
        fun _ _ => .methodCall (expressed.chains false) isMember arguments reads _
  | staticCall called isMember arguments chains reads =>
      exact .of_chains (.staticCall called isMember arguments) rfl rfl
        fun _ _ => .staticCall (chains false) isMember arguments reads _
  | property accessed isMember expressed =>
      exact .of_access (.property accessed isMember) rfl (fun _ => rfl)
        (.property (expressed.chains false) isMember)
  | staticProperty accessed isVariable chains =>
      exact .of_access (.staticProperty accessed isVariable) rfl (fun _ => rfl)
        (.staticProperty (chains false) isVariable)
  | classConstant accessed isIdentifier chains =>
      exact .of_access (.classConstant accessed isIdentifier) rfl (fun _ => rfl)
        (.classConstant (chains false) isIdentifier)
  | assign mode assigned value target source =>
      apply IsExpressionReadBack.of_recovers (.assign mode assigned value) rfl
      · exact .assign mode (target.chains false) value source.recovers
      · intro called isOperand
        cases isOperand
  | calledExpr expr expressed =>
      exact fun called => (expressed.chains called).mono fun _ => followsOperand_of_callee
  | calledName isName =>
      intro called
      apply ChainsTrailers.of_readsWhole (isName.isOperand called)
      apply isName.readsWhole.mono
      intro kind follows
      cases called <;> simp_all [followsCallee]
  | argument variadic value expressed => exact .mk variadic value expressed.recovers
  | parameter byRef variadic typed isVariable default expressed =>
      exact .mk byRef variadic typed isVariable fun node member =>
        (expressed node member).recovers
  | expression evaluated expressed => exact expressed.evaluates
  | block body recovers => exact .block body recovers
  | function returnsRef isIdentifier parameters type body reads recovers =>
      exact .function returnsRef isIdentifier parameters type body reads recovers
  | «class» isIdentifier areModifiers extends_ implements_ body recovers =>
      exact .class isIdentifier areModifiers extends_ implements_ body recovers
  | throw thrown expressed => exact .throw thrown expressed.recovers
  | «return» returned expressed =>
      exact .return returned fun node member => (expressed node member).recovers
  | echo printed expressed =>
      exact .echo printed fun node member => (expressed node member).recovers
  | method returnsRef isIdentifier areModifiers parameters type body reads recovers =>
      exact .method returnsRef isIdentifier areModifiers parameters type body reads recovers

/-! ## Whole sources -/

namespace Parse
open Node

variable {context : Context} {stmts : List Node}

theorem topLevel_openTag {depth fuel : Nat} {tag : Word} {rest : List Word}
    (isTag : tag.kind = .openTag) :
    ReadsBack context depth (topLevel (Grammar.closed fuel)) (tag :: rest) rest
      (· = (none, true)) := by
  have first : Word.headKind (tag :: rest) = .openTag := isTag
  have tagged : ReadsBack context depth (Grammar.closed fuel .statement) (tag :: rest) rest
      (· = none) := by
    cases fuel with
    | zero => exact ReadsBack.out fun _ => rfl
    | succ fuel =>
        apply ReadsBack.kind_eq .openTag first
        apply ReadsBack.advance
        exact ReadsBack.pure rfl
  apply ReadsBack.kind_eq .openTag first
  apply ReadsBack.bind tagged
  rintro _ rfl
  exact ReadsBack.pure rfl

theorem topLevel_statement {depth fuel : Nat} {rest : List Word} {stmt : Node}
    (fits : Fits .statement stmt)
    (restores : (Grammar.closed fuel).Restores .statement context depth stmt) :
    ReadsBack context depth (topLevel (Grammar.closed fuel)) (stmt.printed.words ++ rest) rest
      fun answer => answer.1.map unplaced = some stmt ∧ answer.2 = true := by
  have starts := fits.statement_begins
  apply ReadsBack.kind
  split
  · exact absurd ‹_› (starts.headKind_ne rfl rest)
  · exact absurd ‹_› (starts.headKind_ne rfl rest)
  · apply ReadsBack.bind (restores rest rfl)
    intro answer same
    exact ReadsBack.pure ⟨same, rfl⟩

theorem collect_topLevel (fits : ∀ stmt ∈ stmts, Fits .statement stmt)
    (room : (Printed.joined (stmts.map fun stmt => stmt.printed.nested)).levels ≤
      context.options.maxDepth)
    {tag : Word} (isTag : tag.kind = .openTag) (fuel : Nat) :
    ReadsBack context 0 (collect fuel (topLevel (Grammar.closed fuel)))
      (tag :: stmts.flatMap fun stmt => stmt.printed.words) []
      fun answer => answer.map unplaced = stmts := by
  have stops : ReadsBack.StopsRound context 0 (topLevel (Grammar.closed fuel)) [] :=
    ReadsBack.kind_eq .eof rfl (ReadsBack.pure rfl)
  have each : ∀ stmt ∈ stmts, ∀ others,
      ReadsBack.Finds context 0 (topLevel (Grammar.closed fuel))
        (fun nodes => nodes.flatMap (fun stmt => stmt.printed.words) ++ []) stmt others := by
    intro stmt member
    have below := Printed.levels_le_joined
      (List.mem_map_of_mem (f := fun stmt => stmt.printed.nested) member)
    apply ReadsBack.finds_joined stops
    intro tail
    exact topLevel_statement (fits stmt member) ((fits stmt member).restored context fuel 0
      (by simp only [Phrase.printed]; omega))
  have tagged : ReadsBack context 0 (collectStep (topLevel (Grammar.closed fuel)) [])
      (tag :: stmts.flatMap fun stmt => stmt.printed.words)
      (stmts.flatMap fun stmt => stmt.printed.words) (· = ([], true)) := by
    apply ReadsBack.bind (topLevel_openTag isTag)
    rintro _ rfl
    exact ReadsBack.pure rfl
  have collected : ReadsBack context 0
      (loop (collectStep (topLevel (Grammar.closed fuel))) fuel [])
      (tag :: stmts.flatMap fun stmt => stmt.printed.words) []
      fun answer => answer.reverse.map unplaced = stmts := by
    apply ReadsBack.loop tagged
    · rintro rounds _ ⟨⟩
      simpa using ReadsBack.loop_collects stmts (fun _ => stops) each [] rounds
    · rintro _ ⟨⟩
  apply ReadsBack.bind collected
  intro answer same
  exact ReadsBack.pure same

theorem program_readsBack {fuel : Nat} {cursor : Cursor}
    {tag : Word} {program : Program} {last : Cursor}
    (run : Parse.program fuel (Grammar.closed fuel) context cursor = some (program, last))
    (fits : ∀ stmt ∈ stmts, Fits .statement stmt)
    (room : (Printed.joined (stmts.map fun stmt => stmt.printed.nested)).levels ≤
      context.options.maxDepth)
    (isTag : tag.kind = .openTag)
    (faces : cursor.FacesWords (tag :: stmts.flatMap fun stmt => stmt.printed.words) 0) :
    program.errors = [] ∧ program.root.unplaced = .bare (.stmtList stmts) := by
  obtain ⟨read, between, collected, root, errors, _⟩ := Parse.program_eq_some.mp run
  obtain ⟨same, faces⟩ := (collect_topLevel fits room isTag fuel cursor faces).of_run collected
  rw [errors, root, faces.clean, faces.comments, unplaced_mk]
  exact ⟨rfl, congrArg (fun stmts => Node.bare (.stmtList stmts)) same⟩

end Parse

/-- Without comments, every token is an item of its own. -/
theorem Item.gather_of_significant {tokens : List Token}
    (significant : ∀ token ∈ tokens, token.isSignificant = true) :
    Item.gather tokens = tokens.map fun token => { token } := by
  induction tokens with
  | nil => rfl
  | cons token tokens inductionHypothesis =>
      have plain : token.kind.isTrivia = false ∧ token.isUnterminatedComment = false := by
        simpa [Token.isSignificant] using significant token (List.mem_cons_self ..)
      rw [Item.gather_cons, inductionHypothesis fun token member =>
        significant token (.tail _ member)]
      cases tokens <;> simp [Item.place, plain]

theorem Token.kind_of_source {tokens : List Token} {tag : Word} {words : List Word}
    (isTag : tag.kind = .openTag) (scan : ∀ word ∈ words, word.ScansAsItself)
    (spelled : tokens.map Token.word = tag :: words ++ [⟨.eof, ""⟩]) :
    ∀ token ∈ tokens, token.kind.isPlain = true ∨ token.kind = .openTag ∨ token.kind = .eof := by
  intro token member
  have word := List.mem_map_of_mem (f := Token.word) member
  simp only [spelled, List.cons_append, List.mem_cons, List.mem_append, List.not_mem_nil,
    or_false] at word
  rcases word with same | inside | same
  · exact Or.inr (Or.inl ((congrArg Word.kind same).trans isTag))
  · exact Or.inl (scan _ inside).plain
  · exact Or.inr (Or.inr (congrArg Word.kind same))

theorem Token.isSignificant_of_kind {token : Token}
    (kind : token.kind.isPlain = true ∨ token.kind = .openTag ∨ token.kind = .eof) :
    token.isSignificant = true := by
  have noComment : token.kind.isTrivia = false ∧ token.kind ≠ .error := by
    rcases kind with plain | opens | ends
    · cases found : token.kind <;> simp_all [TokenKind.isPlain, TokenKind.isTrivia]
    · simp [opens, TokenKind.isTrivia]
    · simp [ends, TokenKind.isTrivia]
  simp [Token.isSignificant, Token.isUnterminatedComment, noComment]

namespace Parser

theorem ofSource_faces {words : List Word} (scan : ∀ word ∈ words, word.ScansAsItself)
    (options : Options) :
    ∃ tag : Word, tag.kind = .openTag ∧
      (ofSource options (Word.source words)).cursor.FacesWords (tag :: words) 0 := by
  obtain ⟨tag, isTag, spelled⟩ := Lexer.tokens_source scan options.shortTags
  have gathered := Item.gather_of_significant fun token member =>
    Token.isSignificant_of_kind (Token.kind_of_source isTag scan spelled token member)
  cases tokens : (Lexer.ofSource options.shortTags (Word.source words)).tokens with
  | nil => simp [tokens] at spelled
  | cons token others =>
      rw [tokens] at spelled gathered
      have cursor : (ofSource options (Word.source words)).cursor =
          { current := { token }, following := others.map fun token => { token } } := by
        unfold ofSource
        rw [tokens, gathered]
        cases others <;> rfl
      rw [cursor]
      refine ⟨tag, isTag, ?_, ?_, rfl, rfl, rfl⟩
      · simpa [Cursor.tokens, Function.comp_def] using spelled
      · intro item member
        rcases List.mem_cons.mp member with rfl | member
        · exact ⟨rfl, rfl⟩
        · obtain ⟨other, _, rfl⟩ := List.mem_map.mp member
          exact ⟨rfl, rfl⟩

end Parser

/-- Statements that fit come back from their canonical source. -/
theorem parse_source_of_fits {stmts : List Node} (fits : ∀ stmt ∈ stmts, Fits .statement stmt)
    (options : Options)
    (room : (Node.bare (.stmtList stmts)).program.levels ≤ options.maxDepth) :
    ∃ program, parse options (Node.bare (.stmtList stmts)).source = some program ∧
      program.errors = [] ∧ program.root.unplaced = .bare (.stmtList stmts) := by
  have words : (Node.bare (.stmtList stmts)).program.words =
      stmts.flatMap fun stmt => stmt.printed.words := by
    show (Printed.joined (stmts.map fun stmt => stmt.printed.nested)).words = _
    simp [List.flatMap_map]
  have scan : ∀ word ∈ stmts.flatMap fun stmt => stmt.printed.words, word.ScansAsItself := by
    intro word member
    obtain ⟨stmt, inside, printed⟩ := List.mem_flatMap.mp member
    exact (fits stmt inside).scansWhole word printed
  obtain ⟨tag, isTag, faces⟩ := Parser.ofSource_faces scan options
  obtain ⟨wf, _⟩ := Parser.ofSource_cursor options
    (Word.source (stmts.flatMap fun stmt => stmt.printed.words))
  obtain ⟨program, last, fuel, run⟩ := Parser.ends_of_no_closeTag wf (by
    intro token member isClose
    have kind := Token.kind_of_source isTag scan faces.ahead token member
    simp [isClose, TokenKind.isPlain] at kind)
  rw [Node.source, words]
  exact ⟨program, parse_of_endsIn ⟨fuel, run⟩, Parse.program_readsBack run fits room isTag faces⟩

/-- A printable tree comes back from its canonical source, and nothing is reported, if its
statements and expressions are nested no deeper than the parse allows. -/
theorem parse_source_of_printable (tree : Node) (printable : tree.IsPrintable)
    (options : Options) (room : tree.program.levels ≤ options.maxDepth) :
    ∃ program, parse options tree.source = some program ∧ program.errors = [] ∧
      program.root.unplaced = tree := by
  cases printable with
  | mk fits => exact parse_source_of_fits fits options room

theorem parse_source_of_printable_compound :
    ∃ tree : Node, tree.IsPrintable ∧ tree.program.levels ≤ ({} : Options).maxDepth ∧
      tree.source = bytesOf "<?php $n += f ( 1 ) ;" ∧
      ∃ program, parse {} tree.source = some program ∧ program.errors = [] ∧
        program.root.unplaced = tree := by
  have target : Fits .expr (.bare (.variableRef (some (.leaf .identifier "$n")))) :=
    .variable (.mk (.mk ⟨by decide +kernel, by decide +kernel⟩))
  have callee : Fits .callee (.bare (.name .unqualified [.leaf .namePart "f"])) :=
    .calledName (.mk (.mk ⟨by decide +kernel, by decide +kernel⟩) (by simp))
  have argument : Fits .argument (.argument (some (.leaf .integer "1")) false) :=
    .argument false (.integer (.mk ⟨by decide +kernel, by decide +kernel⟩))
  have source : Fits .expr _ := .functionCall callee (List.forall_mem_singleton.mpr argument)
  have statement : Fits .statement _ := .expression (.assign (.compound .plus) target source)
  have printable : Node.IsPrintable _ := .mk (List.forall_mem_singleton.mpr statement)
  refine ⟨_, printable, ?_, ?_, parse_source_of_printable _ printable {} ?_⟩
  all_goals decide +kernel

end PhpTree
