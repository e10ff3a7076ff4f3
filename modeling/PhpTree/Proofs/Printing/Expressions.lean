import PhpTree.Proofs.Printing.Names

/-! # Reading expressions back

What a grammar gives that reads expressions and statements back: arguments and
parameters, calls and accesses.  An operand and what follows it are not read by one
parser, since the operand of the innermost call comes first; so an operand is read
back in front of a loop that goes on from it. -/
set_option autoImplicit false
namespace PhpTree

def endsExpr : TokenKind → Bool
  | .semicolon | .comma | .closeParen | .closeBrace => true
  | _ => false

/-- Whether the phrase is over in front of a token; statements and members end by themselves. -/
def Phrase.mayEnd : Phrase → TokenKind → Bool
  | .expr | .primary => endsExpr
  | .statement | .member => fun _ => true

/-- The grammar reads the node back where the phrase may end. -/
def Grammar.Restores (grammar : Grammar) (phrase : Phrase) (context : Context) (depth : Nat)
    (node : Node) : Prop :=
  ∀ rest, phrase.mayEnd (Word.headKind rest) = true →
    ReadsBack context depth (grammar phrase) (node.printed.words ++ rest) rest
      fun answer => answer.map Node.unplaced = some node

def ReadsItem (context : Context) (depth : Nat) (round : Parse (Option Node × Bool)) (node : Node) :
    Prop :=
  ∀ tail, endsExpr (Word.headKind tail) = true →
    ReadsBack context depth round (node.printed.words ++ tail) (Word.afterComma tail)
      fun answer => answer.1.map Node.unplaced = some node ∧
        answer.2 = (Word.headKind tail == .comma)

namespace Parse
open Node Printed

variable {context : Context} {depth : Nat} {rest : List Word} {grammar : Grammar}

/-! ## Arguments and parameters -/

theorem listedExpr_readsBack {expr : Node}
    (restores : grammar.Restores .expr context depth expr) :
    ReadsItem context depth (listedExpr grammar) expr := by
  intro tail ends
  apply ReadsBack.bind_some (restores tail ends)
  intro read same
  apply ReadsBack.eat_comma
  exact ReadsBack.pure ⟨congrArg some same, rfl⟩

theorem exprList_readsBack {first : Node} {others : List Node}
    (restores : ∀ expr ∈ first :: others, grammar.Restores .expr context depth expr) (fuel : Nat)
    (ends : Word.headKind rest = .semicolon) :
    ReadsBack context depth (exprList fuel grammar)
      ((separated .comma ((first :: others).map fun expr => expr.printed.nested)).words ++
        rest) rest
      fun answer => answer.map unplaced = first :: others := by
  apply ReadsBack.collect_separated (by decide) ends
  · exact fun none => nomatch none
  · intro expr member tail ends
    apply listedExpr_readsBack (restores expr member)
    rcases ends with ends | ends <;> rw [ends] <;> rfl

theorem argument_readsBack {expr : Node} (value : Fits .expr expr)
    (restores : grammar.Restores .expr context depth expr) (variadic : Bool) :
    ReadsItem context depth (argument grammar) (.argument (some expr) variadic) := by
  intro tail ends
  rw [printed_argument, words_append, words_nested, List.append_assoc]
  apply ReadsBack.start
  intro start
  apply ReadsBack.eat_given (value.expr_begins.headKind_ne rfl tail)
  apply ReadsBack.bind_some (restores tail ends)
  intro read same
  apply ReadsBack.finish
  intro position
  apply ReadsBack.eat_comma
  apply ReadsBack.pure
  simp [Node.argument, Form.map, same]

theorem arguments_readsBack {args : List Node} (fits : ∀ arg ∈ args, Fits .argument arg)
    (each : ∀ arg ∈ args, ReadsItem context depth (argument grammar) arg) (fuel : Nat) :
    ReadsBack context depth (arguments fuel grammar)
      ((listed (args.map printed)).words ++ rest) rest
      fun answer => answer.map unplaced = args := by
  apply parenthesised_readsBack (fun arg member => (fits arg member).argument_begins) rfl rfl
  · intro arg member tail ends
    apply each arg member
    rcases ends with ends | ends <;> rw [ends] <;> rfl

theorem optionalArguments_readsBack {args : List Node} (fits : ∀ arg ∈ args, Fits .argument arg)
    (each : ∀ arg ∈ args, ReadsItem context depth (argument grammar) arg) (fuel : Nat) :
    ReadsBack context depth (optionalArguments fuel grammar)
      ((listed (args.map printed)).words ++ rest) rest
      fun answer => answer.map unplaced = args := by
  apply ReadsBack.kind_eq .openParen rfl
  rw [if_pos rfl]
  exact arguments_readsBack fits each fuel

theorem parameterType_readsBack {type : Option Node} (isType : ∀ node ∈ type, IsType node)
    (fuel : Nat) (ends : startsType (Word.headKind rest) = false) :
    ReadsBack context depth (parameterType fuel) ((required (type.map printed)).words ++ rest) rest
      fun answer => answer.map unplaced = type := by
  cases type with
  | none =>
      apply ReadsBack.kind
      rw [if_neg (by simpa [required] using ends)]
      exact ReadsBack.pure rfl
  | some type =>
      have noBackslash : Word.headKind rest ≠ .backslash := by
        intro same
        rw [same] at ends
        cases ends
      rw [Option.map_some, required, Option.getD_some]
      apply ReadsBack.kind
      rw [if_pos ((isType type rfl).begins.headKind rest)]
      exact type_readsBack (isType type rfl) fuel noBackslash

theorem parameterDefault_readsBack {initial : Option Node}
    (restores : ∀ expr ∈ initial, grammar.Restores .expr context depth expr)
    (ends : endsExpr (Word.headKind rest) = true) :
    ReadsBack context depth (parameterDefault grammar)
      ((ifAny (token .equals) (initial.map fun expr => expr.printed.nested)).words ++ rest) rest
      fun answer => answer.map unplaced = initial := by
  cases initial with
  | none =>
      have noMark : Word.headKind rest ≠ .equals := by
        intro same
        rw [same] at ends
        cases ends
      apply ReadsBack.eat_missing noMark
      exact ReadsBack.pure rfl
  | some expr =>
      apply ReadsBack.eat_found rfl
      exact restores expr rfl rest ends

theorem parameter_readsBack {type initial : Option Node} {binding : Node}
    (isType : ∀ node ∈ type, IsType node) (isVariable : IsVariable binding)
    (restores : ∀ expr ∈ initial, grammar.Restores .expr context depth expr)
    (byRef variadic : Bool) (fuel : Nat) :
    ReadsItem context depth (parameter fuel grammar)
      (.parameter type (some binding) initial byRef variadic) := by
  intro tail ends
  have named : binding.printed.BeginsWith (· == .variableName) := isVariable.begins
  have unmarked : ∀ tail, startsType (Word.headKind
      ((given (some byRef) (token .ampersand)).words ++
        ((given (some variadic) (token .ellipsis)).words ++ (binding.printed.words ++ tail)))) =
      false := by
    intro tail
    cases byRef with
    | true => rfl
    | false =>
        cases variadic with
        | true => rfl
        | false =>
            show startsType (Word.headKind (binding.printed.words ++ tail)) = false
            rw [beq_iff_eq.mp (named.headKind tail)]
            rfl
  have noMark : ∀ tail, Word.headKind
      ((given (some variadic) (token .ellipsis)).words ++ (binding.printed.words ++ tail)) ≠
      .ampersand := by
    intro tail
    cases variadic with
    | true => simp [given]
    | false => exact named.headKind_ne rfl tail
  simp only [printed_parameter, words_append, List.append_assoc]
  apply ReadsBack.start
  intro start
  apply ReadsBack.bind (parameterType_readsBack isType fuel (unmarked _))
  intro readType sameType
  apply ReadsBack.eat_given (noMark _)
  apply ReadsBack.eat_given (named.headKind_ne rfl _)
  apply ReadsBack.bind_some (simpleVariable_readsBack isVariable)
  intro readBinding sameBinding
  apply ReadsBack.bind (parameterDefault_readsBack restores ends)
  intro readInitial sameInitial
  apply ReadsBack.finish
  intro position
  apply ReadsBack.eat_comma
  apply ReadsBack.pure
  simp [Node.parameter, Form.map, sameType, sameBinding, sameInitial]

theorem parameters_readsBack {params : List Node} (fits : ∀ param ∈ params, Fits .parameter param)
    (fuel : Nat) (each : ∀ param ∈ params, ReadsItem context depth (parameter fuel grammar) param) :
    ReadsBack context depth (parameters fuel grammar) ((listed (params.map printed)).words ++ rest)
      rest fun answer => answer.map unplaced = params := by
  apply parenthesised_readsBack (fun param member => (fits param member).parameter_begins) rfl rfl
  · intro param member tail ends
    apply each param member
    rcases ends with ends | ends <;> rw [ends] <;> rfl

/-! ## Calls and accesses -/

theorem memberName_readsBack {node : Node} (isMember : IsMember node) (expected : Expected) :
    ReadsBack context depth (memberName expected) (node.printed.words ++ rest) rest
      fun answer => answer.map unplaced = some node := by
  apply ReadsBack.kind
  cases isMember with
  | identifier isIdentifier =>
      rw [if_neg (isIdentifier.begins.headKind_ne rfl rest)]
      exact identifier_readsBack isIdentifier expected
  | «variable» isVariable =>
      rw [if_pos (beq_iff_eq.mp (isVariable.begins.headKind rest))]
      exact simpleVariable_readsBack isVariable

section Accesses
variable {operand callee member node : Node} {args : List Node} {before : List Word}
  {fuel start : Nat}

theorem trailer_functionCall (same : operand.unplaced = callee)
    (fits : ∀ arg ∈ args, Fits .argument arg)
    (each : ∀ arg ∈ args, ReadsItem context depth (argument grammar) arg) :
    ReadsBack context depth (trailer fuel grammar start operand)
      ((listed (args.map printed)).words ++ rest) rest
      fun answer => answer.1.unplaced = .bare (.functionCall (some callee) args) ∧
        answer.2 = true := by
  apply ReadsBack.kind_eq .openParen rfl
  apply ReadsBack.bind (arguments_readsBack fits each fuel)
  intro readArgs sameArgs
  apply ReadsBack.finish
  intro position
  apply ReadsBack.pure
  simp [Form.map, same, sameArgs]

theorem trailer_arrow
    (access : ReadsBack context depth (memberAccess fuel grammar start operand) before rest
      fun answer => answer.unplaced = node) :
    ReadsBack context depth (trailer fuel grammar start operand) (.fixed .arrow :: before) rest
      fun answer => answer.1.unplaced = node ∧ answer.2 = true := by
  apply ReadsBack.kind_eq .arrow rfl
  apply ReadsBack.advance
  apply ReadsBack.bind access
  intro read same
  exact ReadsBack.pure ⟨same, rfl⟩

theorem trailer_doubleColon
    (access : ReadsBack context depth (staticAccess fuel grammar start operand) before rest
      fun answer => answer.unplaced = node) :
    ReadsBack context depth (trailer fuel grammar start operand) (.fixed .doubleColon :: before)
      rest fun answer => answer.1.unplaced = node ∧ answer.2 = true := by
  apply ReadsBack.kind_eq .doubleColon rfl
  apply ReadsBack.advance
  apply ReadsBack.bind access
  intro read same
  exact ReadsBack.pure ⟨same, rfl⟩

theorem memberAccess_methodCall (same : operand.unplaced = callee) (isMember : IsMember member)
    (fits : ∀ arg ∈ args, Fits .argument arg)
    (each : ∀ arg ∈ args, ReadsItem context depth (argument grammar) arg) :
    ReadsBack context depth (memberAccess fuel grammar start operand)
      (member.printed.words ++ ((listed (args.map printed)).words ++ rest)) rest
      fun answer => answer.unplaced = .bare (.methodCall (some callee) (some member) args) := by
  apply ReadsBack.bind_some (memberName_readsBack isMember _)
  intro readMember sameMember
  apply ReadsBack.kind_eq .openParen rfl
  rw [if_pos rfl]
  apply ReadsBack.bind (arguments_readsBack fits each fuel)
  intro readArgs sameArgs
  apply ReadsBack.finished
  intro position
  simp [Form.map, same, sameMember, sameArgs]

theorem memberAccess_property (same : operand.unplaced = callee) (isMember : IsMember member)
    (ends : Word.headKind rest ≠ .openParen) :
    ReadsBack context depth (memberAccess fuel grammar start operand)
      (member.printed.words ++ rest) rest
      fun answer => answer.unplaced = .bare (.propertyFetch (some callee) (some member)) := by
  apply ReadsBack.bind_some (memberName_readsBack isMember _)
  intro readMember sameMember
  apply ReadsBack.kind
  rw [if_neg ends]
  apply ReadsBack.finished
  intro position
  simp [Form.map, same, sameMember]

theorem staticAccess_call (same : operand.unplaced = callee) (isMember : IsMember member)
    (fits : ∀ arg ∈ args, Fits .argument arg)
    (each : ∀ arg ∈ args, ReadsItem context depth (argument grammar) arg) :
    ReadsBack context depth (staticAccess fuel grammar start operand)
      (member.printed.words ++ ((listed (args.map printed)).words ++ rest)) rest
      fun answer => answer.unplaced = .bare (.staticCall (some callee) (some member) args) := by
  apply ReadsBack.kind
  apply ReadsBack.bind_some (memberName_readsBack isMember _)
  intro readMember sameMember
  apply ReadsBack.kind_eq .openParen rfl
  rw [if_pos rfl]
  apply ReadsBack.bind (arguments_readsBack fits each fuel)
  intro readArgs sameArgs
  apply ReadsBack.finished
  intro position
  simp [Form.map, same, sameMember, sameArgs]

theorem staticAccess_property (same : operand.unplaced = callee) (isVariable : IsVariable member)
    (ends : Word.headKind rest ≠ .openParen) :
    ReadsBack context depth (staticAccess fuel grammar start operand)
      (member.printed.words ++ rest) rest
      fun answer => answer.unplaced = .bare (.staticPropertyFetch (some callee) (some member)) := by
  apply ReadsBack.kind_eq .variableName (beq_iff_eq.mp (isVariable.begins.headKind rest))
  apply ReadsBack.bind_some (memberName_readsBack (.variable isVariable) _)
  intro readMember sameMember
  apply ReadsBack.kind
  rw [if_neg ends, if_pos rfl]
  apply ReadsBack.finished
  intro position
  simp [Form.map, same, sameMember]

theorem staticAccess_constant (same : operand.unplaced = callee)
    (isIdentifier : IsIdentifier member) (ends : Word.headKind rest ≠ .openParen) :
    ReadsBack context depth (staticAccess fuel grammar start operand)
      (member.printed.words ++ rest) rest
      fun answer => answer.unplaced = .bare (.classConstFetch (some callee) (some member)) := by
  apply ReadsBack.kind
  apply ReadsBack.bind_some (memberName_readsBack (.identifier isIdentifier) _)
  intro readMember sameMember
  apply ReadsBack.kind
  rw [if_neg ends, if_neg (isIdentifier.begins.headKind_ne rfl rest)]
  apply ReadsBack.finished
  intro position
  simp [Form.map, same, sameMember]

end Accesses

end Parse
end PhpTree
