import PhpTree.Proofs.Printing.Declarations

/-! # Operands in front of what follows them

The operand of the innermost call or access comes first in the words, so the node of
a chain is complete only after a number of rounds.  `ChainsTrailers` says that reading gets to
the loop with the node in hand; an expression recovers from its words when, having got
there, it finds nothing more to do. -/
set_option autoImplicit false
namespace PhpTree

namespace Parse

/-- An operand with all calls and accesses after it. -/
def operandThen (fuel : Nat) (grammar : Grammar) (start : Nat) : Parse (Option Node) := do
  match ← primary fuel grammar with
  | none => pure none
  | some operand => some <$> trailers fuel grammar start operand

def maybeAssigned (grammar : Grammar) (start : Nat) : Option Node → Parse (Option Node)
  | none => pure none
  | some target => some <$> assignment grammar start target

theorem exprBody_eq (fuel : Nat) (grammar : Grammar) :
    exprBody fuel grammar =
      (do
        let start ← start
        let target ← operandThen fuel grammar start
        maybeAssigned grammar start target) := by
  funext context cursor
  show (primary fuel grammar context cursor).bind _ =
    ((primary fuel grammar context cursor).bind _).bind _
  rw [Option.bind_assoc]
  congr 1
  funext ⟨operand, after⟩
  cases operand with
  | none => rfl
  | some operand =>
      show (trailers fuel grammar cursor.start operand context after).bind _ =
        ((trailers fuel grammar cursor.start operand context after).bind _).bind _
      rw [Option.bind_assoc]
      rfl

end Parse

/-- What is open at once when the phrase is read. -/
def Phrase.printed (node : Node) : Phrase → Printed
  | .expr | .statement => node.printed.nested
  | .primary | .member => node.printed

namespace Node

/-- With room enough, the node comes back from its words. -/
def RecoversNode (context : Context) (phrase : Phrase) (node : Node) : Prop :=
  ∀ fuel depth, depth + (phrase.printed node).levels ≤ context.options.maxDepth →
    (Grammar.closed fuel).Restores phrase context depth node

/-- Reading gets past the words of the operand with the node in hand, before anything that may
follow, and goes on from there. -/
def ChainsTrailers (context : Context) (called : Bool) (follows : TokenKind → Bool)
    (node : Node) : Prop :=
  ∀ fuel depth rest start after (post : Option Node → Prop),
    depth + (node.operand called).levels ≤ context.options.maxDepth →
    follows (Word.headKind rest) = true →
    (∀ rounds operand, operand.unplaced = node →
      ReadsBack context depth
        (Parse.loop (Parse.trailer fuel (Grammar.closed fuel) start) rounds operand) rest after
        fun target => post (some target)) →
    ReadsBack context depth (Parse.operandThen fuel (Grammar.closed fuel) start)
      ((node.operand called).words ++ rest) after post

def ReadsArgument (context : Context) (node : Node) : Prop :=
  ∀ fuel depth, depth + node.printed.levels ≤ context.options.maxDepth →
    ReadsItem context depth (Parse.argument (Grammar.closed fuel)) node

def ReadsParameter (context : Context) (node : Node) : Prop :=
  ∀ fuel depth, depth + node.printed.levels ≤ context.options.maxDepth →
    ReadsItem context depth (Parse.parameter fuel (Grammar.closed fuel)) node

def ReadsWhole (context : Context) (follows : TokenKind → Bool) (node : Node) : Prop :=
  ∀ fuel depth rest, depth + node.printed.levels ≤ context.options.maxDepth →
    follows (Word.headKind rest) = true →
    ReadsBack context depth (Parse.primary fuel (Grammar.closed fuel)) (node.printed.words ++ rest)
      rest fun answer => answer.map unplaced = some node

end Node

/-- What may follow an operand that is called, or one that is not. -/
def followsOperand (called : Bool) (kind : TokenKind) : Bool :=
  if called then kind == .openParen else kind != .openParen && kind != .keyword .function

def followsCallee (called : Bool) (kind : TokenKind) : Bool :=
  if called then kind == .openParen else kind == .doubleColon

namespace Parse
open Node Printed

variable {context : Context} {depth : Nat} {rest : List Word} {grammar : Grammar} {node : Node}

def endsTrailers : TokenKind → Bool
  | .openParen | .arrow | .nullSafeArrow | .doubleColon => false
  | kind => kind != .keyword .function

theorem endsTrailers_of_endsExpr {kind : TokenKind} (ends : endsExpr kind = true) :
    endsTrailers kind = true := by
  unfold endsExpr at ends
  split at ends <;> first | rfl | cases ends

theorem followsOperand_of_endsTrailers {kind : TokenKind} (ends : endsTrailers kind = true) :
    followsOperand false kind = true := by
  have noParen : kind ≠ .openParen := by
    rintro rfl
    cases ends
  have noFunction : kind ≠ .keyword .function := by
    rintro rfl
    cases ends
  simp [followsOperand, noParen, noFunction]

theorem trailer_stops (ends : endsTrailers (Word.headKind rest) = true) (fuel start : Nat)
    (operand : Node) :
    ReadsBack context depth (trailer fuel grammar start operand) rest rest
      (· = (operand, false)) := by
  apply ReadsBack.kind
  split
  · simp_all [endsTrailers]
  · simp_all [endsTrailers]
  · simp_all [endsTrailers]
  · simp_all [endsTrailers]
  · exact ReadsBack.pure rfl

theorem trailers_stop (ends : endsTrailers (Word.headKind rest) = true) (fuel start : Nat)
    (operand : Node) (rounds : Nat) :
    ReadsBack context depth (loop (trailer fuel grammar start) rounds operand) rest rest
      (· = operand) := by
  apply ReadsBack.loop (trailer_stops ends fuel start operand)
  · rintro _ _ ⟨⟩
  · rintro _ ⟨⟩
    exact ⟨rfl, rfl⟩

theorem assignment_stops (ends : endsExpr (Word.headKind rest) = true) (start : Nat)
    (target : Node) :
    ReadsBack context depth (assignment grammar start target) rest rest (· = target) := by
  apply ReadsBack.kind
  split
  · simp_all [endsExpr]
  · simp_all [endsExpr]
  · exact ReadsBack.pure rfl

theorem operandThen_readsBack {before after : List Word} {fuel start : Nat}
    {post : Option Node → Prop}
    (operand : ReadsBack context depth (primary fuel grammar) before rest
      fun answer => answer.map unplaced = some node)
    (loops : ∀ operand : Node, operand.unplaced = node →
      ReadsBack context depth (loop (trailer fuel grammar start) fuel operand) rest after
        fun target => post (some target)) :
    ReadsBack context depth (operandThen fuel grammar start) before after post := by
  apply ReadsBack.bind_some operand
  intro read same
  exact ReadsBack.map (loops read same)

end Parse

namespace Node
open Parse Printed

variable {context : Context} {called : Bool} {follows : TokenKind → Bool} {node : Node}

theorem ReadsWhole.mono {narrower : TokenKind → Bool} (reads : ReadsWhole context follows node)
    (narrow : ∀ kind, narrower kind = true → follows kind = true) :
    ReadsWhole context narrower node :=
  fun fuel depth rest room ends => reads fuel depth rest room (narrow _ ends)

theorem ChainsTrailers.mono {narrower : TokenKind → Bool}
    (chains : ChainsTrailers context called follows node)
    (narrow : ∀ kind, narrower kind = true → follows kind = true) :
    ChainsTrailers context called narrower node :=
  fun fuel depth rest start after post room ends =>
    chains fuel depth rest start after post room (narrow _ ends)

theorem ChainsTrailers.of_readsWhole (isOperand : node.isOperand called = true)
    (reads : ReadsWhole context follows node) : ChainsTrailers context called follows node := by
  intro fuel depth rest start after post room ends loops
  rw [operand_of_isOperand isOperand] at room ⊢
  exact operandThen_readsBack (reads fuel depth rest room ends) (loops fuel)

/-- In parentheses anything is an operand. -/
theorem ChainsTrailers.of_recovers (isOperand : node.isOperand called = false)
    (recovers : RecoversNode context .expr node) : ChainsTrailers context called follows node := by
  intro fuel depth rest start after post room ends loops
  rw [operand_of_not_isOperand isOperand] at room ⊢
  have room : depth + node.printed.nested.levels ≤ context.options.maxDepth := by
    simpa [parens] using room
  refine operandThen_readsBack ?_ (loops fuel)
  simp only [parens, words_append, words_token, words_nested, List.append_assoc,
    List.cons_append, List.nil_append]
  apply ReadsBack.kind_eq .openParen rfl
  apply ReadsBack.advance
  apply ReadsBack.bind_some (recovers fuel depth room _ rfl)
  intro read same
  apply ReadsBack.expect (by rfl)
  exact ReadsBack.pure (congrArg some same)

/-- A chain grows by a call or an access. -/
theorem ChainsTrailers.extend {callee : Node} {before : Bool} {wanted : TokenKind → Bool}
    {tail : Printed}
    (isOperand : node.isOperand called = true)
    (words : node.printed = callee.operand before ++ tail)
    (chains : ChainsTrailers context before wanted callee) (begins : tail.BeginsWith wanted)
    (access : ∀ fuel depth rest start operand,
      depth + tail.levels ≤ context.options.maxDepth → follows (Word.headKind rest) = true →
      operand.unplaced = callee →
      ReadsBack context depth (trailer fuel (Grammar.closed fuel) start operand)
        (tail.words ++ rest) rest fun answer => answer.1.unplaced = node ∧ answer.2 = true) :
    ChainsTrailers context called follows node := by
  intro fuel depth rest start after post room ends loops
  rw [operand_of_isOperand isOperand, words] at room ⊢
  rw [levels_append] at room
  rw [words_append, List.append_assoc]
  apply chains fuel depth _ start after post (by omega) (begins.headKind rest)
  intro rounds operand same
  apply ReadsBack.loop (access fuel depth rest start operand (by omega) ends same)
  · rintro rounds longer ⟨same, _⟩
    exact loops rounds longer same
  · rintro longer ⟨_, stopped⟩
    cases stopped

/-- A chain ends where no call and no access follows. -/
theorem ChainsTrailers.complete {fuel depth start : Nat} {rest : List Word}
    (chains : ChainsTrailers context false (followsOperand false) node)
    (room : depth + (node.operand false).levels ≤ context.options.maxDepth)
    (ends : Parse.endsTrailers (Word.headKind rest) = true) :
    ReadsBack context depth (operandThen fuel (Grammar.closed fuel) start)
      ((node.operand false).words ++ rest) rest fun answer => answer.map unplaced = some node := by
  apply chains fuel depth rest start rest _ room (followsOperand_of_endsTrailers ends)
  intro rounds operand same
  apply (trailers_stop ends fuel start operand rounds).mono
  rintro _ rfl
  exact congrArg some same

theorem RecoversNode.of_body
    (reads : ∀ fuel depth rest, depth + node.printed.levels ≤ context.options.maxDepth →
      endsExpr (Word.headKind rest) = true →
      ReadsBack context depth (exprBody fuel (Grammar.closed fuel)) (node.printed.words ++ rest)
        rest fun answer => answer.map unplaced = some node) :
    RecoversNode context .expr node := by
  intro fuel depth room rest ends
  have room : depth + (node.printed.levels + 1) ≤ context.options.maxDepth := room
  cases fuel with
  | zero => exact ReadsBack.out fun _ => rfl
  | succ fuel =>
      apply ReadsBack.deeper (by omega)
      exact reads fuel (depth + 1) rest (by omega) ends

/-- An operand is an expression when nothing more follows it. -/
theorem RecoversNode.of_operand
    (reads : ∀ fuel depth rest start, depth + node.printed.levels ≤ context.options.maxDepth →
      endsExpr (Word.headKind rest) = true →
      ReadsBack context depth (operandThen fuel (Grammar.closed fuel) start)
        (node.printed.words ++ rest) rest fun answer => answer.map unplaced = some node) :
    RecoversNode context .expr node := by
  apply RecoversNode.of_body
  intro fuel depth rest room ends
  rw [exprBody_eq]
  apply ReadsBack.start
  intro start
  apply ReadsBack.bind_some (reads fuel depth rest start room ends)
  intro read same
  apply ReadsBack.map
  apply (assignment_stops ends start read).mono
  rintro _ rfl
  exact congrArg some same

theorem RecoversNode.of_readsWhole (reads : ReadsWhole context endsExpr node) :
    RecoversNode context .expr node := by
  apply RecoversNode.of_operand
  intro fuel depth rest start room ends
  apply operandThen_readsBack (reads fuel depth rest room ends)
  intro operand same
  apply (trailers_stop (endsTrailers_of_endsExpr ends) fuel start operand fuel).mono
  rintro _ rfl
  exact congrArg some same

theorem RecoversNode.of_chains (isOperand : node.isOperand false = true)
    (chains : ChainsTrailers context false (followsOperand false) node) :
    RecoversNode context .expr node := by
  apply RecoversNode.of_operand
  intro fuel depth rest start room ends
  rw [← operand_of_isOperand isOperand] at room ⊢
  exact chains.complete room (endsTrailers_of_endsExpr ends)

end Node
end PhpTree
