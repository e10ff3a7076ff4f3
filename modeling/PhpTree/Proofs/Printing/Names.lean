import PhpTree.Proofs.Printing.ReadBack

/-! # Reading names back

The phrases without expressions or statements inside, each read back from the words
it is printed as. -/
set_option autoImplicit false
namespace PhpTree
namespace Parse
open Node Printed

variable {context : Context} {depth : Nat} {rest : List Word}

theorem leaf_readsBack {kind : LeafKind} {accepts : TokenKind → Bool} {node : Node}
    (isLeaf : IsLeaf kind accepts node) :
    ReadsBack context depth (some <$> Parse.leaf kind) (node.printed.words ++ rest) rest
      fun answer => answer.map unplaced = some node := by
  cases isLeaf with
  | mk spells =>
      apply ReadsBack.someLeaf
      intro position
      simp [Word.ofText]

theorem identifier_readsBack {node : Node} (isIdentifier : IsIdentifier node)
    (expected : Expected) :
    ReadsBack context depth (identifier expected) (node.printed.words ++ rest) rest
      fun answer => answer.map unplaced = some node := by
  apply ReadsBack.kind
  rw [if_pos (isIdentifier.begins.headKind rest)]
  exact leaf_readsBack isIdentifier

theorem simpleVariable_readsBack {node : Node} (isVariable : IsVariable node) :
    ReadsBack context depth simpleVariable (node.printed.words ++ rest) rest
      fun answer => answer.map unplaced = some node := by
  cases isVariable with
  | mk isName =>
      rw [printed_variable isName.isVariableName]
      cases isName with
      | @mk text spells =>
          apply ReadsBack.start
          intro start
          apply ReadsBack.kind_eq (Word.ofText text).kind rfl
          rw [if_pos (beq_iff_eq.mp spells.accepted)]
          apply ReadsBack.leaf
          intro position
          apply ReadsBack.map
          apply ReadsBack.finished
          intro position
          simp [Form.map, Word.ofText]

theorem qualification_readsBack (form : Qualification) (first : Word.headKind rest = .identifier) :
    ReadsBack context depth qualification ((qualified form).words ++ rest) rest (· = form) := by
  cases form with
  | unqualified =>
      apply ReadsBack.kind_eq .identifier first
      exact ReadsBack.pure rfl
  | fullyQualified =>
      apply ReadsBack.kind_eq .backslash rfl
      apply ReadsBack.advance
      exact ReadsBack.pure rfl
  | relative =>
      apply ReadsBack.kind_eq (.keyword .namespace) rfl
      apply ReadsBack.nextKind_eq .backslash rfl
      rw [if_pos rfl]
      apply ReadsBack.advance
      apply ReadsBack.advance
      exact ReadsBack.pure rfl

theorem furtherPart_readsBack {part : Node} (isPart : IsLeaf .namePart TokenKind.isNameLike part) :
    ReadsBack context depth furtherPart (.fixed .backslash :: part.printed.words ++ rest) rest
      fun answer => answer.1.map unplaced = some part ∧ answer.2 = true := by
  cases isPart with
  | @mk text spells =>
      apply ReadsBack.kind_eq .backslash rfl
      apply ReadsBack.nextKind_eq (Word.ofText text).kind rfl
      rw [if_pos (by simp [spells.accepted])]
      apply ReadsBack.advance
      apply ReadsBack.leaf
      intro position
      apply ReadsBack.pure
      simp [Word.ofText]

theorem furtherPart_stops (ends : Word.headKind rest ≠ .backslash) :
    ReadsBack.StopsRound context depth furtherPart rest := by
  apply ReadsBack.kind
  apply ReadsBack.nextKind_any
  intro found
  rw [if_neg (by simp [ends])]
  exact ReadsBack.pure rfl

theorem name_readsBack {node : Node} (isName : IsName node) (fuel : Nat)
    (ends : Word.headKind rest ≠ .backslash) :
    ReadsBack context depth (name fuel) (node.printed.words ++ rest) rest
      fun answer => answer.map unplaced = some node := by
  cases isName with
  | @mk form first others isFirst areParts =>
      have words : (bare (.name form (first :: others))).printed.words ++ rest =
          (qualified form).words ++ (first.printed.words ++
            (others.flatMap (fun part => .fixed .backslash :: part.printed.words) ++ rest)) := by
        simp [printed_name, separated, List.flatMap_map]
      rw [words]
      apply ReadsBack.start
      intro start
      cases isFirst with
      | @mk text spells =>
          have isFirst : ∀ tail,
              Word.headKind ((Node.leaf .namePart text).printed.words ++ tail) = .identifier :=
            fun _ => beq_iff_eq.mp spells.accepted
          apply ReadsBack.bind (qualification_readsBack form (isFirst _))
          rintro _ rfl
          apply ReadsBack.kind_eq .identifier (isFirst _)
          rw [if_pos rfl]
          apply ReadsBack.leaf
          intro position
          apply ReadsBack.bind (ReadsBack.collect_joined (furtherPart_stops ends)
            (fun part member tail => furtherPart_readsBack (areParts part member)) fuel)
          intro parts same
          apply ReadsBack.map
          apply ReadsBack.finished
          intro position
          simp [Form.map, Word.ofText, same]

theorem className_readsBack {node : Node} (isName : IsName node) (fuel : Nat)
    (ends : Word.headKind rest ≠ .backslash) :
    ReadsBack context depth (className fuel) (node.printed.words ++ rest) rest
      fun answer => answer.map unplaced = some node := by
  apply ReadsBack.kind
  rw [if_pos (isName.begins.headKind rest)]
  exact name_readsBack isName fuel ends

theorem typeName_readsBack {node : Node} (isTypeName : IsTypeName node) (fuel : Nat)
    (ends : Word.headKind rest ≠ .backslash) :
    ReadsBack context depth (typeName fuel) (node.printed.words ++ rest) rest
      fun answer => answer.map unplaced = some node := by
  cases isTypeName with
  | static isStatic =>
      apply ReadsBack.kind
      rw [if_pos (beq_iff_eq.mp (isStatic.begins.headKind rest))]
      exact leaf_readsBack isStatic
  | name isName =>
      have starts := isName.begins.headKind rest
      have notStatic : Word.headKind (node.printed.words ++ rest) ≠ .keyword .static := by
        intro same
        rw [same] at starts
        cases starts
      apply ReadsBack.kind
      rw [if_neg notStatic, if_pos starts]
      exact name_readsBack isName fuel ends

theorem type_readsBack {node : Node} (isType : IsType node) (fuel : Nat)
    (ends : Word.headKind rest ≠ .backslash) :
    ReadsBack context depth (type fuel) (node.printed.words ++ rest) rest
      fun answer => answer.map unplaced = some node := by
  apply ReadsBack.start
  intro start
  cases isType with
  | plain isTypeName =>
      have starts := isTypeName.begins.headKind rest
      have noMark : Word.headKind (node.printed.words ++ rest) ≠ .question := by
        intro same
        rw [same] at starts
        cases starts
      apply ReadsBack.eat_missing noMark
      exact typeName_readsBack isTypeName fuel ends
  | nullable isTypeName =>
      rw [printed_nullable]
      apply ReadsBack.eat_found rfl
      apply ReadsBack.bind (typeName_readsBack isTypeName fuel ends)
      intro inner same
      apply ReadsBack.map
      apply ReadsBack.finished
      intro position
      simp [Form.map, same]

theorem returnType_readsBack {type : Option Node} (isType : ∀ node ∈ type, IsType node) (fuel : Nat)
    (ends : Word.headKind rest = .openBrace) :
    ReadsBack context depth (returnType fuel)
      ((ifAny (token .colon) (type.map printed)).words ++ rest) rest
      fun answer => answer.map unplaced = type := by
  cases type with
  | none =>
      apply ReadsBack.eat_missing (by simp [ifAny, ends])
      exact ReadsBack.pure rfl
  | some type =>
      apply ReadsBack.eat_found rfl
      exact type_readsBack (isType type rfl) fuel (by simp [ends])

theorem modifiers_readsBack {accepts : TokenKind → Bool} {nodes : List Node}
    (areModifiers : ∀ node ∈ nodes, IsLeaf .identifier accepts node) (fuel : Nat)
    (ends : accepts (Word.headKind rest) = false) :
    ReadsBack context depth (modifiers fuel accepts)
      ((joined (nodes.map printed)).words ++ rest) rest
      fun answer => answer.map unplaced = nodes := by
  rw [words_joined, List.flatMap_map]
  apply ReadsBack.collect_joined
  · apply ReadsBack.kind
    rw [if_neg (by simp [ends])]
    exact ReadsBack.pure rfl
  · intro node member tail
    cases areModifiers node member with
    | @mk text spells =>
        apply ReadsBack.kind_eq (Word.ofText text).kind rfl
        rw [if_pos spells.accepted]
        apply ReadsBack.leaf
        intro position
        apply ReadsBack.pure
        simp [Word.ofText]

theorem interface_readsBack {node : Node} (isName : IsName node) (fuel : Nat)
    {tail : List Word} (ends : Word.headKind tail = .comma ∨ Word.headKind tail = .openBrace) :
    ReadsBack context depth (interface fuel) (node.printed.words ++ tail) (Word.afterComma tail)
      fun answer => answer.1.map unplaced = some node ∧
        answer.2 = (Word.headKind tail == .comma) := by
  have noBackslash : Word.headKind tail ≠ .backslash := by
    rcases ends with ends | ends <;> simp [ends]
  apply ReadsBack.bind (className_readsBack isName fuel noBackslash)
  intro name same
  apply ReadsBack.eat_comma
  exact ReadsBack.pure ⟨same, rfl⟩

theorem parent_readsBack {parent : Option Node} (isName : ∀ name ∈ parent, IsName name) (fuel : Nat)
    (ends : Word.headKind rest = .keyword .implements ∨ Word.headKind rest = .openBrace) :
    ReadsBack context depth (Parse.parent fuel)
      ((ifAny (token (.keyword .extends)) (parent.map printed)).words ++ rest) rest
      fun answer => answer.map unplaced = parent := by
  cases parent with
  | none =>
      apply ReadsBack.eat_missing (by rcases ends with ends | ends <;> simp [ifAny, ends])
      exact ReadsBack.pure rfl
  | some parent =>
      apply ReadsBack.eat_found rfl
      exact className_readsBack (isName parent rfl) fuel
        (by rcases ends with ends | ends <;> simp [ends])

theorem interfaces_readsBack {interfaces : List Node} (areNames : ∀ name ∈ interfaces, IsName name)
    (fuel : Nat) (ends : Word.headKind rest = .openBrace) :
    ReadsBack context depth (Parse.interfaces fuel)
      ((before (token (.keyword .implements)) (interfaces.map printed)
        (separated .comma (interfaces.map printed))).words ++ rest) rest
      fun answer => answer.map unplaced = interfaces := by
  cases interfaces with
  | nil =>
      apply ReadsBack.eat_missing (by simp [before, ends])
      exact ReadsBack.pure rfl
  | cons first others =>
      apply ReadsBack.eat_found rfl
      apply @ReadsBack.collect_separated _ _ _ _ printed (first :: others) .openBrace
        (by decide) ends
      · exact (absurd · (List.cons_ne_nil first others))
      · exact fun name member tail => interface_readsBack (areNames name member) fuel

theorem not_endsList {kind : TokenKind} (noParen : kind ≠ .closeParen) (noEnd : kind ≠ .eof) :
    ¬ endsList kind = true := by
  unfold endsList
  split
  · exact absurd rfl noParen
  · exact absurd rfl noEnd
  · exact Bool.false_ne_true

theorem parenthesised_readsBack {round : Parse (Option Node × Bool)} {nodes : List Node}
    {accepts : TokenKind → Bool} (begins : ∀ node ∈ nodes, node.printed.BeginsWith accepts)
    (noParen : accepts .closeParen = false) (noEnd : accepts .eof = false)
    (each : ∀ node ∈ nodes, ∀ tail,
      Word.headKind tail = .comma ∨ Word.headKind tail = .closeParen →
      ReadsBack context depth round (node.printed.words ++ tail) (Word.afterComma tail)
        fun answer => answer.1.map unplaced = some node ∧
          answer.2 = (Word.headKind tail == .comma))
    (fuel : Nat) :
    ReadsBack context depth (parenthesised fuel round) ((listed (nodes.map printed)).words ++ rest)
      rest fun answer => answer.map unplaced = nodes := by
  have words : (listed (nodes.map printed)).words ++ rest = .fixed .openParen ::
      ((separated .comma (nodes.map printed)).words ++ .fixed .closeParen :: rest) := by
    simp [listed, parens]
  rw [words]
  apply ReadsBack.expect (by rfl)
  have collected := @ReadsBack.collect_separated context depth (.fixed .closeParen :: rest)
    (do if endsList (← kind) then pure (none, false) else round) printed nodes .closeParen
    (by decide) rfl
    (fun _ => ReadsBack.kind_eq .closeParen rfl (ReadsBack.pure rfl))
    (fun node member tail ends => by
      apply ReadsBack.kind
      rw [if_neg (not_endsList ((begins node member).headKind_ne noParen tail)
        ((begins node member).headKind_ne noEnd tail))]
      exact each node member tail ends) fuel
  apply ReadsBack.bind collected
  intro items same
  apply ReadsBack.expect (by rfl)
  exact ReadsBack.pure same

theorem capture_readsBack {node : Node} (isCapture : IsCapture node) {tail : List Word} :
    ReadsBack context depth capture (node.printed.words ++ tail) (Word.afterComma tail)
      fun answer => answer.1.map unplaced = some node ∧
        answer.2 = (Word.headKind tail == .comma) := by
  cases isCapture with
  | @mk captured isVariable byRef =>
      have noMark : Word.headKind (captured.printed.words ++ tail) ≠ .ampersand := by
        rw [beq_iff_eq.mp (isVariable.begins.headKind tail)]
        decide
      rw [printed_closureUse, words_append, List.append_assoc]
      apply ReadsBack.start
      intro start
      apply ReadsBack.eat_given noMark
      apply ReadsBack.bind_some (simpleVariable_readsBack isVariable)
      intro read same
      rw [if_neg (by simp)]
      apply ReadsBack.finish
      intro position
      apply ReadsBack.eat_comma
      apply ReadsBack.pure
      simp [Node.closureUse, Form.map, same]

theorem captures_readsBack {uses : List Node} (areCaptures : ∀ use ∈ uses, IsCapture use)
    (fuel : Nat) (ends : Word.headKind rest = .colon ∨ Word.headKind rest = .openBrace) :
    ReadsBack context depth (captures fuel)
      ((before (token (.keyword .use)) (uses.map printed)
        (listed (uses.map printed))).words ++ rest)
      rest fun answer => answer.map unplaced = uses := by
  cases uses with
  | nil =>
      apply ReadsBack.eat_missing (by rcases ends with ends | ends <;> simp [before, ends])
      exact ReadsBack.pure rfl
  | cons first others =>
      apply ReadsBack.eat_found rfl
      exact parenthesised_readsBack (fun use member => (areCaptures use member).begins) rfl rfl
        (fun use member tail _ => capture_readsBack (areCaptures use member)) fuel

end Parse
end PhpTree
