import PhpTree.Proofs.NodeYields

/-! # Reading names, variables and types

For every phrase without expressions inside: what it answers with was read from the
tokens it consumed, and an answer that is missing has been reported. -/
set_option autoImplicit false
namespace PhpTree

/-- A phrase was read, which takes a token at least, or its absence was reported. -/
structure ReadsPhrase (context : Context) (before : Cursor) (answer : Option Node)
    (after : Cursor) :
    Prop where
  yields : YieldsNodes context before answer.toList after
  progress : answer ≠ none → after.remaining < before.remaining
  blamed : answer = none → after.errors ≠ []

structure ReadsToken (context : Context) (wanted : TokenKind) (before : Cursor) (answer : Bool)
    (after : Cursor) : Prop where
  yields : YieldsNodes context before [] after
  found : answer = true ↔ before.kind = wanted
  progress : answer = true → after.remaining < before.remaining

structure ReadsNode (context : Context) (before : Cursor) (node : Node)
    (after : Cursor) : Prop where
  yields : YieldsNodes context before [node] after
  progress : after.remaining < before.remaining

/-- One round of a list was read; a round that goes on takes a token at least. -/
structure ReadsRound (lost : Prop) (context : Context) (before : Cursor)
    (answer : Option Node × Bool) (after : Cursor) : Prop where
  yields : YieldsNodes context before answer.1.toList after
  progress : answer.2 = true → lost ∨ after.remaining < before.remaining

namespace ReadsPhrase

variable {context : Context} {before : Cursor}

theorem missing (wf : before.Wf) (expected : Expected) :
    ReadsPhrase context before none (before.report context expected) :=
  ⟨.report wf expected, fun found => absurd rfl found, fun _ => Cursor.record_errors_ne_nil _ _⟩

theorem leaf (wf : before.Wf) {kind : LeafKind} (fits : kind.fits before.kind = true) :
    ReadsPhrase context before
      (some ((Node.leaf kind before.current.token.text).withPosition (before.position context)))
      (before.advance context) :=
  ⟨.leaf wf fits, fun _ => YieldsNodes.advance_lt context wf (YieldsNodes.ne_eof_of_fits fits),
    by simp⟩

theorem of_node {node : Node} {after : Cursor} (yields : YieldsNodes context before [node] after)
    (progress : after.remaining < before.remaining) :
    ReadsPhrase context before (some node) after :=
  ⟨yields, fun _ => progress, by simp⟩

end ReadsPhrase

namespace Parse

variable {lost : Prop} {context : Context} {before : Cursor}

theorem eat_token {α : Type} {wanted : TokenKind} {next : Bool → Parse α} {post : α → Cursor → Prop}
    (structural : wanted.isStructural = true) (wf : before.Wf)
    (found : YieldsNodes context before [] (before.advance context) →
      (before.advance context).remaining < before.remaining →
      RunMeets lost context (next true) (before.advance context) post)
    (missing : RunMeets lost context (next false) before post) :
    RunMeets lost context (eat wanted >>= next) before post := by
  refine RunMeets.eat (fun isWanted => ?_) fun _ => missing
  obtain ⟨token, shorter⟩ := YieldsNodes.token context wf (isWanted ▸ structural)
  exact found token shorter

theorem eat_reads {wanted : TokenKind} (structural : wanted.isStructural = true)
    (wf : before.Wf) :
    RunMeets lost context (eat wanted) before (ReadsToken context wanted before) := by
  unfold eat
  refine RunMeets.kind ?_
  split
  · rename_i found
    obtain ⟨token, shorter⟩ := YieldsNodes.token context wf (found ▸ structural)
    exact RunMeets.advance (RunMeets.pure ⟨token, by simp [found], fun _ => shorter⟩)
  · rename_i missing
    exact RunMeets.pure ⟨.refl wf, by simp [missing], by simp⟩

theorem expect_reads {wanted : TokenKind} (structural : wanted.isStructural = true)
    (expected : Expected) (wf : before.Wf) :
    RunMeets lost context (expect wanted expected) before (ReadsToken context wanted before) := by
  unfold expect
  refine RunMeets.bind (eat_reads structural wf) ?_
  intro found after eaten
  cases found with
  | true => exact RunMeets.pure eaten
  | false =>
      have reported := eaten.yields.andThen (.report eaten.yields.wf expected)
      exact RunMeets.report (RunMeets.pure ⟨reported, eaten.found, by simp⟩)

theorem collect_reads_until {round : Parse (Option Node × Bool)} {fuel : Nat}
    {final : Cursor → Prop}
    (reads : ∀ cursor : Cursor, cursor.Wf → cursor.remaining ≤ before.remaining →
      RunMeets lost context round cursor fun answer after =>
        ReadsRound lost context cursor answer after ∧ (answer.2 = false → final after))
    (wf : before.Wf) (enough : lost ∨ before.remaining < fuel) :
    RunMeets lost context (collect fuel round) before fun nodes after =>
      YieldsNodes context before nodes after ∧ final after := by
  refine @RunMeets.collect Node lost context before round (YieldsNodes context before) _ ?_ fuel
    (YieldsNodes.refl wf) enough
  intro found cursor yields
  refine (reads cursor yields.wf yields.remaining_le).mono ?_
  rintro answer after ⟨collected, stops⟩
  have all := yields.trans collected.yields
  exact ⟨fun continues => ⟨all, collected.progress continues⟩, fun stopped => ⟨all, stops stopped⟩⟩

theorem collect_reads {round : Parse (Option Node × Bool)} {fuel : Nat}
    (reads : ∀ cursor : Cursor, cursor.Wf → cursor.remaining ≤ before.remaining →
      RunMeets lost context round cursor (ReadsRound lost context cursor))
    (wf : before.Wf) (enough : lost ∨ before.remaining < fuel) :
    RunMeets lost context (collect fuel round) before (YieldsNodes context before) := by
  have all := @collect_reads_until lost context before round fuel (fun _ => True)
    (fun cursor cursorWf fewer => (reads cursor cursorWf fewer).mono
      fun _ _ collected => ⟨collected, fun _ => trivial⟩) wf enough
  exact all.mono fun _ _ read => read.1

theorem identifier_reads (expected : Expected) (wf : before.Wf) :
    RunMeets lost context (identifier expected) before (ReadsPhrase context before) := by
  unfold identifier
  refine RunMeets.kind ?_
  split
  · rename_i nameLike
    exact RunMeets.someLeaf (.leaf wf (by simp [LeafKind.fits, nameLike]))
  · exact RunMeets.report (RunMeets.pure (.missing wf expected))

theorem simpleVariable_reads (wf : before.Wf) :
    RunMeets lost context simpleVariable before (ReadsPhrase context before) := by
  unfold simpleVariable
  refine RunMeets.start (RunMeets.kind ?_)
  split
  · rename_i isVariable
    have fits : LeafKind.identifier.fits before.kind = true := by simp [LeafKind.fits, isVariable]
    have shorter := YieldsNodes.advance_lt context wf (YieldsNodes.ne_eof_of_fits fits)
    refine RunMeets.leaf (RunMeets.map (RunMeets.finished (.of_node ?_ shorter)))
    exact (YieldsNodes.leaf wf fits).finish wf shorter rfl (.of_children rfl)
  · exact RunMeets.report (RunMeets.pure (.missing wf .variable))

theorem furtherPart_reads (wf : before.Wf) :
    RunMeets lost context furtherPart before (ReadsRound lost context before) := by
  unfold furtherPart
  refine RunMeets.kind (RunMeets.nextKind ?_)
  split
  · rename_i both
    obtain ⟨isBackslash, nameLike⟩ : before.kind = .backslash ∧
      before.nextKind.isNameLike = true := by
      simpa using both
    have goesOn : before.kind ≠ .eof := by simp [isBackslash]
    obtain ⟨first, shorter⟩ :=
      YieldsNodes.token context wf (by simp [isBackslash, TokenKind.isStructural])
    have fits : LeafKind.namePart.fits (before.advance context).kind = true := by
      rw [YieldsNodes.advance_kind context wf goesOn]
      exact nameLike
    have evenShorter := YieldsNodes.advance_lt context first.wf (YieldsNodes.ne_eof_of_fits fits)
    refine RunMeets.advance (RunMeets.leaf (RunMeets.pure ⟨?_, fun _ => Or.inr (by omega)⟩))
    exact first.trans (.leaf first.wf fits)
  · exact RunMeets.pure ⟨.refl wf, by simp⟩

theorem qualification_reads (wf : before.Wf) :
    RunMeets lost context qualification before fun _ after =>
      YieldsNodes context before [] after := by
  unfold qualification
  refine RunMeets.kind ?_
  split
  · rename_i isBackslash
    exact RunMeets.advance
      (RunMeets.pure (.advance wf (by simp [isBackslash, TokenKind.isStructural])))
  · rename_i isNamespace
    refine RunMeets.nextKind ?_
    split
    · rename_i isBackslash
      have first : YieldsNodes context before [] (before.advance context) :=
        .advance wf (by simp [isNamespace, TokenKind.isStructural])
      have second : (before.advance context).kind = .backslash := by
        rw [YieldsNodes.advance_kind context wf (by simp [isNamespace]), isBackslash]
      refine RunMeets.advance (RunMeets.advance (RunMeets.pure (first.andThen ?_)))
      exact .advance first.wf (by simp [second, TokenKind.isStructural])
    · exact RunMeets.pure (.refl wf)
  · exact RunMeets.pure (.refl wf)

theorem name_reads {fuel : Nat} (wf : before.Wf) (enough : lost ∨ before.remaining < fuel) :
    RunMeets lost context (name fuel) before (ReadsPhrase context before) := by
  unfold name
  refine RunMeets.start (RunMeets.bind (qualification_reads wf) ?_)
  intro qualification named qualified
  have fewer := qualified.remaining_le
  refine RunMeets.kind ?_
  split
  · rename_i isIdentifier
    have fits : LeafKind.namePart.fits named.kind = true := by
      simp [LeafKind.fits, isIdentifier, TokenKind.isNameLike]
    have first := @YieldsNodes.leaf context named qualified.wf _ fits
    have shorter := YieldsNodes.advance_lt context qualified.wf (YieldsNodes.ne_eof_of_fits fits)
    refine RunMeets.leaf
      (RunMeets.bind (collect_reads (fun cursor wf _ => furtherPart_reads wf) first.wf
      (enough.imp_right (by omega))) ?_)
    intro others after further
    have fewerStill := further.remaining_le
    refine RunMeets.map (RunMeets.finished (.of_node ?_ (by omega)))
    refine ((qualified.trans first).trans further).finish wf (by omega) rfl (.of_children ?_)
    simp [Form.children, Form.fields, Field.toList]
  · refine RunMeets.report (RunMeets.pure ⟨qualified.andThen (.report qualified.wf _), by simp, ?_⟩)
    exact fun _ => Cursor.record_errors_ne_nil _ _

theorem className_reads {fuel : Nat} (wf : before.Wf)
    (enough : lost ∨ before.remaining < fuel) :
    RunMeets lost context (className fuel) before (ReadsPhrase context before) := by
  unfold className
  refine RunMeets.kind ?_
  split
  · exact name_reads wf enough
  · exact RunMeets.report (RunMeets.pure (.missing wf .className))

theorem typeName_reads {fuel : Nat} (wf : before.Wf) (enough : lost ∨ before.remaining < fuel) :
    RunMeets lost context (typeName fuel) before (ReadsPhrase context before) := by
  unfold typeName
  refine RunMeets.kind ?_
  split
  · rename_i isStatic
    exact RunMeets.someLeaf (.leaf wf (by simp [LeafKind.fits, isStatic, TokenKind.isNameLike]))
  · split
    · exact name_reads wf enough
    · exact RunMeets.report (RunMeets.pure (.missing wf .type))

theorem type_reads {fuel : Nat} (wf : before.Wf) (enough : lost ∨ before.remaining < fuel) :
    RunMeets lost context (type fuel) before (ReadsPhrase context before) := by
  unfold type
  refine RunMeets.start (eat_token rfl wf (fun marked shorter => ?_) (typeName_reads wf enough))
  refine RunMeets.bind (typeName_reads marked.wf (enough.imp_right (by omega))) ?_
  intro expr after named
  have fewer := named.yields.remaining_le
  refine RunMeets.map (RunMeets.finished (.of_node ?_ (by omega)))
  refine (marked.trans named.yields).finish wf (by omega) rfl (.of_children ?_)
  simp [Form.children, Form.fields, Field.toList]

theorem returnType_reads {fuel : Nat} (wf : before.Wf) (enough : lost ∨ before.remaining < fuel) :
    RunMeets lost context (returnType fuel) before fun answer after =>
      YieldsNodes context before answer.toList after := by
  unfold returnType
  refine eat_token rfl wf (fun colon shorter => ?_) (RunMeets.pure (.refl wf))
  exact (type_reads colon.wf (enough.imp_right (by omega))).mono
    fun answer after parsed => colon.trans parsed.yields

theorem modifiers_reads {fuel : Nat} {accepts : TokenKind → Bool}
    (nameLike : ∀ kind, accepts kind = true → kind.isNameLike = true) (wf : before.Wf)
    (enough : lost ∨ before.remaining < fuel) :
    RunMeets lost context (modifiers fuel accepts) before fun nodes after =>
      YieldsNodes context before nodes after ∧ accepts after.kind = false := by
  unfold modifiers
  refine collect_reads_until (fun cursor wf _ => RunMeets.kind ?_) wf enough
  split
  · rename_i accepted
    have fits : LeafKind.identifier.fits cursor.kind = true := by
      simp [LeafKind.fits, nameLike _ accepted]
    refine RunMeets.leaf (RunMeets.pure ⟨⟨.leaf wf fits, fun _ => Or.inr ?_⟩, by simp⟩)
    exact YieldsNodes.advance_lt context wf (YieldsNodes.ne_eof_of_fits fits)
  · rename_i refused
    exact RunMeets.pure ⟨⟨.refl wf, by simp⟩, fun _ => by simpa using refused⟩

theorem comma_reads {answer : Option Node} {after : Cursor}
    (yields : YieldsNodes context before answer.toList after) :
    RunMeets lost context
      (do let continues ← eat .comma
          pure (answer, continues)) after (ReadsRound lost context before) := by
  have fewer := yields.remaining_le
  refine eat_token rfl yields.wf (fun comma shorter => ?_) (RunMeets.pure ⟨yields, by simp⟩)
  exact RunMeets.pure ⟨yields.andThen comma, fun _ => Or.inr (by omega)⟩

theorem interface_reads {fuel : Nat} (wf : before.Wf) (enough : lost ∨ before.remaining < fuel) :
    RunMeets lost context (interface fuel) before (ReadsRound lost context before) := by
  unfold interface
  refine RunMeets.bind (className_reads wf enough) ?_
  intro name after named
  exact comma_reads named.yields

theorem parent_reads {fuel : Nat} (wf : before.Wf) (enough : lost ∨ before.remaining < fuel) :
    RunMeets lost context (parent fuel) before fun answer after =>
      YieldsNodes context before answer.toList after := by
  unfold parent
  refine eat_token rfl wf (fun word shorter => ?_) (RunMeets.pure (.refl wf))
  exact (className_reads word.wf (enough.imp_right (by omega))).mono
    fun answer after parsed => word.trans parsed.yields

theorem interfaces_reads {fuel : Nat} (wf : before.Wf) (enough : lost ∨ before.remaining < fuel) :
    RunMeets lost context (interfaces fuel) before (YieldsNodes context before) := by
  unfold interfaces
  refine eat_token rfl wf (fun word shorter => ?_) (RunMeets.pure (.refl wf))
  refine (collect_reads (fun cursor wf fewer => interface_reads wf ?_) word.wf
    (enough.imp_right (by omega))).mono fun nodes after further => word.trans further
  exact enough.imp_right (by omega)

/-- The items of a list in parentheses. The rounds see what follows the opening one. -/
theorem parenthesised_reads {fuel : Nat} {round : Parse (Option Node × Bool)}
    (reads : ∀ cursor : Cursor, cursor.Wf → cursor.remaining < before.remaining →
      RunMeets lost context round cursor (ReadsRound lost context cursor))
    (wf : before.Wf) (enough : lost ∨ before.remaining < fuel) :
    RunMeets lost context (parenthesised fuel round) before fun nodes after =>
      YieldsNodes context before nodes after ∧
        (before.kind = .openParen → after.remaining < before.remaining) := by
  unfold parenthesised
  refine RunMeets.expect (fun isOpen => ?_) (fun different => RunMeets.pure
    ⟨.report wf _, fun isOpen => absurd isOpen different⟩)
  obtain ⟨opened, shorter⟩ := YieldsNodes.token context wf (by rw [isOpen]; rfl)
  refine RunMeets.bind (collect_reads ?_ opened.wf (enough.imp_right (by omega))) ?_
  · intro cursor cursorWf fewer
    refine RunMeets.kind ?_
    split
    · exact RunMeets.pure ⟨.refl cursorWf, by simp⟩
    · exact reads cursor cursorWf (by omega)
  · intro items after read
    have fewer := read.remaining_le
    refine RunMeets.expect (fun isClose => ?_) (fun _ => ?_)
    · obtain ⟨closed, last⟩ := YieldsNodes.token context read.wf (by rw [isClose]; rfl)
      exact RunMeets.pure ⟨(opened.trans read).andThen closed, fun _ => by omega⟩
    · have idle := @YieldsNodes.report context after read.wf .closeParen
      have last := idle.remaining_le
      exact RunMeets.pure ⟨(opened.trans read).andThen idle, fun _ => by omega⟩

theorem capture_reads (wf : before.Wf) :
    RunMeets lost context capture before (ReadsRound lost context before) := by
  unfold capture
  refine RunMeets.start (eat_token rfl wf (fun marked shorter => ?_) ?_)
  · refine RunMeets.bind (simpleVariable_reads marked.wf) ?_
    intro captured after parsed
    have fewer := parsed.yields.remaining_le
    rw [if_neg (by simp)]
    refine RunMeets.finish (comma_reads ((marked.trans parsed.yields).finish wf (by omega) rfl ?_))
    exact .of_children (by simp [Node.closureUse, Form.children, Form.fields, Field.toList])
  · refine RunMeets.bind (simpleVariable_reads wf) ?_
    intro captured after parsed
    cases captured with
    | none => exact RunMeets.pure ⟨parsed.yields, by simp⟩
    | some variableNode =>
        have shorter := parsed.progress (by simp)
        exact RunMeets.finish (comma_reads (parsed.yields.finish wf shorter rfl (.of_children rfl)))

theorem captures_reads {fuel : Nat} (wf : before.Wf) (enough : lost ∨ before.remaining < fuel) :
    RunMeets lost context (captures fuel) before (YieldsNodes context before) := by
  unfold captures
  refine eat_token rfl wf (fun word shorter => ?_) (RunMeets.pure (.refl wf))
  exact (parenthesised_reads (fun cursor wf _ => capture_reads wf) word.wf
    (enough.imp_right (by omega))).mono fun nodes after read => word.trans read.1

end Parse
end PhpTree
