import PhpTree.Proofs.Reading.Declarations

/-! # Reading expressions, statements and programs

The productions of the recursive phrases keep what the grammar below them promises,
so by induction on the fuel the closed grammar keeps it as well. -/
set_option autoImplicit false
namespace PhpTree

namespace Parse

variable {lost : Prop} {context : Context} {fuel : Nat} {grammar : Grammar} {limit : Nat}
  {origin before : Cursor}

/-! ## Expressions -/

/-- What is read one level deeper is read, and at the depth limit nothing is. -/
theorem deeper_reads {parser : Parse (Option Node)} (wf : before.Wf)
    (reads : RunMeets lost context parser { before with depth := before.depth + 1 }
      (ReadsPhrase context { before with depth := before.depth + 1 })) :
    RunMeets lost context (deeper (pure none) parser) before (ReadsPhrase context before) := by
  refine RunMeets.deeper (RunMeets.pure ⟨.reportTooDeep wf, by simp, fun _ => ?_⟩) ?_
  · exact Cursor.record_errors_ne_nil _ _
  · exact reads.mono fun _ _ parsed =>
      ⟨parsed.yields.of_deeper rfl, parsed.progress, parsed.blamed⟩

theorem variableVariable_reads (supply : SuppliesPhrases lost context fuel grammar limit)
    (wf : before.Wf) (begins : before.kind = .dollar) (fits : lost ∨ before.remaining ≤ limit) :
    RunMeets lost context (variableVariable grammar) before (ReadsNode context before) := by
  unfold variableVariable
  obtain ⟨sign, begun⟩ := YieldsNodes.token context wf (by rw [begins]; rfl)
  have named : ∀ (varName : Option Node) (after : Cursor),
      YieldsNodes context (before.advance context) varName.toList after →
      RunMeets lost context (finish before.start (.bare (.variableRef varName))) after
        (ReadsNode context before) := by
    intro varName after yields
    have fewer := yields.remaining_le
    refine RunMeets.finished ⟨(sign.trans yields).finish wf (by omega) rfl (.of_children ?_),
      by omega⟩
    simp [Form.children, Form.fields, Field.toList]
  refine RunMeets.start (RunMeets.advance (eat_token rfl sign.wf (fun opened shorter => ?_) ?_))
  · refine RunMeets.bind (supply.expr opened.wf (fits.imp_right (by omega))) ?_
    intro varName afterExpr parsed
    refine RunMeets.bind (expect_reads rfl .closeBrace parsed.yields.wf) ?_
    rintro _ after ⟨closed, _⟩
    exact named varName after ((opened.trans parsed.yields).andThen closed)
  · refine RunMeets.bind (deeper_reads sign.wf (supply.phrases .primary _ trivial ?_ ?_))
      (fun varName after parsed => named varName after parsed.yields)
    · exact sign.wf
    · exact fits.imp_right fun fits => Nat.lt_of_lt_of_le begun fits

theorem group_reads (supply : SuppliesPhrases lost context fuel grammar limit) (wf : before.Wf)
    (begins : before.kind = .openParen) (fits : lost ∨ before.remaining ≤ limit) :
    RunMeets lost context (group grammar) before (ReadsPhrase context before) := by
  unfold group
  obtain ⟨opened, begun⟩ := YieldsNodes.token context wf (by rw [begins]; rfl)
  refine RunMeets.advance (RunMeets.bind (supply.expr opened.wf (fits.imp_right (by omega))) ?_)
  intro answer afterExpr parsed
  refine RunMeets.bind (expect_reads rfl .closeParen parsed.yields.wf) ?_
  rintro _ after ⟨closed, _⟩
  have exprLe := parsed.yields.remaining_le
  have closeLe := closed.remaining_le
  exact RunMeets.pure ⟨(opened.trans parsed.yields).andThen closed, fun _ => by omega,
    fun missing => closed.blamed (parsed.blamed missing)⟩

theorem noExpression_reads (wf : before.Wf) :
    RunMeets lost context noExpression before (ReadsPhrase context before) :=
  RunMeets.report (RunMeets.pure (.missing wf .expression))

theorem primary_reads (supply : SuppliesPhrases lost context fuel grammar limit) (wf : before.Wf)
    (fits : lost ∨ before.remaining ≤ limit) :
    RunMeets lost context (primary fuel grammar) before (ReadsPhrase context before) := by
  unfold primary
  have whole : ∀ {parser : Parse Node},
      (RunMeets lost context parser before (ReadsNode context before)) →
      RunMeets lost context (some <$> parser) before (ReadsPhrase context before) :=
    fun reads => RunMeets.map (reads.mono fun _ _ read => .of_node read.1 read.2)
  refine RunMeets.kind ?_
  split <;> rename_i here
  · exact simpleVariable_reads wf
  · exact whole (variableVariable_reads supply wf here fits)
  · exact RunMeets.someLeaf (.leaf wf (by simp [LeafKind.fits, here]))
  · exact RunMeets.someLeaf (.leaf wf (by simp [LeafKind.fits, here]))
  · exact RunMeets.someLeaf (.leaf wf (by simp [LeafKind.fits, here]))
  · exact nameExpr_reads wf (supply.enough fits)
  · exact nameExpr_reads wf (supply.enough fits)
  · refine RunMeets.nextKind ?_
    split
    · exact nameExpr_reads wf (supply.enough fits)
    · exact noExpression_reads wf
  · refine RunMeets.nextKind ?_
    split
    · exact whole (closure_reads supply wf (Or.inl here) fits)
    · exact RunMeets.someLeaf (.leaf wf (by simp [LeafKind.fits, TokenKind.isNameLike, here]))
  · exact whole (closure_reads supply wf (Or.inr here) fits)
  · exact whole (instantiation_reads supply wf here fits)
  · exact group_reads supply wf here fits
  · exact noExpression_reads wf

theorem exprBody_reads (supply : SuppliesPhrases lost context fuel grammar limit) (wf : before.Wf)
    (fits : lost ∨ before.remaining ≤ limit) :
    RunMeets lost context (exprBody fuel grammar) before (ReadsPhrase context before) := by
  unfold exprBody
  refine RunMeets.start (RunMeets.bind (primary_reads supply wf fits) ?_)
  intro answer afterOperand parsed
  cases answer with
  | none => exact RunMeets.pure parsed
  | some operand =>
      have begun := parsed.progress (by simp)
      refine RunMeets.bind (trailers_reads supply wf parsed.yields begun
        (fits.imp_right (by omega))) ?_
      rintro target afterTarget ⟨targetYields, targetLe⟩
      refine RunMeets.map ((assignment_reads supply wf targetYields (by omega)
        (fits.imp_right (by omega))).mono ?_)
      exact fun expr after read => .of_node read.1 (by omega)

theorem expr_reads (supply : SuppliesPhrases lost context fuel grammar limit) (wf : before.Wf)
    (fits : lost ∨ before.remaining ≤ limit) :
    RunMeets lost context (expr fuel grammar) before (ReadsPhrase context before) := by
  exact deeper_reads wf (exprBody_reads supply wf fits)

/-! ## The end of a statement -/

theorem expectSemicolon_reads (wf : before.Wf) :
    RunMeets lost context expectSemicolon before fun _ after =>
      YieldsNodes context before [] after := by
  unfold expectSemicolon
  have undocumented := @YieldsNodes.clearDoc context before wf
  refine RunMeets.clearDoc (RunMeets.kind ?_)
  split <;> rename_i here
  · exact RunMeets.done rfl (undocumented.andThen (.advance undocumented.wf (by rw [here]; rfl)))
  · exact RunMeets.pure undocumented
  · exact RunMeets.pure undocumented
  · have reported := undocumented.andThen (.report undocumented.wf .semicolon)
    refine RunMeets.report (RunMeets.done rfl (reported.andThen ?_))
    exact (YieldsNodes.skipToStatementEnd reported.wf (Cursor.record_errors_ne_nil _ _)).1

/-- After an expression, or after the report that there is none. A statement without an expression
that begins where a statement can, takes a token at least. -/
theorem endExpression_reads {found : Bool} (wf : before.Wf)
    (already : found = false → before.errors ≠ []) :
    RunMeets lost context (endExpression found) before fun _ after =>
      YieldsNodes context before [] after ∧
        (found = false → endsBody before.kind = false → before.kind ≠ .closeTag →
          after.remaining < before.remaining) := by
  unfold endExpression
  cases found with
  | true => exact (expectSemicolon_reads wf).mono fun _ _ read => ⟨read, by simp⟩
  | false =>
      obtain ⟨skipped, progress⟩ := @YieldsNodes.skipToStatementEnd context before wf (already rfl)
      exact RunMeets.done rfl ⟨skipped, fun _ => progress⟩

/-! ## Statements

Where a statement begins there is neither a close tag nor the end of a body, and every
statement takes a token at least. -/

theorem ended_reads {nodes : List Node} {form : Form Node} {after : Cursor} (wf : before.Wf)
    (yields : YieldsNodes context before nodes after) (begun : after.remaining < before.remaining)
    (inner : form.text? = none) (children : nodes = form.children)
    (solid : ¬ (Node.bare form).IsHollow) :
    RunMeets lost context (do
      expectSemicolon
      finish before.start (.bare form)) after (ReadsStatement context before) := by
  refine RunMeets.bind (expectSemicolon_reads yields.wf) ?_
  intro _ last ended
  have fewer := ended.remaining_le
  exact RunMeets.finished
    (.finish wf (yields.andThen ended) (by omega) inner (.of_children children)
    solid)

theorem worded_reads {α : Type} {part : Parse α} {form : α → Form Node} (wf : before.Wf)
    (structural : before.kind.isStructural = true)
    (reads : (before.advance context).Wf →
      (before.advance context).remaining < before.remaining →
      RunMeets lost context part (before.advance context) fun answer after =>
        YieldsNodes context (before.advance context) (form answer).children after)
    (inner : ∀ answer, (form answer).text? = none)
    (solid : ∀ answer, ¬ (Node.bare (form answer)).IsHollow) :
    RunMeets lost context
      (do
        advance
        let answer ← part
        expectSemicolon
        finish before.start (.bare (form answer))) before (ReadsStatement context before) := by
  obtain ⟨word, begun⟩ := YieldsNodes.token context wf structural
  refine RunMeets.advance (RunMeets.bind (reads word.wf begun) ?_)
  intro answer after yields
  have fewer := yields.remaining_le
  exact ended_reads wf (word.trans yields) (by omega) (inner answer) rfl (solid answer)

theorem echoStatement_reads (supply : SuppliesPhrases lost context fuel grammar limit)
    (wf : before.Wf)
    (structural : before.kind.isStructural = true) (fits : lost ∨ before.remaining ≤ limit) :
    RunMeets lost context (echoStatement fuel grammar before.start) before
      (ReadsStatement context before) := by
  unfold echoStatement
  refine worded_reads wf structural (fun wf begun => ?_) (fun _ => rfl) nofun
  refine (exprList_reads supply wf (fits.imp_right (by omega))).mono fun exprs after yields => ?_
  simpa [Form.children, Form.fields, Field.toList] using yields

theorem throwStatement_reads (supply : SuppliesPhrases lost context fuel grammar limit)
    (wf : before.Wf)
    (structural : before.kind.isStructural = true) (fits : lost ∨ before.remaining ≤ limit) :
    RunMeets lost context (throwStatement grammar before.start) before
      (ReadsStatement context before) := by
  unfold throwStatement
  refine worded_reads wf structural (fun wf begun => ?_) (fun _ => rfl) nofun
  refine (supply.expr wf (fits.imp_right (by omega))).mono fun expr after parsed => ?_
  simpa [Form.children, Form.fields, Field.toList] using parsed.yields

theorem returned_reads (supply : SuppliesPhrases lost context fuel grammar limit) (wf : before.Wf)
    (room : lost ∨ before.remaining < limit) :
    RunMeets lost context (returned grammar) before fun answer after =>
      YieldsNodes context before answer.toList after := by
  unfold returned
  refine RunMeets.kind ?_
  split
  · exact RunMeets.pure (.refl wf)
  · exact (supply.expr wf room).mono fun _ _ parsed => parsed.yields

theorem returnStatement_reads (supply : SuppliesPhrases lost context fuel grammar limit)
    (wf : before.Wf)
    (structural : before.kind.isStructural = true) (fits : lost ∨ before.remaining ≤ limit) :
    RunMeets lost context (returnStatement grammar before.start) before
      (ReadsStatement context before) := by
  unfold returnStatement
  refine worded_reads wf structural (fun wf begun => ?_) (fun _ => rfl) nofun
  refine (returned_reads supply wf (fits.imp_right (by omega))).mono fun expr after yields => ?_
  simpa [Form.children, Form.fields, Field.toList] using yields

theorem functionStatement_reads (supply : SuppliesPhrases lost context fuel grammar limit)
    (wf : before.Wf) (begins : before.kind = .keyword .function)
    (fits : lost ∨ before.remaining ≤ limit) :
    RunMeets lost context (functionStatement fuel grammar before.start) before
      (ReadsStatement context before) := by
  unfold functionStatement
  refine RunMeets.takeDoc (RunMeets.advance ?_)
  obtain ⟨word, begun⟩ := YieldsNodes.clearDoc_token context wf (by rw [begins]; rfl)
  refine RunMeets.bind (eat_reads rfl word.wf) ?_
  rintro returnsRef afterRef ⟨refYields, _⟩
  have refLe := refYields.remaining_le
  have opened := word.andThen refYields
  refine RunMeets.kind ?_
  split
  · refine RunMeets.bind (closureTail_reads supply wf opened (by omega)
      (fits.imp_right (by omega))) ?_
    rintro closure after ⟨closureYields, closureLe⟩
    exact ended_reads wf closureYields (by omega) rfl rfl nofun
  · refine signature_reads supply refYields.wf (fits.imp_right (by omega)) ?_
    intro functionName params returnType afterType signature
    have signatureLe := signature.remaining_le
    refine RunMeets.bind (block_reads supply signature.wf (fits.imp_right (by omega))) ?_
    rintro stmts after ⟨stmtYields, _⟩
    have stmtsLe := stmtYields.remaining_le
    have all := (opened.trans signature).trans stmtYields
    refine RunMeets.finished (.finish wf all (by omega) rfl (.of_children ?_) nofun)
    simp [document, Node.function, Form.children, Form.fields, Field.toList]

theorem expressionStatement_reads (wf : before.Wf)
    (expr : RunMeets lost context (grammar .expr) before (ReadsPhrase context before))
    (goesOn : endsBody before.kind = false) (inside : before.kind ≠ .closeTag) :
    RunMeets lost context (expressionStatement grammar before.start) before
      (ReadsStatement context before) := by
  unfold expressionStatement
  refine RunMeets.bind expr ?_
  intro answer afterExpr parsed
  refine RunMeets.bind (endExpression_reads parsed.yields.wf fun missing =>
    parsed.blamed (by simpa using missing)) ?_
  rintro _ after ⟨ended, progress⟩
  have exprLe := parsed.yields.remaining_le
  have endLe := ended.remaining_le
  have shorter : after.remaining < before.remaining := by
    cases answer with
    | some node =>
        have := parsed.progress (by simp)
        omega
    | none =>
        by_cases idle : before.remaining ≤ afterExpr.remaining
        · have kept := parsed.yields.kind_of_idle idle
          have := progress rfl (by rwa [kept]) (by rwa [kept])
          omega
        · omega
  refine RunMeets.finished (.finish wf (parsed.yields.andThen ended) shorter rfl (.of_children ?_)
    nofun)
  simp [Form.children, Form.fields, Field.toList]

theorem blockStatement_reads (supply : SuppliesPhrases lost context fuel grammar limit)
    (wf : before.Wf)
    (begins : before.kind = .openBrace) (fits : lost ∨ before.remaining ≤ limit) :
    RunMeets lost context (blockStatement fuel grammar before.start) before
      (ReadsStatement context before) := by
  unfold blockStatement
  refine RunMeets.bind (block_reads supply wf fits) ?_
  rintro stmts after ⟨yields, progress⟩
  refine RunMeets.finished (.finish wf yields (progress begins) rfl (.of_children ?_) nofun)
  simp [Form.children, Form.fields, Field.toList]

theorem statementByKind_reads (supply : SuppliesPhrases lost context fuel grammar limit)
    (wf : before.Wf)
    (expr : RunMeets lost context (grammar .expr) before (ReadsPhrase context before))
    (goesOn : endsBody before.kind = false) (inside : before.kind ≠ .closeTag)
    (fits : lost ∨ before.remaining ≤ limit) :
    RunMeets lost context (statementByKind fuel grammar before.start) before
      (ReadsStatement context before) := by
  unfold statementByKind
  refine RunMeets.kind ?_
  split <;> rename_i here
  · exact echoStatement_reads supply wf (by rw [here]; rfl) fits
  · exact echoStatement_reads supply wf (by rw [here]; rfl) fits
  · exact throwStatement_reads supply wf (by rw [here]; rfl) fits
  · exact returnStatement_reads supply wf (by rw [here]; rfl) fits
  · exact blockStatement_reads supply wf here fits
  · refine RunMeets.nextKind ?_
    split
    · exact expressionStatement_reads wf expr goesOn inside
    · exact functionStatement_reads supply wf here fits
  · exact classDeclaration_reads supply wf (Or.inl here) fits
  · exact classDeclaration_reads supply wf (Or.inr (by rw [here]; rfl)) fits
  · exact classDeclaration_reads supply wf (Or.inr (by rw [here]; rfl)) fits
  · exact classDeclaration_reads supply wf (Or.inr (by rw [here]; rfl)) fits
  · exact expressionStatement_reads wf expr goesOn inside

theorem statementBody_reads (supply : SuppliesPhrases lost context fuel grammar limit)
    (wf : before.Wf)
    (expr : RunMeets lost context (grammar .expr) before.dropComments
      (ReadsPhrase context before.dropComments))
    (goesOn : endsBody before.kind = false) (inside : before.kind ≠ .closeTag)
    (fits : lost ∨ before.remaining ≤ limit) :
    RunMeets lost context (statementBody fuel grammar) before (ReadsStatement context before) := by
  unfold statementBody
  have taken : before.dropComments.Wf := wf
  refine RunMeets.start (RunMeets.takeComments (RunMeets.bind
    (statementByKind_reads supply taken expr goesOn inside fits) ?_))
  intro stmt after stated
  have yields := stated.yields.of_dropComments fun _ => stated.progress
  exact RunMeets.pure ⟨yields.modifyAttributes fun _ => ⟨rfl, rfl⟩, stated.progress, stated.solid⟩

/-- What stands where a statement is due takes a token at least. The grammar is asked for an
expression where the statement begins. -/
theorem statement_reads (supply : SuppliesPhrases lost context fuel grammar limit) (wf : before.Wf)
    (expr : ∀ cursor : Cursor, cursor.Wf → cursor.remaining = before.remaining →
      RunMeets lost context (grammar .expr) cursor (ReadsPhrase context cursor))
    (goesOn : endsBody before.kind = false) (fits : lost ∨ before.remaining ≤ limit) :
    RunMeets lost context (statement fuel grammar) before (ReadsElement lost context before) := by
  unfold statement
  have marker : before.kind.isStructural = true →
      ReadsElement lost context before none (before.advance context) := by
    intro structural
    obtain ⟨passed, shorter⟩ := YieldsNodes.token context wf structural
    exact ⟨passed, Or.inr shorter, by simp⟩
  refine RunMeets.kind ?_
  split <;> rename_i here
  · exact RunMeets.advance (RunMeets.pure (marker (by rw [here]; rfl)))
  · exact RunMeets.advance (RunMeets.pure (marker (by rw [here]; rfl)))
  · have noted := @YieldsNodes.note context before wf (.skippingPageText before.current.token.span)
    have structural :
      (before.note (.skippingPageText before.current.token.span)).kind.isStructural =
        true := by
      show before.kind.isStructural = true
      rw [here]
      rfl
    obtain ⟨passed, shorter⟩ := YieldsNodes.token context noted.wf structural
    exact RunMeets.modify (RunMeets.pure ⟨noted.trans passed, Or.inr shorter, by simp⟩)
  · obtain ⟨passed, shorter, solid⟩ := marker (by rw [here]; rfl)
    exact RunMeets.advance
      (RunMeets.clearDoc (RunMeets.pure ⟨passed.andThen (.clearDoc passed.wf), shorter,
      solid⟩))
  · have inside : before.kind ≠ .closeTag := by assumption
    refine RunMeets.deeper (RunMeets.modify (RunMeets.pure ?_)) (RunMeets.map ?_)
    · have refused := @YieldsNodes.reportTooDeep context before wf
      obtain ⟨skipped, progress⟩ := @YieldsNodes.skipStatement context _ refused.wf
        (Cursor.record_errors_ne_nil _ _)
      have kept : (before.reportTooDeep context).kind = before.kind := Cursor.record_kind _ _
      have shorter := progress (by rwa [kept]) (by rwa [kept])
      exact ⟨refused.trans skipped, Or.inr (Nat.lt_of_lt_of_le shorter refused.remaining_le),
        by simp⟩
    · refine (@statementBody_reads _ _ _ _ _ { before with depth := before.depth + 1 } supply wf
        (expr _ wf rfl) goesOn inside fits).mono ?_
      exact fun stmt after stated =>
        ReadsStatement.elapsed ⟨stated.yields.of_deeper rfl, stated.progress,
        stated.solid⟩

/-- Every production keeps its promise on a grammar that keeps its own. A statement may ask for an
expression where it begins itself; a member at a close tag is for the loser. -/
theorem rule_reads (phrase : Phrase) (supply : SuppliesPhrases lost context fuel grammar limit)
    (due : phrase.MayBegin before) (wf : before.Wf) (fits : lost ∨ before.remaining ≤ limit)
    (expr : phrase = .statement → ∀ cursor : Cursor, cursor.Wf →
      cursor.remaining = before.remaining →
      RunMeets lost context (grammar .expr) cursor (ReadsPhrase context cursor))
    (inside : phrase = .member → lost ∨ before.kind ≠ .closeTag) :
    RunMeets lost context (Grammar.rule fuel grammar phrase) before
      (phrase.Promise lost context before) := by
  cases phrase with
  | expr => exact expr_reads supply wf fits
  | primary => exact primary_reads supply wf fits
  | statement => exact statement_reads supply wf (expr rfl) due fits
  | member => exact member_reads supply wf due (inside rfl) fits

end Parse
end PhpTree
