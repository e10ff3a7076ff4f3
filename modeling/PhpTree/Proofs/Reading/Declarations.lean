import PhpTree.Proofs.Reading.Expressions

/-! # Reading functions, closures and classes -/
set_option autoImplicit false
namespace PhpTree
namespace Parse

variable {lost : Prop} {context : Context} {fuel : Nat} {grammar : Grammar} {limit : Nat}
  {origin before : Cursor}

theorem braced_reads {element : Parse (Option Node)}
    (reads : ∀ cursor : Cursor, endsBody cursor.kind = false → cursor.Wf →
      cursor.remaining < before.remaining →
      RunMeets lost context element cursor (ReadsElement lost context cursor))
    (wf : before.Wf) (enough : lost ∨ before.remaining < fuel) :
    RunMeets lost context (braced fuel element) before fun nodes after =>
      YieldsNodes context before nodes after ∧
        (before.kind = .openBrace → after.remaining < before.remaining) := by
  unfold braced
  refine RunMeets.expect (fun isOpen => ?_) (fun different => RunMeets.pure
    ⟨.report wf _, fun isOpen => absurd isOpen different⟩)
  obtain ⟨opened, shorter⟩ := YieldsNodes.token context wf (by rw [isOpen]; rfl)
  refine RunMeets.bind (collect_reads ?_ opened.wf (enough.imp_right (by omega))) ?_
  · intro cursor cursorWf fewer
    refine RunMeets.kind ?_
    split
    · exact RunMeets.pure ⟨.refl cursorWf, by simp⟩
    · rename_i goesOn
      refine RunMeets.bind (reads cursor (by simpa using goesOn) cursorWf (by omega)) ?_
      intro answer after elapsed
      exact RunMeets.pure ⟨elapsed.yields, fun _ => elapsed.progress⟩
  · intro elements after read
    have fewer := read.remaining_le
    refine RunMeets.bind (expect_reads rfl .closeBrace read.wf) ?_
    rintro _ last ⟨brace, _⟩
    have rest := brace.remaining_le
    have all := ((opened.trans read).andThen brace).andThen (.clearDoc brace.wf)
    exact RunMeets.clearDoc (RunMeets.pure ⟨all, fun _ => Nat.lt_of_le_of_lt rest (by omega)⟩)

theorem block_reads (supply : SuppliesPhrases lost context fuel grammar limit) (wf : before.Wf)
    (fits : lost ∨ before.remaining ≤ limit) :
    RunMeets lost context (block fuel grammar) before fun nodes after =>
      YieldsNodes context before nodes after ∧
        (before.kind = .openBrace → after.remaining < before.remaining) := by
  unfold block
  refine braced_reads (fun cursor goesOn wf fewer => ?_) wf (supply.enough fits)
  exact supply.phrases .statement cursor goesOn wf (fits.imp_right (by omega))

theorem classBody_reads (supply : SuppliesPhrases lost context fuel grammar limit) (wf : before.Wf)
    (fits : lost ∨ before.remaining ≤ limit) :
    RunMeets lost context (classBody fuel grammar) before (YieldsNodes context before) := by
  unfold classBody
  refine (braced_reads (fun cursor goesOn wf fewer => ?_) wf (supply.enough fits)).mono
    fun _ _ read => read.1
  exact supply.phrases .member cursor goesOn wf (fits.imp_right (by omega))

theorem signature_reads {α : Type} {next : Option Node → List Node → Option Node → Parse α}
    {post : α → Cursor → Prop} {expected : Expected}
    (supply : SuppliesPhrases lost context fuel grammar limit)
    (wf : before.Wf) (fits : lost ∨ before.remaining ≤ limit)
    (rest : ∀ functionName params type after,
      YieldsNodes context before (functionName.toList ++ params ++ type.toList) after →
        RunMeets lost context (next functionName params type) after post) :
    RunMeets lost context
      (do
        let functionName ← identifier expected
        let params ← parameters fuel grammar
        let type ← returnType fuel
        next functionName params type) before post := by
  refine RunMeets.bind (identifier_reads expected wf) ?_
  intro functionName afterName named
  have nameLe := named.yields.remaining_le
  refine RunMeets.bind (parameters_reads supply named.yields.wf (fits.imp_right (by omega))) ?_
  intro params afterParams paramYields
  have paramsLe := paramYields.remaining_le
  refine RunMeets.bind
    (returnType_reads paramYields.wf (supply.enough (fits.imp_right (by omega)))) ?_
  intro type after typeYields
  exact rest functionName params type after
    ((named.yields.trans paramYields).trans typeYields)

theorem classTail_reads {α : Type} {next : Option Node → List Node → List Node → Parse α}
    {post : α → Cursor → Prop} (supply : SuppliesPhrases lost context fuel grammar limit)
    (wf : before.Wf)
    (fits : lost ∨ before.remaining ≤ limit)
    (rest : ∀ parent interfaces stmts after,
      YieldsNodes context before (parent.toList ++ interfaces ++ stmts) after →
        RunMeets lost context (next parent interfaces stmts) after post) :
    RunMeets lost context
      (do
        let parent ← parent fuel
        let interfaces ← interfaces fuel
        let stmts ← classBody fuel grammar
        next parent interfaces stmts) before post := by
  refine RunMeets.bind (parent_reads wf (supply.enough fits)) ?_
  intro parent afterParent parentYields
  have parentLe := parentYields.remaining_le
  refine RunMeets.bind (interfaces_reads parentYields.wf
    (supply.enough (fits.imp_right (by omega)))) ?_
  intro interfaces afterInterfaces interfaceYields
  have interfacesLe := interfaceYields.remaining_le
  refine RunMeets.bind (classBody_reads supply interfaceYields.wf (fits.imp_right (by omega))) ?_
  intro stmts after stmtYields
  exact rest parent interfaces stmts after
    ((parentYields.trans interfaceYields).trans stmtYields)

theorem closureTail_reads (supply : SuppliesPhrases lost context fuel grammar limit)
    {doc : Option String}
    {static returnsRef : Bool} (originWf : origin.Wf)
    (opened : YieldsNodes context origin [] before)
    (begun : before.remaining < origin.remaining) (fits : lost ∨ before.remaining ≤ limit) :
    RunMeets lost context (closureTail fuel grammar origin.start doc static returnsRef) before
      fun closure after => YieldsNodes context origin [closure] after ∧
        after.remaining ≤ before.remaining := by
  unfold closureTail
  refine RunMeets.bind (parameters_reads supply opened.wf fits) ?_
  intro params afterParams paramYields
  have paramsLe := paramYields.remaining_le
  refine RunMeets.bind
    (captures_reads paramYields.wf (supply.enough (fits.imp_right (by omega)))) ?_
  intro uses afterUses useYields
  have usesLe := useYields.remaining_le
  refine RunMeets.bind
    (returnType_reads useYields.wf (supply.enough (fits.imp_right (by omega)))) ?_
  intro returnType afterType typeYields
  have typeLe := typeYields.remaining_le
  refine RunMeets.bind (block_reads supply typeYields.wf (fits.imp_right (by omega))) ?_
  rintro stmts after ⟨stmtYields, _⟩
  have stmtsLe := stmtYields.remaining_le
  have all := (((opened.trans paramYields).trans useYields).trans typeYields).trans stmtYields
  refine RunMeets.finished ⟨all.finish originWf (by omega) rfl (.of_children ?_), by omega⟩
  simp [document, Node.closure, Form.children, Form.fields, Field.toList]

theorem closure_reads (supply : SuppliesPhrases lost context fuel grammar limit) (wf : before.Wf)
    (begins : before.kind = .keyword .static ∨ before.kind = .keyword .function)
    (fits : lost ∨ before.remaining ≤ limit) :
    RunMeets lost context (closure fuel grammar) before (ReadsNode context before) := by
  unfold closure
  refine RunMeets.start (RunMeets.takeDoc ?_)
  have undocumented := @YieldsNodes.clearDoc context before wf
  refine RunMeets.bind (eat_reads rfl undocumented.wf) ?_
  rintro static afterStatic ⟨staticYields, staticFound, staticProgress⟩
  have staticLe := staticYields.remaining_le
  refine RunMeets.bind (expect_reads rfl .functionKeyword staticYields.wf) ?_
  rintro _ afterWord ⟨wordYields, wordFound, wordProgress⟩
  have wordLe := wordYields.remaining_le
  refine RunMeets.bind (eat_reads rfl wordYields.wf) ?_
  rintro returnsRef afterRef ⟨refYields, _⟩
  have refLe := refYields.remaining_le
  have opened := ((undocumented.andThen staticYields).andThen wordYields).andThen refYields
  have begun : afterRef.remaining < before.remaining := by
    have same : before.clearDoc.remaining = before.remaining := rfl
    rcases begins with isStatic | isFunction
    · have := staticProgress (staticFound.mpr isStatic)
      omega
    · by_cases idle : before.clearDoc.remaining ≤ afterStatic.remaining
      · have := wordProgress (wordFound.mpr ((staticYields.kind_of_idle idle).trans isFunction))
        omega
      · omega
  refine (closureTail_reads supply wf opened begun (fits.imp_right (by omega))).mono ?_
  exact fun closure after read => ⟨read.1, by omega⟩

/-! ## Members -/

theorem methodBody_reads (supply : SuppliesPhrases lost context fuel grammar limit) (wf : before.Wf)
    (fits : lost ∨ before.remaining ≤ limit) :
    RunMeets lost context (methodBody fuel grammar) before (YieldsNodes context before) := by
  unfold methodBody
  exact eat_token rfl wf (fun semicolon _ => RunMeets.pure semicolon)
    ((block_reads supply wf fits).mono fun _ _ read => read.1)

/-- The modifiers stand in front of the name, though their slot comes after it. -/
theorem method_reads (supply : SuppliesPhrases lost context fuel grammar limit)
    {comments : List Comment}
    {modifiers : List Node} (originWf : origin.Wf)
    (modified : YieldsNodes context origin modifiers before)
    (begins : before.kind = .keyword .function) (fits : lost ∨ before.remaining ≤ limit) :
    RunMeets lost context (method fuel grammar origin.start comments modifiers) before
      (ReadsStatement context origin) := by
  unfold method
  refine RunMeets.takeDoc (RunMeets.advance ?_)
  have modifiersLe := modified.remaining_le
  obtain ⟨word, shorter⟩ := YieldsNodes.clearDoc_token context modified.wf (by rw [begins]; rfl)
  refine RunMeets.bind (eat_reads rfl word.wf) ?_
  rintro returnsRef afterRef ⟨refYields, _⟩
  have refLe := refYields.remaining_le
  refine signature_reads supply refYields.wf (fits.imp_right (by omega)) ?_
  intro methodName params returnType afterType signature
  have signatureLe := signature.remaining_le
  refine RunMeets.bind (methodBody_reads supply signature.wf (fits.imp_right (by omega))) ?_
  intro stmts after stmtYields
  have stmtsLe := stmtYields.remaining_le
  have all := (((modified.andThen word).andThen refYields).trans signature).trans stmtYields
  refine RunMeets.finished (.finish originWf all (by omega) rfl ?_ nofun)
  exact .of_swapped rfl (by simp [Field.toList])

/-- A member takes a token at least, unless it stands at a close tag. -/
theorem member_reads (supply : SuppliesPhrases lost context fuel grammar limit) (wf : before.Wf)
    (goesOn : endsBody before.kind = false) (inside : lost ∨ before.kind ≠ .closeTag)
    (fits : lost ∨ before.remaining ≤ limit) :
    RunMeets lost context (member fuel grammar) before (ReadsElement lost context before) := by
  unfold member
  refine RunMeets.start (RunMeets.takeComments ?_)
  have taken : before.dropComments.Wf := wf
  refine RunMeets.bind (modifiers_reads (fun kind accepted => ?_) taken (supply.enough fits)) ?_
  · cases kind <;> simp_all [TokenKind.isModifier, TokenKind.isNameLike]
  rintro modifiers cursor ⟨modified, _⟩
  have fewer := modified.remaining_le
  have same : before.dropComments.remaining = before.remaining := rfl
  refine RunMeets.kind ?_
  split
  · rename_i isFunction
    refine RunMeets.map ((method_reads supply taken modified isFunction
      (fits.imp_right (by omega))).mono fun _ _ stated => ReadsStatement.elapsed ?_)
    exact ⟨stated.yields.of_dropComments fun _ => stated.progress, stated.progress, stated.solid⟩
  · refine RunMeets.report (RunMeets.modify (RunMeets.pure ?_))
    have reported := modified.andThen (.report modified.wf .functionKeyword)
    have already : (cursor.report context .functionKeyword).errors ≠ [] :=
      Cursor.record_errors_ne_nil _ _
    obtain ⟨skipped, progress⟩ := @YieldsNodes.skipToStatementEnd context _ reported.wf already
    have moved : before.kind ≠ .closeTag →
        ((cursor.report context .functionKeyword).skipToStatementEnd context).remaining <
          before.remaining := by
      intro inside
      have rest := skipped.remaining_le
      by_cases idle : before.remaining ≤ (cursor.report context .functionKeyword).remaining
      · have kept : (cursor.report context .functionKeyword).kind = before.kind :=
          reported.kind_of_idle idle
        have := progress (by rwa [kept]) (by rwa [kept])
        have := reported.remaining_le
        omega
      · omega
    exact ⟨((reported.discard already).trans skipped).of_dropComments moved,
      inside.imp_right moved, by simp⟩

theorem isClassModifier_isNameLike (kind : TokenKind) (accepted : isClassModifier kind = true) :
    kind.isNameLike = true := by
  unfold isClassModifier at accepted
  split at accepted <;> simp_all [TokenKind.isNameLike]

theorem classDeclaration_reads (supply : SuppliesPhrases lost context fuel grammar limit)
    (wf : before.Wf)
    (begins : before.kind = .keyword .class ∨ isClassModifier before.kind = true)
    (fits : lost ∨ before.remaining ≤ limit) :
    RunMeets lost context (classDeclaration fuel grammar) before
      (ReadsStatement context before) := by
  unfold classDeclaration
  refine RunMeets.start (RunMeets.takeDoc ?_)
  have undocumented := @YieldsNodes.clearDoc context before wf
  have same : before.clearDoc.remaining = before.remaining := rfl
  refine RunMeets.bind (modifiers_reads isClassModifier_isNameLike undocumented.wf
    (supply.enough fits)) ?_
  rintro modifiers afterModifiers ⟨modified, refused⟩
  have modifiersLe := modified.remaining_le
  refine RunMeets.bind (expect_reads rfl .classKeyword modified.wf) ?_
  rintro _ afterWord ⟨wordYields, wordFound, wordProgress⟩
  have wordLe := wordYields.remaining_le
  have begun : afterWord.remaining < before.remaining := by
    by_cases idle : before.remaining ≤ afterModifiers.remaining
    · have kept := (undocumented.trans modified).kind_of_idle idle
      rw [kept] at refused
      have := wordProgress (wordFound.mpr (kept.trans (begins.resolve_right (by simp [refused]))))
      omega
    · omega
  refine RunMeets.bind (identifier_reads .className wordYields.wf) ?_
  intro className afterName named
  have nameLe := named.yields.remaining_le
  refine classTail_reads supply named.yields.wf (fits.imp_right (by omega)) ?_
  intro parent interfaces stmts after tail
  have tailLe := tail.remaining_le
  have all := (((undocumented.trans modified).andThen wordYields).trans named.yields).trans tail
  refine RunMeets.finished (.finish wf all (by omega) rfl (.of_swapped rfl ?_) nofun)
  simp [Field.toList]

/-! ## Instantiation -/

theorem anonymousClass_reads (supply : SuppliesPhrases lost context fuel grammar limit)
    (wf : before.Wf)
    (begins : before.kind = .keyword .class) (fits : lost ∨ before.remaining ≤ limit) :
    RunMeets lost context (anonymousClass fuel grammar) before (ReadsNode context before) := by
  unfold anonymousClass
  refine RunMeets.start (RunMeets.takeDoc (RunMeets.advance ?_))
  obtain ⟨word, begun⟩ := YieldsNodes.clearDoc_token context wf (by rw [begins]; rfl)
  refine RunMeets.bind (optionalArguments_reads supply word.wf (fits.imp_right (by omega))) ?_
  intro args afterArgs argYields
  have argsLe := argYields.remaining_le
  refine classTail_reads supply argYields.wf (fits.imp_right (by omega)) ?_
  intro parent interfaces stmts after tail
  have tailLe := tail.remaining_le
  have all := (word.trans argYields).trans tail
  refine RunMeets.finished ⟨all.finish wf (by omega) rfl (.of_children ?_), by omega⟩
  simp [document, Form.children, Form.fields, Field.toList]

theorem instantiated_reads (wf : before.Wf) (enough : lost ∨ before.remaining < fuel) :
    RunMeets lost context (instantiated fuel) before (ReadsPhrase context before) := by
  unfold instantiated
  refine RunMeets.kind ?_
  split
  · exact name_reads wf enough
  · split
    · rename_i isStatic
      exact RunMeets.someLeaf (.leaf wf (by simp [LeafKind.fits, TokenKind.isNameLike, isStatic]))
    · split
      · exact simpleVariable_reads wf
      · exact RunMeets.report (RunMeets.pure (.missing wf .className))

theorem instantiation_reads (supply : SuppliesPhrases lost context fuel grammar limit)
    (wf : before.Wf)
    (begins : before.kind = .keyword .new) (fits : lost ∨ before.remaining ≤ limit) :
    RunMeets lost context (instantiation fuel grammar) before (ReadsNode context before) := by
  unfold instantiation
  refine RunMeets.start (RunMeets.advance (RunMeets.kind ?_))
  obtain ⟨word, begun⟩ := YieldsNodes.token context wf (by rw [begins]; rfl)
  split
  · rename_i isClass
    refine RunMeets.bind
      (anonymousClass_reads supply word.wf isClass (fits.imp_right (by omega))) ?_
    rintro scope after ⟨scopeYields, shorter⟩
    exact RunMeets.finished ⟨(word.trans scopeYields).finish wf (by omega) rfl (.of_children rfl),
      by omega⟩
  · refine RunMeets.bind (instantiated_reads word.wf (supply.enough (fits.imp_right (by omega)))) ?_
    intro scope afterScope parsed
    have scopeLe := parsed.yields.remaining_le
    refine RunMeets.bind (optionalArguments_reads supply parsed.yields.wf
      (fits.imp_right (by omega))) ?_
    intro arguments after argumentYields
    have argumentsLe := argumentYields.remaining_le
    have all := (word.trans parsed.yields).trans argumentYields
    refine RunMeets.finished ⟨all.finish wf (by omega) rfl (.of_children ?_), by omega⟩
    simp [Form.children, Form.fields, Field.toList]

end Parse
end PhpTree
