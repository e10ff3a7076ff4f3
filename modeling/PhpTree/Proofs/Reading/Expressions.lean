import PhpTree.Proofs.Reading.Names

/-! # Reading calls and lists of expressions

The grammar below is known only by what its phrases promise.  It may be asked where
fewer tokens are left than `limit`; a production that begins at the limit has to
consume a token before it asks. -/
set_option autoImplicit false
namespace PhpTree

/-- Where a phrase may be asked for: statements and members not where a body ends. -/
def Phrase.MayBegin (cursor : Cursor) : Phrase → Prop
  | .expr | .primary => True
  | .statement | .member => Parse.endsBody cursor.kind = false

def Node.IsHollow (node : Node) : Prop := node.form = .parameter none none none

/-- A statement or a member was read, which takes a token at least. -/
structure ReadsStatement (context : Context) (before : Cursor) (node : Node)
    (after : Cursor) : Prop where
  yields : YieldsNodes context before [node] after
  progress : after.remaining < before.remaining
  solid : ¬ node.IsHollow

theorem ReadsStatement.finish {context : Context} {before after : Cursor} {nodes : List Node}
    {node : Node}
    (wf : before.Wf) (yields : YieldsNodes context before nodes after)
    (progress : after.remaining < before.remaining) (inner : node.form.text? = none)
    (holds : node.form.HoldsFieldsInOrder nodes) (solid : ¬ node.IsHollow) :
    ReadsStatement context before (node.withPosition (after.positionFrom context before.start))
      after :=
  ⟨yields.finish wf progress inner holds, progress, solid⟩

/-- Something was read that left a node or none. It took a token at least, or the parse is lost. -/
structure ReadsElement (lost : Prop) (context : Context) (before : Cursor) (answer : Option Node)
    (after : Cursor) : Prop where
  yields : YieldsNodes context before answer.toList after
  progress : lost ∨ after.remaining < before.remaining
  solid : ∀ node ∈ answer, ¬ node.IsHollow

theorem ReadsStatement.elapsed {lost : Prop} {context : Context} {before after : Cursor}
    {node : Node} (stated : ReadsStatement context before node after) :
    ReadsElement lost context before (some node) after :=
  ⟨stated.yields, Or.inr stated.progress, by simpa using stated.solid⟩

def Phrase.Promise (lost : Prop) (context : Context) :
    Phrase → Cursor → Option Node → Cursor → Prop
  | .expr | .primary => ReadsPhrase context
  | .statement | .member => ReadsElement lost context

/-- Fuel for the loops of a production, and a grammar that keeps its promises below the limit. -/
structure SuppliesPhrases (lost : Prop) (context : Context) (fuel : Nat) (grammar : Grammar)
    (limit : Nat) : Prop where
  rounds : lost ∨ limit < fuel
  phrases : ∀ (phrase : Phrase) (cursor : Cursor), phrase.MayBegin cursor → cursor.Wf →
    (lost ∨ cursor.remaining < limit) →
    RunMeets lost context (grammar phrase) cursor (phrase.Promise lost context cursor)

namespace SuppliesPhrases

variable {lost : Prop} {context : Context} {fuel : Nat} {grammar : Grammar} {limit : Nat}
  {cursor : Cursor}

theorem enough (supply : SuppliesPhrases lost context fuel grammar limit)
    (fits : lost ∨ cursor.remaining ≤ limit) : lost ∨ cursor.remaining < fuel := by
  rcases supply.rounds with excuse | rounds
  · exact Or.inl excuse
  · exact fits.imp_right fun fits => Nat.lt_of_le_of_lt fits rounds

theorem expr (supply : SuppliesPhrases lost context fuel grammar limit) (wf : cursor.Wf)
    (room : lost ∨ cursor.remaining < limit) :
    RunMeets lost context (grammar .expr) cursor (ReadsPhrase context cursor) :=
  supply.phrases .expr cursor trivial wf room

end SuppliesPhrases

namespace Parse

variable {lost : Prop} {context : Context} {fuel : Nat} {grammar : Grammar} {limit : Nat}
  {origin before : Cursor}

/-! ## Lists -/

theorem listedExpr_reads (supply : SuppliesPhrases lost context fuel grammar limit) (wf : before.Wf)
    (room : lost ∨ before.remaining < limit) :
    RunMeets lost context (listedExpr grammar) before (ReadsRound lost context before) := by
  unfold listedExpr
  refine RunMeets.bind (supply.expr wf room) ?_
  intro answer after parsed
  cases answer with
  | none => exact RunMeets.pure ⟨parsed.yields, by simp⟩
  | some expr => exact comma_reads parsed.yields

theorem exprList_reads (supply : SuppliesPhrases lost context fuel grammar limit) (wf : before.Wf)
    (room : lost ∨ before.remaining < limit) :
    RunMeets lost context (exprList fuel grammar) before (YieldsNodes context before) := by
  unfold exprList
  refine collect_reads (fun cursor wf fewer => listedExpr_reads supply wf ?_) wf
    (supply.enough (room.imp_right Nat.le_of_lt))
  exact room.imp_right (by omega)

theorem argument_reads (supply : SuppliesPhrases lost context fuel grammar limit) (wf : before.Wf)
    (room : lost ∨ before.remaining < limit) :
    RunMeets lost context (argument grammar) before (ReadsRound lost context before) := by
  unfold argument
  refine RunMeets.start (RunMeets.bind (eat_reads (by simp [TokenKind.isStructural]) wf) ?_)
  intro variadic cursor spread
  have fewer := spread.yields.remaining_le
  refine RunMeets.bind (supply.expr spread.yields.wf (room.imp_right (by omega))) ?_
  intro answer after parsed
  cases answer with
  | none => exact RunMeets.pure ⟨spread.yields.trans parsed.yields, by simp⟩
  | some expr =>
      have shorter := parsed.progress (by simp)
      refine RunMeets.finish
        (comma_reads ((spread.yields.trans parsed.yields).finish wf (by omega) rfl ?_))
      exact .of_children rfl

theorem arguments_reads (supply : SuppliesPhrases lost context fuel grammar limit) (wf : before.Wf)
    (fits : lost ∨ before.remaining ≤ limit) :
    RunMeets lost context (arguments fuel grammar) before fun nodes after =>
      YieldsNodes context before nodes after ∧
        (before.kind = .openParen → after.remaining < before.remaining) := by
  unfold arguments
  refine parenthesised_reads (fun cursor wf fewer => argument_reads supply wf ?_) wf
    (supply.enough fits)
  exact fits.imp_right (by omega)

theorem optionalArguments_reads (supply : SuppliesPhrases lost context fuel grammar limit)
    (wf : before.Wf) (fits : lost ∨ before.remaining ≤ limit) :
    RunMeets lost context (optionalArguments fuel grammar) before (YieldsNodes context before) := by
  unfold optionalArguments
  refine RunMeets.kind ?_
  split
  · exact (arguments_reads supply wf fits).mono fun _ _ read => read.1
  · exact RunMeets.pure (.refl wf)

theorem parameterType_reads (supply : SuppliesPhrases lost context fuel grammar limit)
    (wf : before.Wf)
    (fits : lost ∨ before.remaining ≤ limit) :
    RunMeets lost context (parameterType fuel) before fun answer after =>
      YieldsNodes context before answer.toList after ∧
        (answer ≠ none → after.remaining < before.remaining) := by
  unfold parameterType
  refine RunMeets.kind ?_
  split
  · exact (type_reads wf (supply.enough fits)).mono fun _ _ parsed =>
      ⟨parsed.yields, parsed.progress⟩
  · exact RunMeets.pure ⟨.refl wf, by simp⟩

theorem parameterDefault_reads (supply : SuppliesPhrases lost context fuel grammar limit)
    (wf : before.Wf) (room : lost ∨ before.remaining < limit) :
    RunMeets lost context (parameterDefault grammar) before fun answer after =>
      YieldsNodes context before answer.toList after ∧
        (answer ≠ none → after.remaining < before.remaining) := by
  unfold parameterDefault
  refine eat_token rfl wf (fun sign shorter => ?_) (RunMeets.pure ⟨.refl wf, by simp⟩)
  refine (supply.expr sign.wf (room.imp_right (by omega))).mono fun answer after parsed => ?_
  have fewer := parsed.yields.remaining_le
  exact ⟨sign.trans parsed.yields, fun _ => by omega⟩

/-- Every parameter is read from its tokens, and one without any stands beside an error. -/
theorem parameter_reads (supply : SuppliesPhrases lost context fuel grammar limit) (wf : before.Wf)
    (room : lost ∨ before.remaining < limit) :
    RunMeets lost context (parameter fuel grammar) before (ReadsRound lost context before) := by
  unfold parameter
  refine RunMeets.start ?_
  refine RunMeets.bind (parameterType_reads supply wf (room.imp_right Nat.le_of_lt)) ?_
  rintro type typed ⟨typeYields, typeProgress⟩
  refine RunMeets.bind (eat_reads rfl typeYields.wf) ?_
  rintro byRef referenced ⟨refYields, _, refProgress⟩
  refine RunMeets.bind (eat_reads rfl refYields.wf) ?_
  rintro variadic spread ⟨spreadYields, _, spreadProgress⟩
  refine RunMeets.bind (simpleVariable_reads spreadYields.wf) ?_
  intro binding bound parsed
  have signs := (typeYields.andThen refYields).andThen spreadYields
  have whole := signs.trans parsed.yields
  have fewer := whole.remaining_le
  refine RunMeets.bind
    (parameterDefault_reads supply parsed.yields.wf (room.imp_right (by omega))) ?_
  rintro initial after ⟨initialYields, initialProgress⟩
  refine RunMeets.finish (comma_reads ?_)
  have all := whole.trans initialYields
  by_cases consumed : after.remaining < before.remaining
  · refine all.finish wf consumed rfl (.of_children ?_)
    simp [Node.parameter, Form.children, Form.fields, Field.toList]
  · -- Nothing was consumed, so nothing was found, and the variable was reported missing.
    have typeLe := typeYields.remaining_le
    have refLe := refYields.remaining_le
    have spreadLe := spreadYields.remaining_le
    have boundLe := parsed.yields.remaining_le
    have initialLe := initialYields.remaining_le
    have noType : type = none := by
      by_contra found
      have := typeProgress found
      omega
    have noRef : byRef = false := by
      by_contra found
      have := refProgress (by simpa using found)
      omega
    have noSpread : variadic = false := by
      by_contra found
      have := spreadProgress (by simpa using found)
      omega
    have noBinding : binding = none := by
      by_contra found
      have := parsed.progress found
      omega
    have noInitial : initial = none := by
      by_contra found
      have := initialProgress found
      omega
    subst noType noRef noSpread noBinding noInitial
    exact YieldsNodes.finish_hollow wf all (by omega) (initialYields.blamed (parsed.blamed rfl))

theorem parameters_reads (supply : SuppliesPhrases lost context fuel grammar limit) (wf : before.Wf)
    (fits : lost ∨ before.remaining ≤ limit) :
    RunMeets lost context (parameters fuel grammar) before (YieldsNodes context before) := by
  unfold parameters
  refine (parenthesised_reads (fun cursor wf fewer => parameter_reads supply wf ?_) wf
    (supply.enough fits)).mono fun _ _ read => read.1
  exact fits.imp_right (by omega)

/-! ## Calls and accesses

What was read of the operand so far begins at `origin`, and so do the nodes around it. -/

theorem memberName_reads (expected : Expected) (wf : before.Wf) :
    RunMeets lost context (memberName expected) before (ReadsPhrase context before) := by
  unfold memberName
  refine RunMeets.kind ?_
  split
  · exact simpleVariable_reads wf
  · exact identifier_reads expected wf

theorem accessed_reads {nodes : List Node} {form : Form Node} (originWf : origin.Wf)
    (read : YieldsNodes context origin nodes before) (begun : before.remaining < origin.remaining)
    (inner : form.text? = none) (children : nodes = form.children) :
    RunMeets lost context (finish origin.start (.bare form)) before fun access after =>
      YieldsNodes context origin [access] after ∧ after.remaining ≤ before.remaining :=
  RunMeets.finished ⟨read.finish originWf begun inner (.of_children children), Nat.le_refl _⟩

theorem called_reads (supply : SuppliesPhrases lost context fuel grammar limit) {nodes : List Node}
    {form : List Node → Form Node} (originWf : origin.Wf)
    (read : YieldsNodes context origin nodes before) (begun : before.remaining < origin.remaining)
    (fits : lost ∨ before.remaining ≤ limit) (inner : ∀ args, (form args).text? = none)
    (children : ∀ args, nodes ++ args = (form args).children) :
    RunMeets lost context
      (do
        let args ← arguments fuel grammar
        finish origin.start (.bare (form args)))
      before fun call after =>
        YieldsNodes context origin [call] after ∧ after.remaining ≤ before.remaining := by
  refine RunMeets.bind (arguments_reads supply read.wf fits) ?_
  rintro args after ⟨argumentYields, _⟩
  have fewer := argumentYields.remaining_le
  exact (accessed_reads originWf (read.trans argumentYields) (by omega) (inner args)
    (children args)).mono fun _ _ call => ⟨call.1, Nat.le_trans call.2 fewer⟩

theorem memberAccess_reads (supply : SuppliesPhrases lost context fuel grammar limit)
    {object : Node}
    (originWf : origin.Wf) (operand : YieldsNodes context origin [object] before)
    (begun : before.remaining < origin.remaining) (fits : lost ∨ before.remaining ≤ limit) :
    RunMeets lost context (memberAccess fuel grammar origin.start object) before fun access after =>
      YieldsNodes context origin [access] after ∧ after.remaining ≤ before.remaining := by
  unfold memberAccess
  refine RunMeets.bind (memberName_reads .memberName operand.wf) ?_
  intro member named parsed
  have fewer := parsed.yields.remaining_le
  have both := operand.trans parsed.yields
  refine RunMeets.kind ?_
  split
  · refine (called_reads supply originWf both (by omega) (fits.imp_right (by omega))
      (fun _ => rfl) fun args => ?_).mono fun access after read => ⟨read.1, by omega⟩
    simp [Form.children, Form.fields, Field.toList]
  · refine (accessed_reads originWf both (by omega) rfl ?_).mono
      fun access after read => ⟨read.1, by omega⟩
    simp [Form.children, Form.fields, Field.toList]

theorem staticAccess_reads (supply : SuppliesPhrases lost context fuel grammar limit) {scope : Node}
    (originWf : origin.Wf) (operand : YieldsNodes context origin [scope] before)
    (begun : before.remaining < origin.remaining) (fits : lost ∨ before.remaining ≤ limit) :
    RunMeets lost context (staticAccess fuel grammar origin.start scope) before fun access after =>
      YieldsNodes context origin [access] after ∧ after.remaining ≤ before.remaining := by
  unfold staticAccess
  refine RunMeets.kind (RunMeets.bind (memberName_reads .identifier operand.wf) ?_)
  intro member named parsed
  have fewer := parsed.yields.remaining_le
  have both := operand.trans parsed.yields
  refine RunMeets.kind ?_
  split
  · refine (called_reads supply originWf both (by omega) (fits.imp_right (by omega))
      (fun _ => rfl) fun args => ?_).mono fun access after read => ⟨read.1, by omega⟩
    simp [Form.children, Form.fields, Field.toList]
  · split
    · refine (accessed_reads originWf both (by omega) rfl ?_).mono
        fun access after read => ⟨read.1, by omega⟩
      simp [Form.children, Form.fields, Field.toList]
    · refine (accessed_reads originWf both (by omega) rfl ?_).mono
        fun access after read => ⟨read.1, by omega⟩
      simp [Form.children, Form.fields, Field.toList]

theorem trailer_reads (supply : SuppliesPhrases lost context fuel grammar limit) {operand : Node}
    (originWf : origin.Wf) (yields : YieldsNodes context origin [operand] before)
    (begun : before.remaining < origin.remaining) (fits : lost ∨ before.remaining ≤ limit) :
    RunMeets lost context (trailer fuel grammar origin.start operand) before fun answer after =>
      YieldsNodes context origin [answer.1] after ∧ after.remaining ≤ before.remaining ∧
        (answer.2 = true → after.remaining < before.remaining) := by
  unfold trailer
  -- The sign of an access is consumed first, so the access itself has room.
  have signed : before.kind.isStructural = true →
      YieldsNodes context origin [operand] (before.advance context) ∧
        (before.advance context).remaining < before.remaining := fun structural =>
    (YieldsNodes.token context yields.wf structural).imp yields.andThen id
  have accessed : before.kind.isStructural = true →
      RunMeets lost context (memberAccess fuel grammar origin.start operand)
        (before.advance context)
        fun access after => YieldsNodes context origin [access] after ∧
          after.remaining < before.remaining := by
    intro structural
    obtain ⟨sign, shorter⟩ := signed structural
    refine (memberAccess_reads supply originWf sign (by omega) (fits.imp_right (by omega))).mono ?_
    exact fun access after read => ⟨read.1, by omega⟩
  refine RunMeets.kind ?_
  split
  · rename_i isOpen
    refine RunMeets.bind (arguments_reads supply yields.wf fits) ?_
    rintro arguments after ⟨argumentYields, progress⟩
    have shorter := progress isOpen
    refine RunMeets.finish
      (RunMeets.pure ⟨(yields.trans argumentYields).finish originWf (by omega) rfl
      (.of_children ?_), by omega, fun _ => shorter⟩)
    simp [Form.children, Form.fields, Field.toList]
  · rename_i isArrow
    refine RunMeets.advance (RunMeets.bind (accessed (by rw [isArrow]; rfl)) ?_)
    exact fun access after read => RunMeets.pure ⟨read.1, by omega, fun _ => read.2⟩
  · rename_i isArrow
    refine RunMeets.advance (RunMeets.bind (accessed (by rw [isArrow]; rfl)) ?_)
    exact fun access after read => RunMeets.pure ⟨read.1, by omega, fun _ => read.2⟩
  · rename_i isDoubleColon
    obtain ⟨sign, shorter⟩ := signed (by rw [isDoubleColon]; rfl)
    refine RunMeets.advance (RunMeets.bind (staticAccess_reads supply originWf sign (by omega)
      (fits.imp_right (by omega))) ?_)
    exact fun access after read => RunMeets.pure ⟨read.1, by omega, fun _ => by omega⟩
  · exact RunMeets.pure ⟨yields, Nat.le_refl _, by simp⟩

theorem trailers_reads (supply : SuppliesPhrases lost context fuel grammar limit) {operand : Node}
    (originWf : origin.Wf) (yields : YieldsNodes context origin [operand] before)
    (begun : before.remaining < origin.remaining) (fits : lost ∨ before.remaining ≤ limit) :
    RunMeets lost context (trailers fuel grammar origin.start operand) before fun target after =>
      YieldsNodes context origin [target] after ∧ after.remaining ≤ before.remaining := by
  unfold trailers
  refine @RunMeets.loop Node lost context _ (fun operand cursor =>
    YieldsNodes context origin [operand] cursor ∧ cursor.remaining ≤ before.remaining) _ ?_ fuel
      operand before ⟨yields, Nat.le_refl _⟩ (supply.enough fits)
  rintro operand cursor ⟨yields, fewer⟩
  refine (trailer_reads supply originWf yields (by omega) (fits.imp_right (by omega))).mono ?_
  rintro ⟨target, continues⟩ after ⟨read, rest, progress⟩
  exact ⟨fun goesOn => ⟨⟨read, by omega⟩, Or.inr (progress goesOn)⟩, fun _ => ⟨read, by omega⟩⟩

theorem assignment_reads (supply : SuppliesPhrases lost context fuel grammar limit) {target : Node}
    (originWf : origin.Wf) (yields : YieldsNodes context origin [target] before)
    (begun : before.remaining < origin.remaining) (fits : lost ∨ before.remaining ≤ limit) :
    RunMeets lost context (assignment grammar origin.start target) before fun expr after =>
      YieldsNodes context origin [expr] after ∧ after.remaining ≤ before.remaining := by
  unfold assignment
  -- What follows the sign of an assignment, of whatever mode.
  have assigned : ∀ (mode : AssignMode) (cursor : Cursor),
      YieldsNodes context origin [target] cursor → cursor.remaining < before.remaining →
      RunMeets lost context (do
        let source ← grammar .expr
        finish origin.start (.bare (.assign mode (some target) source))) cursor
          fun expr after => YieldsNodes context origin [expr] after ∧
            after.remaining ≤ before.remaining := by
    intro mode cursor signed shorter
    refine RunMeets.bind (supply.expr signed.wf (fits.imp_right (by omega))) ?_
    intro source after parsed
    have fewer := parsed.yields.remaining_le
    refine RunMeets.finished ⟨(signed.trans parsed.yields).finish originWf (by omega) rfl
      (.of_children ?_), by omega⟩
    simp [Form.children, Form.fields, Field.toList]
  refine RunMeets.kind ?_
  split
  · rename_i isEquals
    obtain ⟨sign, shorter⟩ := YieldsNodes.token context yields.wf (by rw [isEquals]; rfl)
    refine RunMeets.advance (RunMeets.bind (eat_reads rfl sign.wf) ?_)
    rintro byRef cursor ⟨referenced, _⟩
    have fewer := referenced.remaining_le
    exact assigned _ cursor ((yields.andThen sign).andThen referenced) (by omega)
  · rename_i op isCompound
    obtain ⟨sign, shorter⟩ := YieldsNodes.token context yields.wf (by rw [isCompound]; rfl)
    exact RunMeets.advance (assigned _ _ (yields.andThen sign) shorter)
  · exact RunMeets.pure ⟨yields, Nat.le_refl _⟩

theorem nameExpr_reads (wf : before.Wf) (enough : lost ∨ before.remaining < fuel) :
    RunMeets lost context (nameExpr fuel) before (ReadsPhrase context before) := by
  unfold nameExpr
  refine RunMeets.start (RunMeets.bind (name_reads wf enough) ?_)
  intro answer after parsed
  cases answer with
  | none => exact RunMeets.pure parsed
  | some name =>
      have shorter := parsed.progress (by simp)
      refine RunMeets.kind ?_
      split
      · exact RunMeets.pure parsed
      · exact RunMeets.pure parsed
      · exact RunMeets.map (RunMeets.finished (.of_node (parsed.yields.finish wf shorter rfl
          (.of_children rfl)) shorter))

end Parse
end PhpTree
