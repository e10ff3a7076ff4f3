import PhpTree.Proofs.Reading.Statements

/-! # Reading whole programs

The statements of a program cover its significant tokens up to the end of file. -/
set_option autoImplicit false
namespace PhpTree

namespace Grammar

/-- Whenever a phrase of the closed grammar has an answer, it keeps its promise. -/
theorem closed_reads {context : Context} (fuel : Nat) :
    ∀ (phrase : Phrase) (before : Cursor), phrase.MayBegin before → before.Wf →
      RunMeets True context (closed fuel phrase) before (phrase.Promise True context before) := by
  induction fuel with
  | zero =>
      intro phrase before _ _
      exact RunMeets.out trivial rfl
  | succ fuel inductionHypothesis =>
      intro phrase before due wf
      have supply : SuppliesPhrases True context fuel (closed fuel) before.remaining :=
        ⟨Or.inl trivial, fun phrase cursor due wf _ => inductionHypothesis phrase cursor due wf⟩
      exact Parse.rule_reads phrase supply due wf (Or.inl trivial)
        (fun _ cursor wf _ => inductionHypothesis .expr cursor trivial wf) (fun _ => Or.inl trivial)

end Grammar

namespace Parse

variable {lost : Prop} {context : Context} {fuel : Nat} {grammar : Grammar} {before : Cursor}

/-- At the outermost level every round takes a token, and only the end of file ends it. -/
theorem topLevel_reads (wf : before.Wf)
    (statement : endsBody before.kind = false →
      RunMeets lost context (grammar .statement) before (ReadsElement lost context before)) :
    RunMeets lost context (topLevel grammar) before fun answer after =>
      ReadsElement lost context before answer.1 after ∧ answer.2 = true ∨
        answer = (none, false) ∧ after = before ∧ after.kind = .eof := by
  unfold topLevel
  refine RunMeets.kind ?_
  split <;> rename_i here
  · exact RunMeets.pure (Or.inr ⟨rfl, rfl, here⟩)
  · have reported := @YieldsNodes.report context before wf .statement
    have kept : (before.report context .statement).kind = before.kind := Cursor.record_kind _ _
    have structural : (before.report context .statement).kind.isStructural = true := by
      rw [kept, here]
      rfl
    have shorter :=
      YieldsNodes.advance_lt context reported.wf (YieldsNodes.ne_eof_of_isStructural structural)
    exact RunMeets.report (RunMeets.advance (RunMeets.pure (Or.inl
      ⟨⟨reported.trans (.advance reported.wf structural),
        Or.inr (Nat.lt_of_lt_of_le shorter reported.remaining_le), by simp⟩, rfl⟩)))
  · rename_i notBrace
    have goesOn : endsBody before.kind = false := by
      unfold endsBody
      split <;> simp_all
    refine RunMeets.bind (statement goesOn) ?_
    intro answer after elapsed
    exact RunMeets.pure (Or.inl ⟨elapsed, rfl⟩)

/-- What a program consists of: the statements up to the end of file, and the errors met. -/
def ReadsProgram (context : Context) (before : Cursor) (program : Program)
    (after : Cursor) : Prop :=
  ∃ stmts last, YieldsNodes context before stmts last ∧ last.kind = .eof ∧
    (∀ stmt ∈ stmts, ¬ stmt.IsHollow) ∧
    program.root = .mk { attributes := { comments := last.comments context }
                         position := extent? stmts } (.stmtList stmts) ∧
    program.errors = last.errors.reverse ∧ after = { last.dropComments with errors := [] }

theorem program_reads (wf : before.Wf) (enough : lost ∨ before.remaining < fuel)
    (statement : ∀ cursor : Cursor, cursor.Wf → cursor.remaining ≤ before.remaining →
      endsBody cursor.kind = false →
      RunMeets lost context (grammar .statement) cursor (ReadsElement lost context cursor)) :
    RunMeets lost context (program fuel grammar) before (ReadsProgram context before) := by
  unfold program
  have stmts : RunMeets lost context (collect fuel (topLevel grammar)) before fun stmts last =>
      (YieldsNodes context before stmts last ∧ ∀ stmt ∈ stmts, ¬ stmt.IsHollow) ∧
        last.kind = .eof := by
    refine @RunMeets.collect Node lost context before _ (fun stmts cursor =>
      YieldsNodes context before stmts cursor ∧ ∀ stmt ∈ stmts, ¬ stmt.IsHollow) _ ?_ fuel
        ⟨.refl wf, by simp⟩ enough
    rintro found cursor ⟨yields, solid⟩
    refine (topLevel_reads yields.wf (statement cursor yields.wf yields.remaining_le)).mono ?_
    rintro ⟨answer, continues⟩ after (⟨elapsed, rfl⟩ | ⟨same, rfl, ends⟩)
    · refine ⟨fun _ => ⟨⟨yields.trans elapsed.yields, ?_⟩, elapsed.progress⟩, by simp⟩
      intro stmt member
      rcases List.mem_append.mp member with member | member
      · exact solid stmt member
      · exact elapsed.solid stmt (Option.mem_toList.mp member)
    · cases same
      exact ⟨by simp, fun _ => ⟨by simpa using ⟨yields, solid⟩, ends⟩⟩
  refine RunMeets.bind stmts ?_
  rintro stmts last ⟨⟨yields, solid⟩, ends⟩
  exact RunMeets.takeComments (RunMeets.done rfl ⟨stmts, last, yields, ends, solid, rfl, rfl, rfl⟩)

theorem program_closed_reads (fuel : Nat) (wf : before.Wf) :
    RunMeets True context (program fuel (Grammar.closed fuel)) before
      (ReadsProgram context before) :=
  program_reads wf (Or.inl trivial) fun cursor wf _ goesOn =>
    Grammar.closed_reads fuel .statement cursor goesOn wf

end Parse

theorem Cursor.ofItems_eq (context : Context) (item : Item) (following : List Item) :
    ∃ errors journal,
      Cursor.ofItems context item following =
        { current := item
          following
          pendingDoc := item.docComment?.map Token.text
          errors
          journal } ∧
      (errors = [] → item.unterminated = [] ∧
        ∀ next ∈ following.head?, next.unterminated = []) := by
  unfold ofItems
  rw [view_eq]
  obtain ⟨errors, journal, equation, quiet⟩ := lookAhead_eq context
    { current := item
      following
      pendingDoc := item.docComment?.map Token.text
      errors := (item.unterminated.map fun token =>
        ParseError.unterminatedComment (context.lines.position token.span)).reverse ++ []
      journal := (item.unterminated.map fun token =>
        JournalEntry.unterminatedComment (context.lines.position token.span)).reverse ++ [] }
  refine ⟨_, _, equation, fun none => ?_⟩
  obtain ⟨noLater, noEarlier⟩ := List.append_eq_nil_iff.mp none
  exact ⟨by simpa using noEarlier, quiet noLater⟩

namespace Parser

/-- The significant tokens of the source are ahead. Comments that were never closed are hidden, as
long as nothing has been reported. -/
theorem ofSource_cursor (options : Options) (source : List UInt8) :
    (ofSource options source).cursor.Wf ∧ (ofSource options source).cursor.depth = 0 ∧
      (ofSource options source).cursor.tokens =
        (Lexer.ofSource options.shortTags source).tokens.filter Token.isSignificant ∧
      ((ofSource options source).cursor.errors = [] →
        ∀ token ∈ (Lexer.ofSource options.shortTags source).tokens,
          token.isUnterminatedComment = true →
            token ∈ (ofSource options source).cursor.hidden) := by
  have stream := (Lexer.ofSource options.shortTags source).tokens_stream
  have significant := stream.filter Token.isSignificant Token.isSignificant_of_eof
  rw [← Item.gather_tokens] at significant ⊢
  have travels := Item.unterminated_of_mem stream
  unfold ofSource
  cases gathered : Item.gather (Lexer.ofSource options.shortTags source).tokens with
  | nil => exact absurd gathered (Item.gather_ne_nil stream)
  | cons item following =>
      rw [gathered] at significant travels
      obtain ⟨errors, journal, equation, quiet⟩ := Cursor.ofItems_eq
        { options, lines := LineIndex.ofSource source } item following
      simp only [equation]
      refine ⟨significant, trivial, rfl, fun clean token member opened => ?_⟩
      obtain ⟨holder, holds, inside⟩ := travels token member opened
      obtain ⟨firstClosed, secondClosed⟩ := quiet clean
      rcases List.mem_cons.mp holds with rfl | holds
      · simp [firstClosed] at inside
      · cases following with
        | nil => simp at holds
        | cons next rest =>
            rcases List.mem_cons.mp holds with rfl | holds
            · simp [secondClosed holder rfl] at inside
            · exact List.mem_flatMap.mpr ⟨holder, holds, inside⟩

end Parser

theorem Cursor.Wf.following_eq_nil {cursor : Cursor} (wf : cursor.Wf) (ends : cursor.kind = .eof) :
    cursor.following = [] := by
  cases following : cursor.following with
  | nil => rfl
  | cons item rest =>
      have stream :
        Stream cursor.lastEnd (cursor.current.token :: item.token :: rest.map Item.token) := by
        simpa [Cursor.Wf, Cursor.tokens, following] using wf
      cases stream with
      | cons after goesOn covers tail => exact absurd ends goesOn

/-- How the significant tokens of a source are cut into the statements of a program and what stands
between them. -/
structure Program.Covers (options : Options) (source : List UInt8) (program : Program)
    (pieces : List Piece) : Prop where
  tokens : ∃ last : Token, last.kind = .eof ∧
    (Lexer.ofSource options.shortTags source).tokens.filter Token.isSignificant =
      tokensOf pieces ++ [last]
  root : program.root.form = .stmtList (nodesOf pieces)
  solid : ∀ stmt ∈ nodesOf pieces, ¬ stmt.IsHollow
  placed : program.root.position = Parse.extent? (nodesOf pieces)
  laid : ∀ child tokens, Piece.node child tokens ∈ pieces →
    LaidOut (LineIndex.ofSource source) (program.errors = []) child tokens
  loose : program.errors = [] → ∀ token, Piece.loose token ∈ pieces →
    token.kind.isStructural = true
  comments : program.errors = [] →
    ∀ token ∈ (Lexer.ofSource options.shortTags source).tokens,
      token.isUnterminatedComment = false

theorem Parser.programWith_run {fuel : Nat} {parser after : Parser} {program : Program}
    (ends : parser.programWith fuel = some (program, after)) :
    Parse.program fuel (Grammar.closed fuel) parser.context parser.cursor =
      some (program, after.cursor) := by
  unfold programWith at ends
  split at ends
  · rename_i found cursor run
    obtain ⟨rfl, rfl⟩ : found = program ∧ { parser with cursor } = after := by simpa using ends
    exact run
  · simp at ends

theorem parse_eq_some {options : Options} {source : List UInt8} {program : Program} :
    parse options source = some program ↔
      ∃ after, (Parser.ofSource options source).program = some (program, after) := by
  simp [parse]

theorem parse_covers {options : Options} {source : List UInt8} {program : Program}
    (parsed : parse options source = some program) :
    ∃ pieces, program.Covers options source pieces := by
  obtain ⟨wf, depth, tokens, comments⟩ := Parser.ofSource_cursor options source
  obtain ⟨after, run⟩ := parse_eq_some.mp parsed
  obtain ⟨stmts, last, ⟨pieces, passage, rfl⟩, ends, solid, root, errors, _⟩ :=
    (Parse.program_closed_reads _ wf).of_run (Parser.programWith_run run)
  have done := passage.wf.following_eq_nil ends
  have clean : program.errors = [] ↔ last.errors = [] := by rw [errors, List.reverse_eq_nil_iff]
  refine ⟨pieces, ⟨last.current.token, ends, ?_⟩, ?_, solid, ?_, ?_, ?_, ?_⟩
  · rw [← tokens, passage.tokens]
    simp [Cursor.tokens, done]
  · rw [root]
    rfl
  · rw [root]
    rfl
  · intro child childTokens member
    exact (passage.laid child childTokens member).weaken clean.mp
  · exact fun none => passage.loose (clean.mp none)
  · intro none token member
    have quiet := clean.mp none
    have hidden : (Parser.ofSource options source).cursor.hidden = [] := by
      rw [passage.viewed quiet]
      simp [Cursor.hidden, done]
    cases opened : token.isUnterminatedComment with
    | false => rfl
    | true =>
        have := comments (passage.clean_before quiet) token member opened
        simp [hidden] at this

end PhpTree
