import PhpTree.Proofs.CursorAgreement
import PhpTree.Proofs.Pairing.Productions
import PhpTree.Proofs.Termination

/-! # Layout does not change the tree

Two sources with the same tokens, plain comments left out, are read in tandem from cursors
that are alike.  What is read off a source besides its tokens, offsets and plain comments,
need not be the same for this.  Nodes look the same when they are, positions and comments
left out. -/
set_option autoImplicit false
namespace PhpTree

def Pairing.upToPlaces (left right : Context)
    (limit : left.options.maxDepth = right.options.maxDepth) : Pairing where
  toContexts := .everyRun left right limit
  toParting := .never _
  aligned := Cursor.AgreesUpToPlaces
  aligned_kept := Cursor.AgreesUpToPlaces.kept
  kind := Cursor.AgreesUpToPlaces.kind
  text := Cursor.AgreesUpToPlaces.text
  nextKind agrees _ := agrees.nextKind
  note _ agrees := agrees.note _ _
  advance agrees _ := agrees.advance
  report expected agrees _ := agrees.report expected
  reportTooDeep limit agrees _ := agrees.reportTooDeep limit
  semicolon agrees _ := .inl agrees.advance
  skipToStatementEnd agrees := .inl (Cursor.AgreesUpToPlaces.paced.skipToStatementEnd agrees)
  skipStatement agrees _ := .inl (Cursor.AgreesUpToPlaces.paced.skipStatement agrees)
  begins _ _ := True
  start _ := trivial
  docView := id
  doc := Cursor.AgreesUpToPlaces.doc
  annotates _ _ := True
  uncommented := trivial
  comments _ := trivial
  partners := .inl fun _ => trivial
  onLeft info := { attributes := { info.attributes with comments := [] } }
  onRight info := { attributes := { info.attributes with comments := [] } }
  settled _ := rfl
  token _ := rfl
  place {here there start begin attributes other} _ _ accord := by
    have kept : { attributes with comments := [] } = { other with comments := [] } :=
      Attributes.Accord.eq ⟨accord.flags, accord.doc, rfl⟩
    exact congrArg (fun attributes : Attributes => ({ attributes } : Info)) kept
  prepend _ same := same

theorem Lexer.faces_eq_of_bytes {lexer other : Lexer}
    (same : ((lexer.tokens.filter fun token => token.kind ≠ .comment).map fun token =>
        (token.kind, token.bytes)) =
      (other.tokens.filter fun token => token.kind ≠ .comment).map fun token =>
        (token.kind, token.bytes)) : lexer.faces = other.faces := by
  have texts := congrArg (List.map (Prod.map id Utf8.decode)) same
  rwa [List.map_map, List.map_map] at texts

namespace Parser

/-- The program that a parser reads with the given fuel, without positions and comments. -/
def outline (fuel : Nat) (parser : Parser) : Option Program :=
  (parser.programWith fuel).map fun result => result.1.stripped

theorem ends_iff_outline {parser : Parser} :
    parser.Ends ↔ ∃ fuel, (parser.outline fuel).isSome = true := by
  simp only [ends_iff_isSome, outline, Option.isSome_map]

theorem outline_of_agreesUpToPlaces {options others : Options} {source other : List UInt8}
    (limit : options.maxDepth = others.maxDepth)
    (agrees : (ofSource options source).cursor.AgreesUpToPlaces (ofSource others other).cursor)
    {fuel : Nat}
    {program : Program} (read : (ofSource options source).outline fuel = some program) :
    (ofSource others other).outline fuel = some program := by
  let pairing :=
    Pairing.upToPlaces (ofSource options source).context (ofSource others other).context
    limit
  have round : StaysAligned pairing (Pairing.DecidesAlike pairing.Found)
      (Parse.topLevel (Grammar.closed fuel)) (Parse.topLevel (Grammar.closed fuel)) :=
    (Parse.topLevel_simulates (Grammar.closed_simulates (Nat.le_refl _) .statement)).mono id
      fun met => met.resolve_right False.elim
  rw [outline, map_programWith, Parse.program_eq_map, Option.map_map] at read ⊢
  obtain ⟨⟨stmts, after⟩, run, rfl⟩ := Option.map_eq_some_iff.mp read
  obtain ⟨found, behind, otherRun, listed, ended⟩ :=
    (Simulates.collect round (Nat.le_refl fuel)).matched agrees run trivial
  have errors : after.errors.map ParseError.stripped = behind.errors.map ParseError.stripped :=
    ended.errors
  have same : stmts.map Node.stripped = found.map Node.stripped := listed
  refine Option.map_eq_some_iff.mpr ⟨(found, behind), otherRun, ?_⟩
  simp [Program.stripped, Node.stripped_mk, Form.map, same, errors]

theorem outline_congr {options others : Options} {source other : List UInt8}
    (limit : options.maxDepth = others.maxDepth)
    (agrees : (ofSource options source).cursor.AgreesUpToPlaces (ofSource others other).cursor)
    (fuel : Nat) :
    (ofSource options source).outline fuel = (ofSource others other).outline fuel := by
  refine Option.ext fun program => ⟨fun read => ?_, fun read => ?_⟩
  · exact outline_of_agreesUpToPlaces limit agrees read
  · exact outline_of_agreesUpToPlaces limit.symm agrees.symm read

end Parser

/-- Two sources with the same tokens, plain comments left out, are parsed to the same program up to
positions and comments; reading one ends where reading the other does. -/
theorem parse_stripped_of_faces_eq {options : Options} {source other : List UInt8}
    (same : (Lexer.ofSource options.shortTags source).faces =
      (Lexer.ofSource options.shortTags other).faces) :
    ((Parser.ofSource options source).Ends ↔ (Parser.ofSource options other).Ends) ∧
      (parse options source).map Program.stripped = (parse options other).map Program.stripped := by
  have agrees := Parser.ofSource_agreesUpToPlaces same
  have outlines := Parser.outline_congr rfl agrees
  have fuels : (Parser.ofSource options source).fuel = (Parser.ofSource options other).fuel := by
    rw [Parser.fuel, Parser.fuel, agrees.remaining]
  refine ⟨?_, ?_⟩
  · simp only [Parser.ends_iff_outline, outlines]
  · have read := outlines (Parser.ofSource options source).fuel
    rw [parse, parse, Option.map_map, Option.map_map, Parser.program, Parser.program, ← fuels]
    exact read

theorem parse_stripped_of_faces_eq_commented :
    let source := bytesOf "<?php /** d */ function f() \x7b\x7d echo ); /* open"
    let other := bytesOf "<?php /** d */ // plain\nfunction f( ) \x7b /**/ \x7d echo ) ;/* open"
    (Lexer.ofSource false source).faces = (Lexer.ofSource false other).faces ∧
      ((Parser.ofSource {} source).Ends ↔ (Parser.ofSource {} other).Ends) ∧
      (parse {} source).map Program.stripped = (parse {} other).map Program.stripped := by
  intro source other
  have same : (Lexer.ofSource false source).faces = (Lexer.ofSource false other).faces :=
    Lexer.faces_eq_of_bytes (by decide +kernel)
  exact ⟨same, @parse_stripped_of_faces_eq {} source other same⟩

end PhpTree
