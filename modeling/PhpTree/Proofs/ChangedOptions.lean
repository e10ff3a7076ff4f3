import PhpTree.Proofs.ParseAgreement
import PhpTree.Proofs.Termination

/-! # What the options change

Whether comments are attached is asked in one place, where those before the current token
are handed out; they are dropped from the cursor either way.  So a parse that attaches no
comments goes the same way as one that does, and what it reads is the other's program with
the comments left out.

A level that is refused for the nesting limit leaves an error, even if the report of it is
dropped: then the error before it stays.  A parse without errors was never refused, so it
goes the same way under every higher limit. -/
set_option autoImplicit false
namespace PhpTree

/-! ## Comments -/

def Info.uncommented (info : Info) : Info :=
  { info with attributes := { info.attributes with comments := [] } }

def Node.uncommented : Node → Node := mapInfo Info.uncommented

def Program.uncommented (program : Program) : Program where
  root := program.root.uncommented
  errors := program.errors

def Revision.uncommenting (options : Options) (lines : LineIndex) : Revision where
  toContexts := .everyRun { options := { options with attachComments := true }, lines }
    { options := { options with attachComments := false }, lines } rfl
  lines := rfl
  fits _ := True
  fits_step _ _ := trivial
  begins _ := True
  start _ := trivial
  annotates _ others := others.isEmpty
  uncommented := rfl
  comments _ := rfl
  partners := .inl fun _ => trivial
  change := Info.uncommented
  token _ := rfl
  place {cursor start attributes other} _ _ accord := by
    have kept : { attributes with comments := [] } = other :=
      Attributes.Accord.eq ⟨accord.flags, accord.doc, (List.isEmpty_iff.mp accord.comments).symm⟩
    exact congrArg (fun attributes : Attributes => ({ attributes, position := some _ } : Info)) kept
  prepend {_ others _} empty := by
    obtain rfl : others = [] := List.isEmpty_iff.mp empty
    rfl

theorem Node.uncommented_position (node : Node) : node.uncommented.position = node.position := by
  cases node with
  | mk info form => rw [uncommented, mapInfo_mk]; rfl

theorem Parse.extent?_uncommented (stmts : List Node) :
    extent? (stmts.map Node.uncommented) = extent? stmts := by
  have kept : Node.position ∘ Node.uncommented = Node.position :=
    funext Node.uncommented_position
  simp only [extent?, List.head?_map, List.getLast?_map, Option.bind_map, kept]

theorem Program.uncommented_mk (comments : List Comment) (stmts : List Node)
    (errors : List ParseError) :
    Program.uncommented
        { root := .mk { attributes := { comments }, position := Parse.extent? stmts }
            (.stmtList stmts)
          errors } =
      { root := .mk { position := Parse.extent? (stmts.map Node.uncommented) }
          (.stmtList (stmts.map Node.uncommented))
        errors } := by
  rw [Parse.extent?_uncommented]
  exact congrArg (Program.mk · errors) (Node.mapInfo_mk ..)

namespace Parser

/-- Both parses begin at one cursor: the items do not depend on what is attached. -/
theorem outline_uncommented (options : Options) (source : List UInt8) (fuel : Nat) :
    (ofSource { options with attachComments := false } source).outline fuel =
      (ofSource { options with attachComments := true } source).outline fuel := by
  have agrees : (ofSource { options with attachComments := false } source).cursor.AgreesUpToPlaces
      (ofSource { options with attachComments := true } source).cursor :=
    @ofSource_agreesUpToPlaces options source source rfl
  exact @outline_congr { options with attachComments := false }
    { options with attachComments := true } _ _ rfl agrees fuel

theorem programWith_uncommented (options : Options) (source : List UInt8) (fuel : Nat) :
    ((ofSource { options with attachComments := false } source).programWith fuel).map
        (fun result => result.1) =
      ((ofSource { options with attachComments := true } source).programWith fuel).map
        fun result => result.1.uncommented := by
  have outlines := congrArg Option.isSome (outline_uncommented options source fuel)
  rw [outline, outline, map_programWith, map_programWith, Parse.program_eq_map,
    Parse.program_eq_map] at outlines
  simp only [Option.isSome_map] at outlines
  rw [map_programWith _ _ fun program => program, map_programWith, Parse.program_eq_map,
    Parse.program_eq_map, Option.map_map, Option.map_map]
  cases run : Parse.collect fuel (Parse.topLevel (Grammar.closed fuel))
      (ofSource { options with attachComments := true } source).context
      (ofSource { options with attachComments := true } source).cursor with
  | none =>
      rw [run, Option.isSome_none, Option.isSome_eq_false_iff] at outlines
      rw [Option.isNone_iff_eq_none.mp outlines]
      rfl
  | some result =>
      obtain ⟨stmts, between⟩ := result
      obtain ⟨uncommented, _⟩ := Revision.statements_of_run
        (.uncommenting options (LineIndex.ofSource source))
        (Grammar.closed_simulates (Nat.le_refl _) .statement) (Nat.le_refl _) trivial run trivial
      have same : Parse.collect fuel (Parse.topLevel (Grammar.closed fuel))
          (ofSource { options with attachComments := false } source).context
          (ofSource { options with attachComments := false } source).cursor = _ := uncommented
      rw [same]
      exact congrArg some (Program.uncommented_mk ..).symm

end Parser

/-- Reading without comments ends where reading with them does, and then it comes to the same
program without its comments. Everything else is the same: the forms and texts of the nodes, their
positions, their flags and doc comments, and the errors. -/
theorem parse_without_comments (options : Options) (source : List UInt8) :
    ((Parser.ofSource { options with attachComments := false } source).Ends ↔
        (Parser.ofSource { options with attachComments := true } source).Ends) ∧
      parse { options with attachComments := false } source =
        (parse { options with attachComments := true } source).map Program.uncommented := by
  have read := Parser.programWith_uncommented options source
  refine ⟨?_, ?_⟩
  · have both := fun fuel => congrArg Option.isSome (read fuel)
    simp only [Option.isSome_map] at both
    simp only [Parser.ends_iff_isSome, both]
  · rw [parse, parse, Option.map_map]
    exact read _

/-! ## The nesting limit -/

/-- Runs that end without errors are compared with runs under a higher limit. -/
def Comparison.raised (context : Context) {limit : Nat}
    (higher : context.options.maxDepth ≤ limit) :
    Comparison where
  toContexts :=
    .errorFree context { context with options := { context.options with maxDepth := limit } } higher
  lines := rfl
  attachComments := rfl
  fits _ := True
  fits_of_onward _ _ := trivial

/-- A file that is accepted under one limit is read to the same program under every higher limit. -/
theorem parse_of_raised_limit {options : Options} {limit : Nat} {source : List UInt8}
    {program : Program} (higher : options.maxDepth ≤ limit)
    (parsed : parse options source = some program) (clean : program.errors = []) :
    parse { options with maxDepth := limit } source = some program := by
  obtain ⟨after, run⟩ := parse_eq_some.mp parsed
  have accepted := Parser.programWith_run run
  generalize (Parser.ofSource options source).fuel = fuel at accepted
  obtain ⟨between, errors, same⟩ := Parse.program_of_run
    (.raised (Parser.ofSource options source).context higher)
    (Grammar.closed_simulates (Nat.le_refl fuel) .statement) (Nat.le_refl _) trivial accepted
  have unharmed : between.errors = [] := List.reverse_eq_nil_iff.mp (errors ▸ clean)
  -- The cursor a parse begins at is the same under both limits.
  exact parse_of_endsIn ⟨fuel, same unharmed⟩

theorem parse_of_raised_limit_call :
    ∃ program, parse { maxDepth := 4 } (bytesOf "<?php f(g($x));") = some program ∧
      program.errors = [] ∧ parse {} (bytesOf "<?php f(g($x));") = some program := by
  have ends : ((parse { maxDepth := 4 } (bytesOf "<?php f(g($x));")).map Program.errors) =
      some [] := by
    decide +kernel
  obtain ⟨program, parsed, clean⟩ := Option.map_eq_some_iff.mp ends
  have raised : parse {} (bytesOf "<?php f(g($x));") = some program :=
    @parse_of_raised_limit { maxDepth := 4 } 256 _ _ (by decide) parsed clean
  exact ⟨program, parsed, clean, raised⟩

end PhpTree
