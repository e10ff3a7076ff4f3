import PhpTree.Proofs.Building
import PhpTree.Proofs.DocScope

/-! # Who claims a doc comment

A declaration takes the doc comment that waits when it begins, a method when its
`function` comes.  What waits there is the last doc comment before that token, and no
one else gets it: once it is taken, only doc comments further on can wait again.  So
the doc comments of a tree lie in source order along the parse, each between what was
claimed before it and what can be claimed after. -/
set_option autoImplicit false
namespace PhpTree

/-! ## Claims -/

/-- The last doc comment that begins before the offset. -/
def docBefore? (tokens : List Token) (offset : Nat) : Option Token :=
  (tokens.filter fun token => token.kind == .docComment && decide (token.start < offset)).getLast?

namespace Node

/-- The token at which a node claims its doc comment: its first one, or for a method its `function`
after the modifiers. -/
def claimToken? (tokens : List Token) (node : Node) : Option Token :=
  let own := (tokens.filter Token.isSignificant).dropWhile fun token =>
    decide (token.start < node.position.elim 0 Position.startOffset)
  match node.form with
  | .function .. | .classDecl .. | .closure .. => own.head?
  | .classMethod .. =>
    (own.dropWhile fun token => token.kind.isModifier).head?.filter fun token =>
      token.kind == .keyword .function
  | _ => none

/-- The doc comment that is claimed there. -/
def claimedDoc? (tokens : List Token) (node : Node) : Option Token :=
  (node.claimToken? tokens).bind fun token => docBefore? tokens token.start

def isDocumented (node : Node) : Bool := node.attributes.docComment.isSome

theorem kindName_of_claimedDoc? {tokens : List Token} {node : Node} {doc : Token}
    (claimed : node.claimedDoc? tokens = some doc) :
    node.kindName ∈ ["Function", "Class", "ClassMethod", "Closure"] := by
  obtain ⟨token, claims, _⟩ := Option.bind_eq_some_iff.mp claimed
  unfold claimToken? at claims
  unfold kindName
  cases form : node.form <;> simp only [form] at claims
  all_goals first | cases claims | simp [Form.kindName]

end Node

/-! ## Doc comments in the token stream -/

section Stream
variable {offset : Nat} {tokens : List Token} (stream : Stream offset tokens)
include stream

theorem docBefore?_of_split {front back : List Token} {token : Token}
    (split : tokens = front ++ token :: back) :
    docBefore? tokens token.start = (front.filter (·.kind == .docComment)).getLast? := by
  have starts := List.pairwise_map.mp stream.starts
  rw [split] at starts
  obtain ⟨_, fromToken, across⟩ := List.pairwise_append.mp starts
  have inFront : ∀ other ∈ front,
      (other.kind == .docComment && decide (other.start < token.start)) =
        (other.kind == .docComment) := by
    intro other member
    simp [across other member token List.mem_cons_self]
  have behind : ∀ other ∈ token :: back,
      ¬ (other.kind == .docComment && decide (other.start < token.start)) = true := by
    intro other member
    have later : token.start ≤ other.start := by
      rcases List.mem_cons.mp member with rfl | inBack
      · exact Nat.le_refl _
      · exact Nat.le_of_lt (List.rel_of_pairwise_cons fromToken inBack)
    simp [Nat.not_lt.mpr later]
  rw [docBefore?, split, List.filter_append, List.filter_eq_nil_iff.mpr behind, List.append_nil,
    List.filter_congr inFront]

theorem docBefore?_item {earlier later : List Item} {item : Item}
    (split : Item.gather tokens = earlier ++ item :: later) :
    docBefore? tokens item.token.start =
      item.docComment?.or
        (earlier.getLast?.bind fun previous => docBefore? tokens previous.token.start) := by
  obtain ⟨front, gap, back, cut⟩ := Item.exists_cut split
  have own : (gap.filter (·.kind == .docComment)).getLast? = item.docComment? := by
    have trivia : ∀ token ∈ gap.reverse, decide (token.kind.isTrivia = true ∧
        (token.kind == .docComment) = true) = (token.kind == .docComment) := by
      intro token _
      cases token.kind <;> rfl
    rw [Item.docComment?, cut.comments, ← List.filter_reverse, List.find?_filter,
      ← List.head?_filter, List.getLast?_eq_head?_reverse, ← List.filter_reverse]
    exact congrArg List.head? (List.filter_congr trivia).symm
  have before : (front.filter (·.kind == .docComment)).getLast? =
      earlier.getLast?.bind fun previous => docBefore? tokens previous.token.start := by
    rcases List.eq_nil_or_concat' front with rfl | ⟨front, last, rfl⟩
    · have first : earlier.getLast? = none := by simpa using cut.previous.symm
      rw [first]
      rfl
    · obtain ⟨previous, found, rfl⟩ : ∃ previous, earlier.getLast? = some previous ∧
          previous.token = last := by
        simpa [Option.map_eq_some_iff] using cut.previous.symm
      have member : previous ∈ Item.gather tokens := by
        rw [split]
        exact List.mem_append_left _ (List.mem_of_getLast? found)
      have noDoc : (previous.token.kind == .docComment) = false := by
        have plain := (Token.isSignificant_eq_true.mp (Item.token_gather member).2).1
        cases kind : previous.token.kind <;> first | rfl | simp [kind, TokenKind.isTrivia] at plain
      have whole : tokens = front ++ previous.token :: (gap ++ item.token :: back) := by
        simpa using cut.whole
      rw [found, Option.bind_some, docBefore?_of_split stream whole, List.filter_append]
      simp [noDoc]
  have whole : tokens = (front ++ gap) ++ item.token :: back := by simpa using cut.whole
  rw [docBefore?_of_split stream whole, List.filter_append, List.getLast?_append, own, before]

end Stream

/-! ## What waits at a cursor -/

/-- What waits at the cursor is the last doc comment before its token, and it begins at `low` or
later. -/
structure Cursor.HoldsDocBefore (tokens : List Token) (low : Nat) (cursor : Cursor) : Prop where
  stands : cursor.StandsAtItem (Item.gather tokens) low
  pending : ∀ text ∈ cursor.pendingDoc, ∃ doc, docBefore? tokens cursor.start = some doc ∧
    doc.text = text ∧ low ≤ doc.start

namespace Cursor.HoldsDocBefore

variable {lexer : Lexer} {low : Nat} {context : Context} {cursor after : Cursor}

theorem withDepth (pends : cursor.HoldsDocBefore lexer.tokens low) (depth : Nat) :
    HoldsDocBefore lexer.tokens low { cursor with depth } :=
  ⟨pends.stands.of_same rfl rfl rfl, pends.pending⟩

theorem taken (pends : cursor.HoldsDocBefore lexer.tokens low) :
    cursor.clearDoc.HoldsDocBefore lexer.tokens cursor.start :=
  ⟨pends.stands.from_start.of_same rfl rfl rfl, nofun⟩

theorem advance (pends : cursor.HoldsDocBefore lexer.tokens low) :
    (cursor.advance context).HoldsDocBefore lexer.tokens low := by
  have spaced := spaced_tokens lexer
  refine ⟨pends.stands.advance spaced.stream context, ?_⟩
  obtain ⟨earlier, item, split, same⟩ := pends.stands.ahead
  cases following : cursor.following with
  | nil =>
      simp only [Cursor.advance, following]
      exact pends.pending
  | cons next rest =>
      rw [following] at split
      obtain ⟨errors, journal, equation, -⟩ := cursor.advance_cons context next rest following
      have split' : Item.gather lexer.tokens = (earlier ++ [item]) ++ next :: rest := by
        simpa using split
      have inReach := docBefore?_item lexer.tokens_stream split'
      rw [List.getLast?_concat, Option.bind_some, same] at inReach
      rw [equation]
      intro text waits
      show ∃ doc, docBefore? lexer.tokens next.token.start = some doc ∧ _
      rw [inReach]
      cases found : next.docComment? with
      | none => exact pends.pending text (by simpa [found] using waits)
      | some doc =>
          obtain rfl : doc.text = text := by simpa [found] using waits
          have behind := spaced.stop_le_docComment split found
          have since := pends.stands.since
          rw [same] at behind
          refine ⟨doc, rfl, rfl, ?_⟩
          exact Nat.le_trans since (Nat.le_trans (Nat.le_add_right _ _) behind)

theorem step (pends : cursor.HoldsDocBefore lexer.tokens low) (moved : cursor.Step context after) :
    after.HoldsDocBefore lexer.tokens low := by
  have stands := pends.stands.step (inStream_gather lexer) moved
  rcases moved.stays_or_advances with rfl | ⟨token, -, -, kept | dropped⟩
  · exact pends.advance
  · refine ⟨stands, fun text waits => ?_⟩
    rw [Cursor.start, token]
    exact pends.pending text (kept ▸ waits)
  · exact ⟨stands, by simp [dropped]⟩

theorem steps (pends : cursor.HoldsDocBefore lexer.tokens low)
    (moved : Relation.ReflTransGen (Cursor.Step context) cursor after) :
    after.HoldsDocBefore lexer.tokens low := by
  induction moved with
  | refl => exact pends
  | tail _ last inductionHypothesis => exact inductionHypothesis.step last

end Cursor.HoldsDocBefore

/-- The tokens ahead of a cursor, found again by where they begin. -/
theorem Cursor.StandsAtItem.tokens_eq {lexer : Lexer} {base : Nat} {cursor : Cursor}
    (stands : cursor.StandsAtItem (Item.gather lexer.tokens) base) :
    ((lexer.tokens.filter Token.isSignificant).dropWhile fun token =>
      decide (token.start < cursor.start)) = cursor.tokens := by
  obtain ⟨earlier, item, split, same⟩ := stands.ahead
  have stream := inStream_gather lexer
  have read : lexer.tokens.filter Token.isSignificant =
      earlier.map Item.token ++ cursor.tokens := by
    rw [← Item.gather_tokens, split, Cursor.tokens, ← same]
    simp
  have starts := List.pairwise_map.mp stream.starts
  rw [Item.gather_tokens, read] at starts
  have passed : ∀ token ∈ earlier.map Item.token, decide (token.start < cursor.start) = true := by
    intro token member
    exact decide_eq_true ((List.pairwise_append.mp starts).2.2 token member _ List.mem_cons_self)
  rw [read, List.dropWhile_append_of_pos passed, Cursor.tokens,
    List.dropWhile_cons_of_neg (by simp [Cursor.start])]

theorem Form.Claims.token {lexer : Lexer} {base : Nat} {before claim : Cursor} {node : Node}
    (claims : node.form.Claims before claim)
    (stands : before.StandsAtItem (Item.gather lexer.tokens) base) {position : Position}
    (placed : node.position = some position) (begins : position.startOffset = before.start) :
    node.claimToken? lexer.tokens = some claim.current.token := by
  unfold Node.claimToken?
  rw [placed, Option.elim_some, begins, stands.tokens_eq]
  unfold Form.Claims at claims
  cases form : node.form <;> simp only [form] at claims
  case function | classDecl | closure => rw [claims]; rfl
  case classMethod =>
    obtain ⟨⟨passed, ahead, modifiers⟩, isFunction⟩ := claims
    have kind : claim.current.token.kind = .keyword .function := isFunction
    have reached : before.tokens.dropWhile (fun token => token.kind.isModifier) = claim.tokens := by
      rw [ahead, List.dropWhile_append_of_pos modifiers, Cursor.tokens, List.dropWhile_cons, kind]
      rfl
    show (before.tokens.dropWhile fun token => token.kind.isModifier).head?.filter _ = _
    rw [reached, Cursor.tokens, List.head?_cons]
    simp [kind]

/-! ## The doc comments of nodes -/

/-- The nodes carry doc comments they have claimed, no two the same, and all of them begin between
the bounds. -/
structure ClaimsBetween (tokens : List Token) (low high : Nat) (nodes : List Node) : Prop where
  claimed : ∀ node ∈ nodes, ∀ text ∈ node.attributes.docComment,
    ∃ doc, node.claimedDoc? tokens = some doc ∧ doc.text = text ∧ low ≤ doc.start ∧ doc.start < high
  distinct : ((nodes.filter Node.isDocumented).map (Node.claimedDoc? tokens)).Nodup

namespace ClaimsBetween

variable {tokens : List Token} {low middle high : Nat} {nodes more : List Node} {node other : Node}

theorem nil (tokens : List Token) (low high : Nat) : ClaimsBetween tokens low high [] :=
  ⟨by simp, by simp⟩

theorem perm (between : ClaimsBetween tokens low high nodes) (same : nodes.Perm more) :
    ClaimsBetween tokens low high more where
  claimed node member := between.claimed node (same.mem_iff.mpr member)
  distinct := ((same.filter _).map _).nodup_iff.mp between.distinct

theorem sublist (between : ClaimsBetween tokens low high nodes) (fewer : more.Sublist nodes) :
    ClaimsBetween tokens low high more where
  claimed node member := between.claimed node (fewer.subset member)
  distinct := between.distinct.sublist ((fewer.filter _).map _)

theorem of_mem_claims (between : ClaimsBetween tokens low high nodes) {claim : Option Token}
    (member : claim ∈ (nodes.filter Node.isDocumented).map (Node.claimedDoc? tokens)) :
    ∃ doc, claim = some doc ∧ low ≤ doc.start ∧ doc.start < high := by
  obtain ⟨node, kept, rfl⟩ := List.mem_map.mp member
  obtain ⟨inNodes, carries⟩ := List.mem_filter.mp kept
  obtain ⟨text, has⟩ := Option.isSome_iff_exists.mp carries
  obtain ⟨doc, claims, -, since, till⟩ := between.claimed node inNodes text has
  exact ⟨doc, claims, since, till⟩

theorem append (first : ClaimsBetween tokens low middle nodes)
    (second : ClaimsBetween tokens middle high more) (lower : low ≤ middle)
    (upper : middle ≤ high) : ClaimsBetween tokens low high (nodes ++ more) where
  claimed := by
    intro node member text carries
    rcases List.mem_append.mp member with inFirst | inSecond
    · obtain ⟨doc, claims, same, since, till⟩ := first.claimed node inFirst text carries
      exact ⟨doc, claims, same, since, Nat.lt_of_lt_of_le till upper⟩
    · obtain ⟨doc, claims, same, since, till⟩ := second.claimed node inSecond text carries
      exact ⟨doc, claims, same, Nat.le_trans lower since, till⟩
  distinct := by
    rw [List.filter_append, List.map_append, List.nodup_append]
    refine ⟨first.distinct, second.distinct, ?_⟩
    rintro _ inFirst _ inSecond rfl
    obtain ⟨doc, claims, -, till⟩ := first.of_mem_claims inFirst
    obtain ⟨other, claimsToo, since, -⟩ := second.of_mem_claims inSecond
    obtain rfl := Option.some.inj (claims.symm.trans claimsToo)
    omega

theorem cons_plain (between : ClaimsBetween tokens low high nodes)
    (plain : node.attributes.docComment = none) :
    ClaimsBetween tokens low high (node :: nodes) where
  claimed := by
    intro other member text carries
    rcases List.mem_cons.mp member with rfl | later
    · simp [plain] at carries
    · exact between.claimed other later text carries
  distinct := by
    rw [List.filter_cons_of_neg (by simp [Node.isDocumented, plain])]
    exact between.distinct

theorem single (claims : ∀ text ∈ node.attributes.docComment, ∃ doc,
      node.claimedDoc? tokens = some doc ∧ doc.text = text ∧ low ≤ doc.start ∧ doc.start < high) :
    ClaimsBetween tokens low high [node] where
  claimed := by simpa using claims
  distinct := by
    cases carries : node.isDocumented <;> simp [carries]

theorem replace (between : ClaimsBetween tokens low high (node :: nodes))
    (docs : other.attributes.docComment = node.attributes.docComment)
    (claims : other.claimedDoc? tokens = node.claimedDoc? tokens) :
    ClaimsBetween tokens low high (other :: nodes) where
  claimed := by
    intro inner member text carries
    rcases List.mem_cons.mp member with rfl | later
    · rw [claims]
      exact between.claimed node List.mem_cons_self text (docs ▸ carries)
    · exact between.claimed inner (List.mem_cons_of_mem _ later) text carries
  distinct := by
    have distinct := between.distinct
    rw [List.filter_cons, Node.isDocumented] at distinct ⊢
    rw [docs]
    split
    · rename_i carries
      rw [if_pos carries, List.map_cons] at distinct
      rwa [List.map_cons, claims]
    · rename_i carries
      rwa [if_neg carries] at distinct

end ClaimsBetween

def Part.nodes (parts : List Part) : List Node := parts.flatMap fun part => part.node.nodes

namespace Part

@[simp]
theorem nodes_append (parts more : List Part) : nodes (parts ++ more) = nodes parts ++ nodes more :=
  List.flatMap_append

theorem nodes_mark (level : Level) (list : List Node) :
    nodes (mark level list) = list.flatMap Node.nodes := by
  simp [nodes, mark, List.flatMap_map]

end Part

theorem Node.nodes_perm_parts (naming : Nat) (node : Node) :
    node.nodes.Perm (node :: Part.nodes (node.form.parts naming)) := by
  have children : Part.nodes (node.form.parts naming) = node.form.children.flatMap nodes := by
    rw [← Form.map_node_parts naming, List.flatMap_map]
    rfl
  rw [children]
  exact node.nodes_perm

theorem Form.Claims.between {lexer : Lexer} {low base : Nat} {before claim : Cursor}
    {node : Node} (claims : node.form.Claims before claim)
    (stands : before.StandsAtItem (Item.gather lexer.tokens) base) {position : Position}
    (placed : node.position = some position) (begins : position.startOffset = before.start)
    (pends : claim.HoldsDocBefore lexer.tokens low)
    (doc : node.attributes.docComment = claim.pendingDoc) :
    ClaimsBetween lexer.tokens low claim.start [node] := by
  refine .single fun text carries => ?_
  obtain ⟨found, last, same, since⟩ := pends.pending text (doc ▸ carries)
  refine ⟨found, ?_, same, since, ?_⟩
  · rw [Node.claimedDoc?, claims.token stands placed begins]
    exact last
  · have kept := (List.mem_filter.mp (List.mem_of_getLast? last)).2
    exact of_decide_eq_true (Bool.and_eq_true_iff.mp kept).2

/-- Along a parse the doc comments of what is built lie between those of what was given and those
that can wait afterwards. -/
theorem BuildsParts.claimsBetween {lexer : Lexer} {context : Context} {given held : List Part}
    {origin cursor : Cursor} (built : BuildsParts context given origin held cursor) :
    ∀ {low middle : Nat}, low ≤ middle → ClaimsBetween lexer.tokens low middle (Part.nodes given) →
      origin.HoldsDocBefore lexer.tokens middle →
      ∃ high, middle ≤ high ∧ ClaimsBetween lexer.tokens low high (Part.nodes held) ∧
        cursor.HoldsDocBefore lexer.tokens high := by
  induction built with
  | here =>
      intro low middle _ between pends
      exact ⟨middle, Nat.le_refl _, between, pends⟩
  | steps _ moved _ inductionHypothesis =>
      intro low middle order between pends
      obtain ⟨high, upper, between, pends⟩ := inductionHypothesis order between pends
      exact ⟨high, upper, between, pends.steps moved⟩
  | drop _ inductionHypothesis =>
      intro low middle order between pends
      obtain ⟨high, upper, between, pends⟩ := inductionHypothesis order between pends
      rw [Part.nodes_append] at between
      exact ⟨high, upper, between.sublist (List.sublist_append_left _ _), pends⟩
  | lower _ inductionHypothesis =>
      intro low middle order between pends
      obtain ⟨high, upper, between, pends⟩ := inductionHypothesis order between pends
      rw [Part.nodes_append, Part.nodes_mark] at between ⊢
      exact ⟨high, upper, between, pends⟩
  | raise _ _ inductionHypothesis =>
      intro low middle order between pends
      obtain ⟨high, upper, between, pends⟩ := inductionHypothesis order between pends
      rw [Part.nodes_append, Part.nodes_mark] at between ⊢
      exact ⟨high, upper, between, pends⟩
  | deeper _ _ _ outerHypothesis innerHypothesis =>
      intro low middle order between pends
      obtain ⟨halfway, lower, before, pends⟩ := outerHypothesis order between pends
      obtain ⟨high, upper, inner, pends⟩ := innerHypothesis (Nat.le_refl halfway)
        (.nil _ _ _) (pends.withDepth _)
      rw [Part.nodes_append, Part.nodes_mark]
      rw [Part.nodes_mark] at inner
      exact ⟨high, Nat.le_trans lower upper,
        before.append inner (Nat.le_trans order lower) upper, pends.withDepth _⟩
  | @node _ _ _ _ node naming _ plain inductionHypothesis =>
      intro low middle order between pends
      obtain ⟨high, upper, between, pends⟩ := inductionHypothesis order between pends
      rw [Part.nodes_append] at between ⊢
      refine ⟨high, upper, (between.cons_plain plain).perm ?_, pends⟩
      rw [Part.nodes_mark, List.flatMap_singleton]
      exact List.perm_middle.symm.trans ((node.nodes_perm_parts naming).symm.append_left _)
  | @declaration _ _ front parts _ before claim _ node _ _ claims _ complete doc placed
      outerHypothesis openingHypothesis restHypothesis =>
      intro low middle order between pends
      obtain ⟨start, lower, earlier, offersBefore⟩ := outerHypothesis order between pends
      obtain ⟨taken, upper, inFront, offersClaim⟩ := openingHypothesis (Nat.le_refl start)
        (.nil _ _ _) offersBefore
      obtain ⟨high, further, inRest, offersAfter⟩ := restHypothesis (Nat.le_refl claim.start)
        (.nil _ _ _) offersClaim.taken
      have own := claims.between offersBefore.stands placed rfl offersClaim doc
      have here := offersClaim.stands.since
      have later := Nat.le_trans here further
      have all := earlier.append (inFront.append (own.append inRest here further) upper later)
        (Nat.le_trans order lower) (Nat.le_trans upper later)
      have parts : (Part.nodes front ++ Part.nodes parts).Perm
          (Part.nodes (node.form.parts 1)) := by
        rw [← Part.nodes_append]
        exact complete.flatMap_right _
      refine ⟨high, Nat.le_trans lower (Nat.le_trans upper later), all.perm ?_, offersAfter⟩
      rw [Part.nodes_append, Part.nodes_mark, List.flatMap_singleton]
      refine .append_left _ ?_
      exact List.perm_middle.trans ((parts.cons node).trans (node.nodes_perm_parts 1).symm)
  | @commented _ _ _ _ node rank comments _ inductionHypothesis =>
      intro low middle order between pends
      obtain ⟨high, upper, between, pends⟩ := inductionHypothesis order between pends
      have front : ∀ {held : List Part} {node : Node},
          (Part.nodes (held ++ Part.here rank [node])).Perm
            (node :: (Part.nodes held ++ Part.nodes (node.form.parts 1))) := by
        intro held node
        rw [Part.nodes_append, Part.nodes_mark, List.flatMap_singleton]
        exact ((node.nodes_perm_parts 1).append_left _).trans List.perm_middle
      have replaced : ClaimsBetween lexer.tokens low high
          (node.modifyAttributes (·.prependComments comments) :: _) :=
        (between.perm front).replace rfl rfl
      exact ⟨high, upper, replaced.perm front.symm, pends⟩

/-! ## Programs -/

/-- Where a parse begins, only what stands before the first token waits. -/
theorem Parser.ofSource_offers (options : Options) (source : List UInt8) :
    (ofSource options source).cursor.HoldsDocBefore
      (Lexer.ofSource options.shortTags source).tokens 0 := by
  refine ⟨ofSource_stands options source, ?_⟩
  obtain ⟨item, following, gathered, begins⟩ := ofSource_items options source
  obtain ⟨errors, journal, equation, -⟩ :=
    Cursor.ofItems_eq (ofSource options source).context item following
  have inReach := docBefore?_item (Lexer.ofSource options.shortTags source).tokens_stream
    (show _ = [] ++ item :: following from gathered)
  rw [begins, equation]
  intro text waits
  obtain ⟨doc, found, same⟩ := Option.map_eq_some_iff.mp (Option.mem_def.mp waits)
  refine ⟨doc, ?_, same, Nat.zero_le _⟩
  rw [found] at inReach
  exact inReach

/-- Only functions, classes, methods and closures carry doc comments: each the last one before the
token where it claims one, and no two of them the same. -/
theorem parse_claims_docs {options : Options} {source : List UInt8} {program : Program}
    (parsed : parse options source = some program) :
    let tokens := (Lexer.ofSource options.shortTags source).tokens
    (∀ node ∈ program.root.nodes, ∀ text ∈ node.attributes.docComment,
      node.kindName ∈ ["Function", "Class", "ClassMethod", "Closure"] ∧
        ∃ doc, node.claimedDoc? tokens = some doc ∧ doc.text = text) ∧
    ((program.root.nodes.filter Node.isDocumented).map (Node.claimedDoc? tokens)).Nodup := by
  intro tokens
  obtain ⟨after, built, plain⟩ := parse_builds parsed
  obtain ⟨high, -, parts, -⟩ := built.claimsBetween (Nat.le_refl 0) (.nil _ _ _)
    (Parser.ofSource_offers options source)
  have between : ClaimsBetween tokens 0 high program.root.nodes :=
    (parts.cons_plain plain).perm (program.root.nodes_perm_parts 1).symm
  refine ⟨fun node member text carries => ?_, between.distinct⟩
  obtain ⟨doc, claims, same, -, -⟩ := between.claimed node member text carries
  exact ⟨Node.kindName_of_claimedDoc? claims, doc, claims, same⟩

theorem parse_claims_docs_nested :
    let source := bytesOf ("<?php /** a */ class A \x7b /** b */ public function f() \x7b " ++
      "return /** c */ function () \x7b\x7d; \x7d \x7d")
    let tokens := (Lexer.ofSource false source).tokens
    ∃ program, parse {} source = some program ∧
      (∀ node ∈ program.root.nodes, ∀ text ∈ node.attributes.docComment,
        node.kindName ∈ ["Function", "Class", "ClassMethod", "Closure"] ∧
          ∃ doc, node.claimedDoc? tokens = some doc ∧ doc.text = text) ∧
      ((program.root.nodes.filter Node.isDocumented).map (Node.claimedDoc? tokens)).Nodup ∧
      (program.root.nodes.filterMap fun node => node.attributes.docComment).length = 3 := by
  intro source tokens
  have checked : (parse {} source).any (fun program =>
      (program.root.nodes.filterMap fun node => node.attributes.docComment).length == 3) =
        true := by decide +kernel
  obtain ⟨program, parsed, three⟩ := (Option.any_eq_true _ _).mp checked
  obtain ⟨claimed, distinct⟩ := parse_claims_docs parsed
  exact ⟨program, parsed, claimed, distinct, eq_of_beq three⟩

end PhpTree
