import Mathlib.Data.List.Perm.Basic
import PhpTree.Proofs.Faithful.Forms
import PhpTree.Proofs.Heights

/-! # What refusing a node takes out of a walk

A recorder that refuses nothing writes down a visit of every node, and inside it the
slots of that node in the order its kind has, each with the visits of the nodes that
stand there.  A recorder that refuses some nodes writes down the same, less everything
inside the outermost nodes it refuses; where that ends is found by counting visits. -/
set_option autoImplicit false
namespace PhpTree

/-- The node and all nodes below it, as they stand in the tree. -/
def Node.subtrees : Node → List Node :=
  fold fun node children => node :: children.children.flatMap fun nodes => nodes ()

namespace WalkEvent

def entered? : WalkEvent → Option Node
  | .enter node => some node
  | _ => none

def left? : WalkEvent → Option Node
  | .leave node => some node
  | _ => none

end WalkEvent

/-! ## What a node shows

A walk that is in a node shows its slots, and in each of them the nodes that stand there.  A
single slot is shown only when there is a child in it, a list also when it is empty. -/

inductive WalkItem where
  | slot (slot : Slot)
  | node (node : Node)

def Field.walkItems (slot : Slot) : Field Node → List WalkItem
  | .single none => []
  | .single (some child) => [.slot slot, .node child]
  | .list children => .slot slot :: children.map .node

def Node.walkItems (node : Node) : List WalkItem :=
  node.form.walkFields.flatMap fun field => field.2.walkItems field.1

/-- The events in which these items are visited, one after the other. A refused node is entered
and that is all. Any other is entered and left, and its own items are visited in between. -/
inductive VisitsInOrder (refuses : Node → Bool) : List WalkItem → List WalkEvent → Prop
  | nil : VisitsInOrder refuses [] []
  | slot (slot : Slot) {items : List WalkItem} {rest : List WalkEvent}
      (later : VisitsInOrder refuses items rest) :
      VisitsInOrder refuses (.slot slot :: items) (.slot slot :: rest)
  | refused (node : Node) {items : List WalkItem} {rest : List WalkEvent}
      (isRefused : refuses node = true) (later : VisitsInOrder refuses items rest) :
      VisitsInOrder refuses (.node node :: items) (.enter node :: rest)
  | visited (node : Node) {items : List WalkItem} {inner rest : List WalkEvent}
      (isAdmitted : refuses node = false) (inside : VisitsInOrder refuses node.walkItems inner)
      (later : VisitsInOrder refuses items rest) :
      VisitsInOrder refuses (.node node :: items) (.enter node :: (inner ++ .leave node :: rest))

/-- Takes out what lies behind the beginning of a refused visit, up to its end. The number counts
the visits that are open in there, the refused one first. -/
def prune (refuses : Node → Bool) : (hidden : Nat) → List WalkEvent → List WalkEvent
  | _, [] => []
  | 0, .enter node :: rest => .enter node :: prune refuses (if refuses node then 1 else 0) rest
  | 0, event :: rest => event :: prune refuses 0 rest
  | hidden + 1, .enter _ :: rest => prune refuses (hidden + 2) rest
  | hidden + 1, .slot _ :: rest => prune refuses (hidden + 1) rest
  | hidden + 1, .leave _ :: rest => prune refuses hidden rest

/-! ## The events of one node -/

def WalkItem.events (nodeEvents : Node → List WalkEvent) : WalkItem → List WalkEvent
  | .slot place => [.slot place]
  | .node inner => nodeEvents inner

def Node.visitEvents (refuses : Node → Bool) (nodeEvents : Node → List WalkEvent) (node : Node) :
    List WalkEvent :=
  if refuses node then [.enter node]
  else .enter node :: (node.walkItems.flatMap (WalkItem.events nodeEvents) ++ [.leave node])

theorem Form.flatMap_reported_events (form : Form Node) (nodeEvents : Node → List WalkEvent) :
    (form.reported.flatMap fun field => .slot field.1 :: field.2.toList.flatMap nodeEvents) =
      (form.walkFields.flatMap fun field => field.2.walkItems field.1).flatMap
        (WalkItem.events nodeEvents) := by
  rw [reported]
  induction form.walkFields with
  | nil => rfl
  | cons field rest inductionHypothesis =>
      obtain ⟨slot, field⟩ := field
      rw [List.flatMap_cons, List.flatMap_append, ← inductionHypothesis]
      cases field with
      | single child =>
          cases child with
          | none => rfl
          | some node => simp [Field.isFilled, Field.walkItems, Field.toList, WalkItem.events]
      | list children =>
          simp [Field.isFilled, Field.walkItems, Field.toList, WalkItem.events, List.flatMap_map]

theorem Node.mem_children_of_walkItems {node child : Node}
    (member : WalkItem.node child ∈ node.walkItems) : child ∈ node.form.children := by
  obtain ⟨⟨slot, field⟩, inForm, inField⟩ := List.mem_flatMap.mp member
  refine List.mem_flatMap.mpr ⟨(slot, field), node.form.walkFields_perm.mem_iff.mp inForm, ?_⟩
  cases field with
  | single only =>
      cases only with
      | none => cases inField
      | some inner => simpa [Field.walkItems, Field.toList] using inField
  | list children => simpa [Field.walkItems, Field.toList] using inField

theorem Recording.foldl_events {α : Type} {step : Recording → α → Recording}
    {list : α → List WalkEvent} {items : List α}
    (writes : ∀ item ∈ items, ∀ recording,
      (step recording item).events = (list item).reverse ++ recording.events)
    (recording : Recording) :
    (items.foldl step recording).events = (items.flatMap list).reverse ++ recording.events := by
  induction items generalizing recording with
  | nil => rfl
  | cons item rest inductionHypothesis =>
      have later : ∀ other ∈ rest, ∀ recording,
          (step recording other).events = (list other).reverse ++ recording.events :=
        fun other member => writes other (List.mem_cons_of_mem _ member)
      rw [List.foldl_cons, inductionHypothesis later, writes item List.mem_cons_self]
      simp

namespace Node

theorem subtrees_eq (node : Node) :
    node.subtrees = node :: node.form.children.flatMap subtrees := by
  cases node with
  | mk info form =>
      rw [subtrees, fold_mk, Form.children_map]
      simp [List.flatMap_map, Node.form]

theorem walk_recorder (refuses : Node → Bool) (node : Node) :
    (∀ recording, (node.walk (recorder { refuses }) () recording).events =
      (node.trace { refuses }).reverse ++ recording.events) ∧
    node.trace { refuses } = node.visitEvents refuses fun child => child.trace { refuses } := by
  induction node using Node.induction with
  | step node inductionHypothesis =>
      have below : ∀ recording : Recording, (node.form.reported.foldl (fun before field =>
          field.2.toList.foldl (fun state child => child.walk (recorder { refuses }) () state)
            ((recorder { refuses }).descend () field.1 before).2) recording).events =
          (node.walkItems.flatMap (WalkItem.events fun child => child.trace { refuses })).reverse ++
            recording.events := by
        intro recording
        rw [walkItems, ← Form.flatMap_reported_events]
        refine Recording.foldl_events (fun field reported recording => ?_) recording
        rw [Recording.foldl_events fun child inside recording =>
          (inductionHypothesis child (Form.mem_children_of_reported reported inside)).1 recording]
        simp [recorder]
      have written : ∀ recording, (node.walk (recorder { refuses }) () recording).events =
          (node.visitEvents refuses fun child => child.trace { refuses }).reverse ++
            recording.events := by
        intro recording
        have enters : (recorder { refuses }).enter () node recording =
          (!refuses node, ⟨.enter node :: recording.events, recording.admitted + 1⟩) := rfl
        rw [walk_eq, visitEvents, enters]
        cases refuses node with
        | true => rfl
        | false =>
            show WalkEvent.leave node :: Recording.events _ = _
            rw [below]
            simp
      have traced : node.trace { refuses } =
          node.visitEvents refuses fun child => child.trace { refuses } := by
        rw [trace, written, List.append_nil, List.reverse_reverse]
      exact ⟨fun recording => by rw [traced, written], traced⟩

theorem trace_eq (refuses : Node → Bool) (node : Node) :
    node.trace { refuses } = node.visitEvents refuses fun child => child.trace { refuses } :=
  (node.walk_recorder refuses).2

end Node

/-! ## Visits -/

namespace VisitsInOrder

variable {refuses : Node → Bool}

theorem append {items more : List WalkItem} {events rest : List WalkEvent}
    (visits : VisitsInOrder refuses items events) (later : VisitsInOrder refuses more rest) :
    VisitsInOrder refuses (items ++ more) (events ++ rest) := by
  induction visits with
  | nil => exact later
  | slot slot _ inductionHypothesis => exact .slot slot inductionHypothesis
  | refused node isRefused _ inductionHypothesis =>
      exact .refused node isRefused inductionHypothesis
  | visited node isAdmitted inside _ _ inductionHypothesis =>
      rw [List.cons_append, List.cons_append, List.append_assoc]
      exact .visited node isAdmitted inside inductionHypothesis

theorem flatMap {items : List WalkItem} {nodeEvents : Node → List WalkEvent}
    (each : ∀ node, WalkItem.node node ∈ items →
      VisitsInOrder refuses [.node node] (nodeEvents node)) :
    VisitsInOrder refuses items (items.flatMap (WalkItem.events nodeEvents)) := by
  induction items with
  | nil => exact .nil
  | cons item rest inductionHypothesis =>
      have later := inductionHypothesis fun node member =>
        each node (List.mem_cons_of_mem _ member)
      cases item with
      | slot slot => exact .slot slot later
      | node node => exact (each node List.mem_cons_self).append later

theorem trace (refuses : Node → Bool) (node : Node) :
    VisitsInOrder refuses [.node node] (node.trace { refuses }) := by
  induction node using Node.induction with
  | step node inductionHypothesis =>
      have inside : VisitsInOrder refuses node.walkItems
          (node.walkItems.flatMap (WalkItem.events fun child => child.trace { refuses })) :=
        flatMap fun child member =>
          inductionHypothesis child (Node.mem_children_of_walkItems member)
      rw [node.trace_eq, Node.visitEvents]
      cases isRefused : refuses node with
      | true => exact .refused node isRefused .nil
      | false => exact .visited node isRefused inside .nil

end VisitsInOrder

/-- What is picked once of every visit and never of a slot is picked once for every node. -/
theorem Node.filterMap_trace {pick : WalkEvent → Option Node}
    (noSlot : ∀ slot, pick (.slot slot) = none)
    (once : ∀ node, (pick (.enter node)).toList ++ (pick (.leave node)).toList = [node])
    (node : Node) : ((node.trace {}).filterMap pick).Perm node.subtrees := by
  induction node using Node.induction with
  | step node inductionHypothesis =>
      let inner := node.walkItems.flatMap (WalkItem.events fun child => child.trace {})
      have below : (inner.filterMap pick).Perm (node.form.children.flatMap subtrees) := by
        have picked : inner.filterMap pick =
            node.form.reported.flatMap fun field => field.2.toList.flatMap fun child =>
              (child.trace {}).filterMap pick := by
          show (node.walkItems.flatMap _).filterMap pick = _
          rw [walkItems, ← Form.flatMap_reported_events]
          simp [List.filterMap_flatMap, noSlot]
        rw [picked, Form.flatMap_reported, ← List.flatMap_assoc]
        exact (node.form.walkFields_perm.flatMap_right _).flatMap_right _ |>.trans
          (.flatMap_left _ inductionHypothesis)
      have around : (node.trace {}).filterMap pick = (pick (.enter node)).toList ++
          (inner.filterMap pick ++ (pick (.leave node)).toList) := by
        have single : ∀ event, [event].filterMap pick = (pick event).toList := by
          intro event
          cases found : pick event <;> simp [found]
        have full : node.trace {} = .enter node :: (inner ++ [.leave node]) :=
          node.trace_eq fun _ => false
        rw [full, ← List.singleton_append, List.filterMap_append, List.filterMap_append, single,
          single]
      rw [around, subtrees_eq, ← List.singleton_append, ← once node, List.append_assoc]
      exact .append_left _ (List.perm_append_comm.trans (.append_left _ below))

/-! ## Pruning -/

namespace VisitsInOrder

variable {refuses : Node → Bool} {items : List WalkItem} {full : List WalkEvent}

/-- Inside a refused visit nothing is left of what begins and ends there. -/
theorem prune_hidden (visits : VisitsInOrder (fun _ => false) items full) :
    ∀ (hidden : Nat) (rest : List WalkEvent),
      prune refuses (hidden + 1) (full ++ rest) = prune refuses (hidden + 1) rest := by
  induction visits with
  | nil =>
      intro hidden rest
      rfl
  | slot slot _ inductionHypothesis =>
      intro hidden rest
      exact inductionHypothesis hidden rest
  | refused node isRefused => cases isRefused
  | visited node _ _ _ insideHypothesis laterHypothesis =>
      intro hidden rest
      rw [List.cons_append, List.append_assoc, List.cons_append, prune, insideHypothesis, prune,
        laterHypothesis]

/-- The walk that refuses nodes, from the one that refuses none. What comes after the visit of a
node is not touched by what is refused in it. -/
theorem prune_append (visits : VisitsInOrder (fun _ => false) items full) :
    ∀ {pruned : List WalkEvent}, VisitsInOrder refuses items pruned →
      ∀ rest, prune refuses 0 (full ++ rest) = pruned ++ prune refuses 0 rest := by
  induction visits with
  | nil =>
      intro pruned fewer rest
      cases fewer
      rfl
  | slot slot _ inductionHypothesis =>
      intro pruned fewer rest
      cases fewer with
      | slot _ later =>
          rw [List.cons_append, prune, inductionHypothesis later, List.cons_append]
          simp
  | refused node isRefused => cases isRefused
  | visited node _ inside _ insideHypothesis laterHypothesis =>
      intro pruned fewer rest
      rw [List.cons_append, List.append_assoc, prune]
      cases fewer with
      | refused _ isRefused later =>
          rw [if_pos isRefused, inside.prune_hidden, List.cons_append, prune,
            laterHypothesis later, List.cons_append]
      | visited _ isAdmitted within later =>
          rw [isAdmitted, if_neg (by simp), insideHypothesis within, List.cons_append, prune,
            laterHypothesis later, List.cons_append, List.append_assoc, List.cons_append]
          simp

end VisitsInOrder

/-! ## Full traces and pruned ones -/

/-- The order of the slots is a matter of the kind. -/
theorem Form.walkFields_of_kindName {form other : Form Node}
    (same : form.kindName = other.kindName) :
    form.walkFields.map Prod.fst = other.walkFields.map Prod.fst := by
  have blankOrder : ∀ form : Form Node,
      form.blank.walkFields.map Prod.fst = form.walkFields.map Prod.fst := by
    intro form
    cases form <;> rfl
  have blankKind : ∀ form : Form Node, form.blank.kindName = form.kindName := by
    intro form
    cases form with
    | leaf kind text => cases kind <;> rfl
    | name qualification parts => cases qualification <;> rfl
    | assign mode target source => cases mode <;> rfl
    | _ => rfl
  have ofBlanks : ∀ form ∈ Form.blanks, ∀ other ∈ Form.blanks, form.kindName = other.kindName →
      form.walkFields.map Prod.fst = other.walkFields.map Prod.fst := by decide +kernel
  rw [← blankOrder form, ← blankOrder other]
  exact ofBlanks _ form.blank_mem _ other.blank_mem (by rw [blankKind, blankKind, same])

/-- Every node of a tree is entered once and left once, and its items are visited in between: its
filled single slots and all its lists, in the order its kind has, each with the nodes that stand in
it. A walk that refuses nodes goes the same way, less what lies inside the outermost of them and
their ends. -/
theorem trace_pruned (node : Node) (refuses : Node → Bool) :
    ((node.trace {}).filterMap WalkEvent.entered?).Perm node.subtrees ∧
      ((node.trace {}).filterMap WalkEvent.left?).Perm node.subtrees ∧
      VisitsInOrder (fun _ => false) [.node node] (node.trace {}) ∧
      (∀ form : Form Node, form.walkFields.Perm form.fields ∧
        ∀ other : Form Node, form.kindName = other.kindName →
          form.walkFields.map Prod.fst = other.walkFields.map Prod.fst) ∧
      VisitsInOrder refuses [.node node] (node.trace { refuses }) ∧
      node.trace { refuses } = prune refuses 0 (node.trace {}) := by
  have entered : ((node.trace {}).filterMap WalkEvent.entered?).Perm node.subtrees :=
    Node.filterMap_trace (fun _ => rfl) (fun _ => rfl) node
  have left : ((node.trace {}).filterMap WalkEvent.left?).Perm node.subtrees :=
    Node.filterMap_trace (fun _ => rfl) (fun _ => rfl) node
  have full := VisitsInOrder.trace (fun _ => false) node
  have fewer := VisitsInOrder.trace refuses node
  have pruned : node.trace { refuses } = prune refuses 0 (node.trace {}) := by
    simpa [prune] using (full.prune_append fewer []).symm
  exact ⟨entered, left, full,
    fun form => ⟨form.walkFields_perm, fun _ => Form.walkFields_of_kindName⟩,
    fewer, pruned⟩

end PhpTree
