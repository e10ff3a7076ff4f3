import PhpTree.Tree.Locate

/-! # Traces of a walk

Visitors that only write down what a walk shows them: every event, the path of
slots to every node, or the nodes alone. -/
set_option autoImplicit false
namespace PhpTree

inductive WalkEvent where
  | enter (node : Node)
  | slot (slot : Slot)
  | leave (node : Node)

def Node.caption (node : Node) : String :=
  match node.text? with
  | some text => node.label ++ " " ++ text
  | none => node.label

def WalkEvent.describe : WalkEvent → String
  | .enter node => "enter " ++ node.caption
  | .slot place => "slot " ++ place.name
  | .leave node => "leave " ++ node.caption

/-- Events so far, newest first, and the number of nodes let in. -/
structure Recording where
  events : List WalkEvent := []
  admitted : Nat := 0

/-- Which nodes a recorder refuses, and after how many nodes it refuses all others. -/
structure Admission where
  refuses : Node → Bool := fun _ => false
  limit : Option Nat := none

def Admission.isExhausted (admission : Admission) (admitted : Nat) : Bool :=
  match admission.limit with
  | some limit => limit ≤ admitted
  | none => false

/-- Records every event. Refused nodes are entered and counted, but not gone into; past the limit
nodes are not counted either. -/
def recorder (admission : Admission) : Visitor Unit Recording where
  enter _ node recording :=
    let events := .enter node :: recording.events
    if admission.isExhausted recording.admitted then (false, { recording with events })
    else (!admission.refuses node, { events, admitted := recording.admitted + 1 })
  descend _ slot recording := ((), { recording with events := .slot slot :: recording.events })
  leave _ node recording := { recording with events := .leave node :: recording.events }

def Node.trace (node : Node) (admission : Admission) : List WalkEvent :=
  (node.walk (recorder admission) () {}).events.reverse

/-- Notes the slots that lead to each node, innermost first; `closed` slots are entered, but what
stands in them is not gone into. -/
def pathRecorder (closed : Slot → Bool) :
    Visitor (List Slot) (List (List Slot × Node)) where
  enter path node found := (!(path.head?.any closed), (path, node) :: found)
  descend path slot found := (slot :: path, found)
  leave _ _ found := found

def Node.paths (node : Node) (closed : Slot → Bool) : List (List Slot × Node) :=
  (node.walk (pathRecorder closed) [] []).reverse.map fun entry => (entry.1.reverse, entry.2)

def collector : Visitor Unit (List Node) where
  enter _ node found := (true, node :: found)
  descend _ _ found := ((), found)
  leave _ _ found := found

/-- All nodes of the tree in the order a walk enters them. -/
def Node.nodes (node : Node) : List Node := (node.walk collector () []).reverse

end PhpTree
