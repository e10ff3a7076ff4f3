import PhpTree.Tree.Build

/-! # Walking a tree

A walk enters a node, visits its reported slots in order and leaves the node.  The
visitor keeps a state that runs through the whole walk and a scope that is fixed
inside one slot: each slot may hand a new scope to everything below it.  A visitor
that refuses a node is spared its children and is not asked to leave it. -/
set_option autoImplicit false
namespace PhpTree

structure Visitor (Scope State : Type) where
  /-- Whether to go into the node. -/
  enter : Scope → Node → State → Bool × State
  /-- The scope inside a slot, asked for once per reported slot. -/
  descend : Scope → Slot → State → Scope × State
  leave : Scope → Node → State → State

namespace Visitor

variable {Scope State : Type}

def walkField (visitor : Visitor Scope State) (scope : Scope) (state : State)
    (field : Slot × Field (Unit → Scope → State → State)) : State :=
  let (inner, state) := visitor.descend scope field.1 state
  field.2.toList.foldl (fun state walkChild => walkChild () inner state) state

/-- One node of a walk whose children know how to walk themselves. -/
def walkStep (visitor : Visitor Scope State) (node : Node)
    (children : Form (Unit → Scope → State → State)) (scope : Scope) (state : State) : State :=
  let (entered, state) := visitor.enter scope node state
  if entered then
    visitor.leave scope node (children.reported.foldl (visitor.walkField scope) state)
  else state

end Visitor

def Node.walk {Scope State : Type} (node : Node) (visitor : Visitor Scope State) :
    Scope → State → State :=
  node.fold visitor.walkStep

/-! ## Finding what stands at an offset

The nodes whose extent covers an offset, outermost first.  A subtree that lies
elsewhere is passed over.  A node without a position is taken to span its parent: it
is gone into but not reported. -/

/-- Gathers the covering nodes, newest first. -/
def locator (offset : Nat) : Visitor Unit (List Node) where
  enter _ node found :=
    match node.position with
    | some position => if position.contains offset then (true, node :: found) else (false, found)
    | none => (true, found)
  descend _ _ found := ((), found)
  leave _ _ found := found

namespace Node

def locate (node : Node) (offset : Nat) : List Node := (node.walk (locator offset) () []).reverse

def innermost? (node : Node) (offset : Nat) : Option Node := (node.locate offset).getLast?

end Node
end PhpTree
