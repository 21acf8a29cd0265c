import Decompiler.Graph.Basic

/-!
The operand stack as instructions see it. Entries are addressed by depth from the top of a node; below
the bottom of the node the stack goes on in the node before it in order of appearance, so that a value
left by one block is consumed in the block where the branches join.
-/

namespace Decompiler.Graph

/-- The node where the stack of a node goes on. A node that no edge enters, such as a handler, starts with
an empty stack. -/
def stackBelow? (graph : Graph) (id : NodeId) : Option NodeId :=
  let node := graph.node id
  if node.incoming.isEmpty then none else node.previous

def locateFrom (graph : Graph) : Nat → NodeId → Nat → Option (NodeId × Nat)
  | 0, _, _ => none
  | fuel + 1, id, depth =>
    let length := (graph.node id).stack.length
    if depth < length then some (id, length - 1 - depth)
    else do graph.locateFrom fuel (← graph.stackBelow? id) (depth - length)

/-- The node that holds the entry at a depth, and its place from the bottom of that node. -/
def locate? (graph : Graph) (id : NodeId) (depth : Nat) : Option (NodeId × Nat) :=
  graph.locateFrom (graph.nodes.size + 1) id depth

def push (graph : Graph) (id : NodeId) (operand : Operand) : Graph :=
  graph.update id fun node => { node with stack := node.stack ++ [operand] }

def peek? (graph : Graph) (id : NodeId) (depth : Nat) : Option Operand := do
  let (holder, place) ← graph.locate? id depth
  (graph.node holder).stack[place]?

/-- Changes the stack of a node. -/
def mapStack (graph : Graph) (id : NodeId) (change : List Operand → List Operand) : Graph :=
  graph.update id fun node => { node with stack := change node.stack }

/-- Changes the entry at a depth, if there is one. -/
def changeEntry (graph : Graph) (id : NodeId) (depth : Nat) (change : Operand → Operand) : Graph :=
  match graph.locate? id depth with
  | some (holder, place) => graph.mapStack holder (·.modify place change)
  | none => graph

/-- Removes the entry at a depth, duplicated or not. -/
def take? (graph : Graph) (id : NodeId) (depth : Nat) : Option (Operand × Graph) := do
  let (holder, place) ← graph.locate? id depth
  let operand ← (graph.node holder).stack[place]?
  return (operand, graph.mapStack holder (·.eraseIdx place))

/-- Takes the value at a depth. A duplicated entry stays, and its copy is used up. -/
def pop? (graph : Graph) (id : NodeId) (depth : Nat) : Option (Operand × Graph) := do
  let operand ← graph.peek? id depth
  if operand.duplicated then
    let single := { operand with duplicated := false }
    return (single, graph.changeEntry id depth fun _ => single)
  else graph.take? id depth

/-- Replaces the entry at a depth; fails when there is none. -/
def set? (graph : Graph) (id : NodeId) (depth : Nat) (operand : Operand) : Option Graph :=
  (graph.locate? id depth).map fun _ => graph.changeEntry id depth fun _ => operand

/-- The last live node whose stack holds an operand of the given identity. -/
def owner? (graph : Graph) (operand : OperandId) : Option NodeId :=
  graph.order.reverse.find? fun id => (graph.node id).stack.any (·.id == operand)

end Decompiler.Graph
