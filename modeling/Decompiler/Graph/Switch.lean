import Decompiler.Graph.Dominance

/-!
Switch tables: their cases, whether the default target is an arm of its own, and the node where control
goes on after the switch.
-/

namespace Decompiler

/-- A switch with its table. The head keeps the selector on top of its stack. -/
structure SwitchTable where
  head : NodeId
  default : NodeId
  /-- The keys, parallel to the targets. -/
  keys : List Int32
  targets : List NodeId
  /-- Every arm leaves a value for one consumer. -/
  expression : Bool := false
  deriving Inhabited

namespace SwitchTable

/-- Adds a key to the case of a node, which is opened if there is none. -/
def addKey (key : Int32) (target : NodeId) : List (NodeId × List Int32) → List (NodeId × List Int32)
  | [] => [(target, [key])]
  | (node, keys) :: rest =>
    if node = target then (node, if keys.contains key then keys else keys ++ [key]) :: rest
    else (node, keys) :: addKey key target rest

/-- One case comes before another in appearance; nodes without a place come last. -/
def appearsFirst (graph : Graph) (a b : NodeId × List Int32) : Bool :=
  match graph.position? a.1, graph.position? b.1 with
  | some i, some j => i ≤ j
  | none, some _ => false
  | _, none => true

/-- The case nodes in order of appearance with their keys. Keys of the default target have no case. -/
def cases (table : SwitchTable) (graph : Graph) : List (NodeId × List Int32) :=
  let entries := (table.keys.zip table.targets).filter (·.2 != table.default)
  let grouped := entries.foldl (fun cases (key, target) => addKey key target cases) []
  grouped.mergeSort (appearsFirst graph)

/-- Every node that the switch branches to, once. -/
def arms (table : SwitchTable) : List NodeId :=
  (table.targets ++ [table.default]).foldl (fun arms target =>
    if arms.contains target then arms else arms ++ [target]) []

/-- The default target is an arm of its own: nothing but the head leads to it, or the only other way to it
falls through from the last case. -/
def isDefaultArm (table : SwitchTable) : GraphM Bool := do
  let graph ← get
  match (graph.forwardIncoming table.default).filter (· != table.head) with
  | [] => return true
  | [single] =>
    match (table.cases graph).getLast? with
    | none => return false
    | some (last, _) =>
      if (graph.node single).next != some table.default then return false
      if !(← Graph.hasDominator single last) then return false
      match graph.position? last, graph.position? table.default with
      | some i, some j => return i < j
      | none, some _ => return true
      | _, none => return false
  | _ => return false

/-- The first node, breadth-first, that the head dominates immediately or not at all. -/
def followFrom (head : NodeId) : Nat → List NodeId → List NodeId → GraphM (Option NodeId)
  | 0, _, _ => return none
  | _ + 1, [], _ => return none
  | fuel + 1, id :: waiting, seen => do
    if seen.contains id then followFrom head fuel waiting seen
    else if (← Graph.dominator id) == some head then return some id
    else if !(← Graph.hasDominator id head) then return some id
    else
      let graph ← get
      followFrom head fuel (waiting ++ (graph.node id).outgoing) (id :: seen)

/-- Where control goes on after the switch. A default target that is no arm is that node; otherwise it is
searched from the successors of the arms. -/
def follow? (table : SwitchTable) : GraphM (Option NodeId) := do
  if !(← table.isDefaultArm) then return some table.default
  let graph ← get
  let arms := table.arms
  let starts := (table.default :: arms).flatMap fun arm => (graph.node arm).outgoing
  followFrom table.head (2 * graph.searchBound + starts.length) starts (table.head :: arms)

end SwitchTable

end Decompiler
