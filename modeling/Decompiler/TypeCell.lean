import Decompiler.JvmType

/-!
Types learned while a unit is executed. A cell holds what is known about the type of some value; cells
can be bound, so that what one learns its listeners learn too.
-/

namespace Decompiler

/-- The number of a cell. -/
abbrev CellId := Nat

structure TypeCell where
  type : JvmType
  /-- The type is certain and never changes again. -/
  fixed : Bool
  /-- Cells that learn what this one learns, in the order they were bound. -/
  listeners : List CellId := []
  /-- How many holders the cell has. A cell without one is gone: it learns nothing and passes nothing
  on. -/
  handles : Nat := 1
  deriving Inhabited

/-- All cells made so far. -/
structure TypeCells where
  cells : Array TypeCell := #[]
  deriving Inhabited

/-- The type of a value: certain from the start, or held by a cell. -/
inductive TypeRef where
  | known (type : JvmType)
  | cell (id : CellId)
  deriving DecidableEq, Inhabited

namespace TypeCells

/-- A new cell, held once. -/
def add (types : TypeCells) (type : JvmType) (fixed : Bool) : CellId × TypeCells :=
  (types.cells.size, { cells := types.cells.push { type, fixed } })

def cell? (types : TypeCells) (id : CellId) : Option TypeCell := types.cells[id]?

def update (types : TypeCells) (id : CellId) (change : TypeCell → TypeCell) : TypeCells :=
  { cells := types.cells.modify id change }

/-- The current type. -/
def typeOf (types : TypeCells) : TypeRef → JvmType
  | .known type => type
  | .cell id => (types.cell? id).elim .unknown TypeCell.type

def isFixed (types : TypeCells) : TypeRef → Bool
  | .known _ => true
  | .cell id => (types.cell? id).elim true TypeCell.fixed

/-- The source name of the type, marked as certain or as a guess. -/
def text (types : TypeCells) (ref : TypeRef) : String :=
  (types.typeOf ref).sourceName ++ (if types.isFixed ref then "!" else "?")

/-- Another holder of a cell. -/
def retain (types : TypeCells) (id : CellId) : TypeCells :=
  types.update id fun cell => { cell with handles := cell.handles + 1 }

/-- One holder less. -/
def release (types : TypeCells) (id : CellId) : TypeCells :=
  types.update id fun cell => { cell with handles := cell.handles - 1 }

/-- Tells the type to the pending cells one after another, each followed by its listeners. A cell is told
at most once; a fixed cell keeps its type and passes nothing on. -/
def spread (type : JvmType) (fix : Bool) :
    Nat → List CellId → List CellId → TypeCells → TypeCells
  | 0, _, _, types => types
  | _ + 1, [], _, types => types
  | fuel + 1, id :: pending, seen, types =>
    match types.cell? id with
    | some cell =>
      if seen.contains id || cell.handles = 0 then spread type fix fuel pending seen types
      else if cell.fixed then spread type fix fuel pending (id :: seen) types
      else
        spread type fix fuel (cell.listeners ++ pending) (id :: seen)
          (types.update id fun cell => { cell with type, fixed := fix })
    | none => spread type fix fuel pending seen types

/-- Tells the type to a cell and all it reaches. Every cell puts its listeners in line once, which bounds
the number of cells told. -/
def tell (types : TypeCells) (id : CellId) (type : JvmType) (fix : Bool) : TypeCells :=
  let links := types.cells.foldl (fun count cell => count + cell.listeners.length) 0
  types.spread type fix (links + 2) [id] []

/-- Makes a type certain. What is certain already stays as it is. -/
def fix (types : TypeCells) (ref : TypeRef) (type : JvmType) : TypeCells :=
  match ref with
  | .known _ => types
  | .cell id => types.tell id type true

/-- Replaces a guess. The unknown type tells nothing. -/
def suggest (types : TypeCells) (ref : TypeRef) (type : JvmType) : TypeCells :=
  match ref with
  | .known _ => types
  | .cell id => if type = .unknown then types else types.tell id type false

/-- From now on `target` learns what `source` learns, beginning with what `source` knows. -/
def bind (types : TypeCells) (source target : TypeRef) : TypeCells :=
  if source = target then types
  else
    let linked := match source, target with
      | .cell id, .cell listener =>
        types.update id fun cell => { cell with listeners := cell.listeners ++ [listener] }
      | _, _ => types
    let type := linked.typeOf source
    if type = .unknown then linked
    else if linked.isFixed source then linked.fix target type
    else linked.suggest target type

/-- Binds both ways. The side that knows more speaks first: the other one if it is certain or this one
knows nothing. -/
def bindMutually (types : TypeCells) (this other : TypeRef) : TypeCells :=
  if types.isFixed other || types.typeOf this = .unknown then
    (types.bind other this).bind this other
  else
    (types.bind this other).bind other this

end TypeCells

end Decompiler
