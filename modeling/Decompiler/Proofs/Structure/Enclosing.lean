import Decompiler.Proofs.Structure.Growth
import Mathlib.Data.List.Find

/-!
The constructs around a statement, and the jumps out of them. A jump without a label is read as one out of the
innermost construct that it can mean. While statements are made the table of constructs grows, and some of them come to
need a label, but neither changes what a jump means.
-/

namespace Decompiler

/-- The nodes at which a construct is known. Jumps to them leave it or repeat it. -/
def Breakable.places (breakable : Breakable) : List NodeId :=
  breakable.entrance :: breakable.exit.toList ++ breakable.checkpoint.toList

/-- A table of constructs has grown. What a construct is has not changed, and a label that is needed stays needed. -/
structure Extends (before after : Array Breakable) : Prop where
  size : before.size ≤ after.size
  same : ∀ id < before.size,
    { after.getD id default with labeled := false } = { before.getD id default with labeled := false }
  labeled : ∀ id < before.size, (before.getD id default).labeled → (after.getD id default).labeled

namespace Extends

variable {before middle after : Array Breakable} {id : BreakableId}

theorem refl (table : Array Breakable) : Extends table table := ⟨Nat.le_refl _, fun _ _ => rfl, fun _ _ => id⟩

theorem trans (first : Extends before middle) (second : Extends middle after) : Extends before after where
  size := first.size.trans second.size
  same id hId := (second.same id (hId.trans_le first.size)).trans (first.same id hId)
  labeled id hId hLabeled := second.labeled id (hId.trans_le first.size) (first.labeled id hId hLabeled)

/-- Whatever tells one construct from another is the same. -/
theorem field {α : Type} (grown : Extends before after) (read : Breakable → α)
    (hRead : ∀ breakable : Breakable, read { breakable with labeled := false } = read breakable)
    (hId : id < before.size) : read (after.getD id default) = read (before.getD id default) := by
  rw [← hRead, grown.same id hId, hRead]

theorem push (table : Array Breakable) (breakable : Breakable) : Extends table (table.push breakable) where
  size := by simp
  same id hId := by simp [Array.getD_eq_getD_getElem?, Array.getElem?_push, Nat.ne_of_lt hId]
  labeled id hId := by simp [Array.getD_eq_getD_getElem?, Array.getElem?_push, Nat.ne_of_lt hId]

theorem label (table : Array Breakable) (id : BreakableId) :
    Extends table (table.modify id fun breakable => { breakable with labeled := true }) where
  size := by simp
  same other hOther := by
    simp only [Array.getD_eq_getD_getElem?, Array.getElem?_modify]
    split <;> simp [Array.getElem?_eq_getElem hOther]
  labeled other hOther := by
    simp only [Array.getD_eq_getD_getElem?, Array.getElem?_modify]
    split <;> simp [Array.getElem?_eq_getElem hOther]

theorem labeled_label {table : Array Breakable} (hId : id < table.size) :
    ((table.modify id fun breakable => { breakable with labeled := true }).getD id default).labeled = true := by
  simp [Array.getD_eq_getD_getElem?, Array.getElem_modify, hId]

end Extends

/-! ### Jumps -/

/-- The construct among those around it, innermost first, that a jump without a label means. -/
def innermost? (table : Array Breakable) (active : List BreakableId) (isContinue : Bool) : Option BreakableId :=
  if isContinue then active.find? fun id => (table.getD id default).kind == .loop else active.head?

/-- A jump to the node begins the construct anew, or leaves it. -/
def Leads (table : Array Breakable) (id : BreakableId) (isContinue : Bool) (target : NodeId) : Prop :=
  id < table.size ∧
    if isContinue then (table.getD id default).kind = .loop ∧ (table.getD id default).hasHeader target
    else (table.getD id default).exit = some target

/-- A jump to the node says where it leads: the construct writes the label that the jump names, or the one that the
jump means without a label is known at the node. -/
def Clear (table : Array Breakable) (active : List BreakableId) (id : BreakableId) (isContinue labeled : Bool)
    (target : NodeId) : Prop :=
  if labeled then (table.getD id default).labeled = true
  else ∀ inner ∈ innermost? table active isContinue, target ∈ (table.getD inner default).places

namespace Structure

/-- A jump to the next round leads to where a loop begins anew, and one that leaves a construct to where control goes
on after it. An arm of a switch may leave the switch as such. -/
def Fits (table : Array Breakable) (active : List BreakableId) : Structure → Prop
  | .continues id labeled => ∃ target, Leads table id true target ∧ Clear table active id true labeled target
  | .breaks id labeled => (active.head? = some id ∧ labeled = false) ∨
    ∃ target, Leads table id false target ∧ Clear table active id false labeled target
  | _ => True

/-- The constructs around what stands inside a statement, innermost first. -/
def around (active : List BreakableId) : Structure → List BreakableId
  | .whileLoop _ id .. | .doWhile _ id .. | .forLoop _ id .. | .forEach _ id .. | .forever _ id .. | .switch _ id .. =>
    id :: active
  | _ => active

end Structure

section Growing

variable {before after : Array Breakable} {active : List BreakableId} {isContinue : Bool} {target : NodeId}

theorem innermost?_mem {inner : BreakableId} (hInner : inner ∈ innermost? before active isContinue) :
    inner ∈ active := by
  unfold innermost? at hInner
  split at hInner
  · exact List.mem_of_find?_eq_some hInner
  · exact List.mem_of_mem_head? hInner

theorem innermost?_extends (grown : Extends before after) (hActive : ∀ id ∈ active, id < before.size) :
    innermost? after active isContinue = innermost? before active isContinue := by
  unfold innermost?
  split
  · refine List.find?_congr fun id hId => ?_
    rw [grown.field Breakable.kind (fun _ => rfl) (hActive id hId)]
  · rfl

theorem Leads.grow {id : BreakableId} (leads : Leads before id isContinue target) (grown : Extends before after) :
    Leads after id isContinue target := by
  obtain ⟨hId, hPlace⟩ := leads
  refine ⟨hId.trans_le grown.size, ?_⟩
  rwa [grown.field Breakable.kind (fun _ => rfl) hId, grown.field (Breakable.hasHeader · target) (fun _ => rfl) hId,
    grown.field Breakable.exit (fun _ => rfl) hId]

theorem Clear.grow {id : BreakableId} {labeled : Bool} (clear : Clear before active id isContinue labeled target)
    (grown : Extends before after) (hId : id < before.size) (hActive : ∀ id ∈ active, id < before.size) :
    Clear after active id isContinue labeled target := by
  cases labeled with
  | true => exact grown.labeled id hId clear
  | false =>
      intro inner hInner
      rw [innermost?_extends grown hActive] at hInner
      rw [grown.field Breakable.places (fun _ => rfl) (hActive inner (innermost?_mem hInner))]
      exact clear inner hInner

theorem Structure.Fits.grow {statement : Structure} (fits : statement.Fits before active)
    (grown : Extends before after) (hActive : ∀ id ∈ active, id < before.size) : statement.Fits after active := by
  cases statement with
  | continues id labeled =>
      obtain ⟨target, leads, clear⟩ := fits
      exact ⟨target, leads.grow grown, clear.grow grown leads.1 hActive⟩
  | breaks id labeled =>
      refine fits.imp_right fun ⟨target, leads, clear⟩ => ?_
      exact ⟨target, leads.grow grown, clear.grow grown leads.1 hActive⟩
  | _ => trivial

end Growing

/-! ### Statements with what stands around them -/

/-- The statement fits into the constructs around it, and so do all that stand inside it and after it. -/
inductive Enclosed (structures : Array Structure) (table : Array Breakable) :
    List BreakableId → StructureId → Prop where
  | intro {active : List BreakableId} {id : StructureId} {statement : Structure}
      (hGet : structures[id]? = some statement) (hActive : ∀ id ∈ active, id < table.size)
      (fits : statement.Fits table active)
      (inside : ∀ child ∈ statement.nested, Enclosed structures table (statement.around active) child)
      (follow : ∀ child ∈ statement.follow?, Enclosed structures table active child) :
      Enclosed structures table active id

namespace Enclosed

variable {structures later : Array Structure} {before after : Array Breakable} {active : List BreakableId}
  {id : StructureId}

theorem active_lt (enclosed : Enclosed structures before active id) : ∀ id ∈ active, id < before.size := by
  cases enclosed
  assumption

/-- New statements and new constructs change nothing. -/
theorem mono (enclosed : Enclosed structures before active id)
    (hArena : ∀ (id : StructureId) (statement : Structure), structures[id]? = some statement →
      later[id]? = some statement)
    (grown : Extends before after) : Enclosed later after active id := by
  induction enclosed with
  | intro hGet hActive fits _ _ inside follow =>
      exact .intro (hArena _ _ hGet) (fun id hId => (hActive id hId).trans_le grown.size)
        (fits.grow grown hActive) inside follow

/-- An empty statement fits everywhere. -/
theorem drop (enclosed : Enclosed structures before active id) (place : StructureId) :
    Enclosed (structures.setIfInBounds place .empty) before active id := by
  induction enclosed with
  | @intro active id statement hGet hActive fits _ _ inside follow =>
      obtain ⟨hSize, -⟩ := Array.getElem?_eq_some_iff.mp hGet
      by_cases hPlace : place = id
      · have hEmpty : (structures.setIfInBounds place .empty)[id]? = some .empty := by
          rw [hPlace, Array.getElem?_setIfInBounds_self_of_lt hSize]
        exact .intro hEmpty hActive trivial (by simp [Structure.nested]) (by simp [Structure.follow?])
      · refine .intro ?_ hActive fits inside follow
        rw [Array.getElem?_setIfInBounds_ne hPlace, hGet]

end Enclosed

end Decompiler
