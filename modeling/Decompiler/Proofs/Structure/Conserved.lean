import Decompiler.Proofs.Structure.Terminating

/-!
Visits are conserved. What a node required when it was folded, it requires in the end, although edges go through
connectors by then. So the visits of a unit tell which of its nodes were never folded.
-/

namespace Decompiler

variable {body : MethodBody} {entry : NodeId}

/-- The nodes that a run of folding entered, by its records. -/
def MethodBody.entered (body : MethodBody) (setting : Setting) : List NodeId :=
  (body.fold (setting.recording true)).2.2.filterMap TraceEntry.folded?

/-- Precisely the visits that a node requires in the end came to it, if it was folded and the run did not begin with
it. -/
theorem MethodBody.visitsExact_of_entered (foldable : body.graph.Foldable) (hEntry : body.graph.entry? = some entry)
    (setting : Setting) : ∀ id ∈ body.entered setting, id ≠ entry →
      ((body.fold setting).2.1.graph.node id).VisitsExact := by
  intro id hEntered hOther
  have hSize := body.graph.size_lt_searchBound
  have budget : body.graph.Budget (4 * body.graph.searchBound) (2 * body.graph.nodes.size) := by
    obtain ⟨hEdges, hMirror, hWork, hNodes⟩ := foldable.budget
    exact ⟨hEdges, hMirror, hWork.trans (by rw [Graph.capacity] at hSize; omega), hNodes⟩
  obtain ⟨outcome, after, hRecorded, hRun, records⟩ := Folding.exists_recorded hEntry foldable.unvisited setting True _
    (fun _ => budget) fun _ => Nat.le_mul_of_pos_left _ Nat.two_pos
  have hFolded : id ∈ after.trace.filterMap TraceEntry.folded? := by
    rw [MethodBody.entered, MethodBody.fold, hRecorded] at hEntered
    simpa using hEntered
  rw [MethodBody.fold, hRun]
  exact (records.served trivial id hFolded hOther).exact

theorem Node.VisitsExact.calls {node : Node} (exact : node.VisitsExact) : node.visit.calls = node.requiredCalls := by
  rw [VisitState.calls, Arrivals.count, Node.requiredCalls, exact.sources.length_eq, exact.additional]

/-- Visits are conserved, if the nodes that were never folded, and the one where the run began, have as many visits as
they require. -/
theorem MethodBody.visitsConserved_iff (foldable : body.graph.Foldable) (hEntry : body.graph.entry? = some entry)
    (setting : Setting) :
    let after := (body.fold setting).2.1.graph
    after.visitsConserved ↔ ∀ id ∈ after.reachable, id ∉ body.entered setting ∨ id = entry →
      (after.node id).visit.calls = (after.node id).requiredCalls := by
  intro after
  rw [Graph.visitsConserved, List.all_eq_true]
  refine ⟨fun hAll id hReachable _ => by simpa using hAll id hReachable, fun hLeft id hReachable => ?_⟩
  rw [beq_iff_eq]
  by_cases hEntered : id ∈ body.entered setting ∧ id ≠ entry
  · exact (visitsExact_of_entered foldable hEntry setting id hEntered.1 hEntered.2).calls
  · exact hLeft id hReachable (by tauto)

/-- A method with a loop that is tested where a protected region starts, whose handler goes on with the loop. -/
def testedUnderProtection : CompiledUnit where
  owner := "A"
  name := "m"
  descriptor := "()V"
  isStatic := true
  events :=
    [.tryCatch 1 2 3 "java/lang/Exception", .label 0, .frame .same 0 0,
      .method .invokestatic { owner := "A", name := "f", descriptor := "()V" }, .label 1, .frame .same 0 0,
      .method .invokestatic { owner := "A", name := "g", descriptor := "()I" }, .jump .ifne 0, .label 2,
      .frame .same 0 0, .insn .vreturn, .label 3, .frame .same1 0 1, .var .astore 0, .jump .goto 0]

/-- Neither the handler nor the test of the loop is folded. -/
example : ∃ body, (MethodBody.ofUnit testedUnderProtection {}).1 = .ok body ∧ body.graph.Foldable ∧
    body.graph.entry? = some 3 ∧ body.entered {} = [3, 1] ∧ ¬(body.fold {}).2.1.graph.visitsConserved ∧
    (body.fold {}).2.1.graph.reachable = [3, 0, 1, 2] :=
  exists_body (by decide +kernel)

end Decompiler
