import Decompiler.Execution.Basic

/-!
Properties of steps that are kept when steps are put in sequence. They hold of all that is made of such steps,
for instance of loops over lists.
-/

namespace Decompiler

/-- A step that succeeds does the first action and then the other one. -/
theorem run_bind_ok {ρ ε σ α β : Type} {action : ReaderT ρ (ExceptT ε (StateM σ)) α}
    {next : α → ReaderT ρ (ExceptT ε (StateM σ)) β} {setting : ρ} {state after : σ} {result : β}
    (hRun : ((action >>= next) setting).run.run state = (.ok result, after)) :
    ∃ value middle, (action setting).run.run state = (.ok value, middle) ∧
      (next value setting).run.run middle = (.ok result, after) := by
  change (ExceptT.run (action setting >>= fun value => next value setting)).run state = _ at hRun
  rw [ExceptT.run_bind, StateT.run_bind] at hRun
  rcases hFirst : (action setting).run.run state with ⟨_ | value, middle⟩
  · rw [hFirst] at hRun
    cases hRun
  · rw [hFirst] at hRun
    exact ⟨value, middle, rfl, hRun⟩

/-- The property holds of steps that do nothing, and of two steps in sequence if it holds of both. -/
structure Compositional {m : Type → Type} [Monad m] (property : ∀ {α : Type}, m α → Prop) : Prop where
  pure : ∀ {α : Type} (value : α), property (Pure.pure value : m α)
  bind : ∀ {α β : Type} {action : m α} {next : α → m β}, property action → (∀ value, property (next value)) →
    property (action >>= next)

namespace Compositional

variable {m : Type → Type} [Monad m] {property : ∀ {α : Type}, m α → Prop} {α β γ : Type}

/-- Only the items of the list matter to a loop. -/
theorem foldlM_of_mem (kept : Compositional @property) {step : α → γ → m α} (items : List γ)
    (hStep : ∀ item ∈ items, ∀ value, property (step value item)) (value : α) : property (items.foldlM step value) := by
  induction items generalizing value with
  | nil => exact kept.pure _
  | cons item rest ih =>
      rw [List.foldlM_cons]
      exact kept.bind (hStep item List.mem_cons_self value) (ih fun item hItem => hStep item (List.mem_cons_of_mem _ hItem))

/-- By induction on the items: a loop is a step in sequence with the loop over the rest. -/
theorem foldlM (kept : Compositional @property) {step : α → γ → m α} (hStep : ∀ value item, property (step value item))
    (items : List γ) (value : α) : property (items.foldlM step value) :=
  kept.foldlM_of_mem items (fun item _ value => hStep value item) value

theorem forM (kept : Compositional @property) {step : γ → m PUnit} (hStep : ∀ item, property (step item))
    (items : List γ) : property (items.forM step) := by
  induction items with
  | nil => exact kept.pure _
  | cons item rest ih => exact kept.bind (hStep item) fun _ => ih

/-- A loop that may stop early does so after a step, so nothing more is to be shown for it. -/
theorem forIn_of_mem (kept : Compositional @property) {step : γ → α → m (ForInStep α)} (items : List γ)
    (hStep : ∀ item ∈ items, ∀ value, property (step item value)) (value : α) :
    property (forIn items value step) := by
  induction items generalizing value with
  | nil => exact kept.pure _
  | cons item rest ih =>
      rw [List.forIn_cons]
      refine kept.bind (hStep item List.mem_cons_self value) fun outcome => ?_
      cases outcome with
      | done value => exact kept.pure _
      | yield value => exact ih (fun item hItem => hStep item (List.mem_cons_of_mem _ hItem)) value

theorem forIn (kept : Compositional @property) {step : γ → α → m (ForInStep α)}
    (hStep : ∀ item value, property (step item value)) (items : List γ) (value : α) :
    property (forIn items value step) :=
  kept.forIn_of_mem items (fun item _ => hStep item) value

/-- A pass that drops what yields nothing is a loop with a list of results. -/
theorem filterMapM (kept : Compositional @property) {step : γ → m (Option α)}
    (hStep : ∀ item, property (step item)) (items : List γ) : property (items.filterMapM step) := by
  have hLoop : ∀ (items : List γ) (found : List α), property (List.filterMapM.loop step items found) := by
    intro items
    induction items with
    | nil => exact fun _ => kept.pure _
    | cons item rest ih =>
        intro found
        refine kept.bind (hStep item) fun result => ?_
        cases result with
        | none => exact ih _
        | some value => exact ih _
  exact hLoop items []

theorem filterM (kept : Compositional @property) {test : γ → m Bool} (hTest : ∀ item, property (test item))
    (items : List γ) : property (items.filterM test) := by
  have hLoop : ∀ (items : List γ) (found : List γ), property (List.filterAuxM test items found) := by
    intro items
    induction items with
    | nil => exact fun _ => kept.pure _
    | cons item rest ih => exact fun found => kept.bind (hTest item) fun passed => ih _
  exact kept.bind (hLoop items []) fun found => kept.pure _

/-- The test of all items stops at the first one that fails. -/
theorem allM (kept : Compositional @property) {test : γ → m Bool} (hTest : ∀ item, property (test item))
    (items : List γ) : property (items.allM test) := by
  induction items with
  | nil => exact kept.pure _
  | cons item rest ih =>
      rw [List.allM]
      refine kept.bind (hTest item) fun passed => ?_
      cases passed
      · exact kept.pure _
      · exact ih

/-- The test for some item stops at the first one that passes. -/
theorem anyM (kept : Compositional @property) {test : γ → m Bool} (hTest : ∀ item, property (test item))
    (items : List γ) : property (items.anyM test) := by
  induction items with
  | nil => exact kept.pure _
  | cons item rest ih =>
      rw [List.anyM]
      refine kept.bind (hTest item) fun passed => ?_
      cases passed
      · exact ih
      · exact kept.pure _

variable [LawfulMonad m]

/-- Converting a result is a step followed by one that does nothing. -/
theorem map (kept : Compositional @property) {action : m α} (hAction : property action) (convert : α → β) :
    property (convert <$> action) := by
  rw [map_eq_pure_bind]
  exact kept.bind hAction fun value => kept.pure _

theorem mapM (kept : Compositional @property) {step : γ → m α} (hStep : ∀ item, property (step item))
    (items : List γ) : property (items.mapM step) := by
  induction items with
  | nil => exact List.mapM_nil (m := m) ▸ kept.pure _
  | cons item rest ih =>
      rw [List.mapM_cons]
      exact kept.bind (hStep item) fun first => kept.bind ih fun others => kept.pure _

end Compositional

end Decompiler
