import Decompiler.Execution.Idiom
import Mathlib.Data.List.Basic

/-!
What the concatenation of a recipe means. Sums are evaluated from left to right, and a sum with a string on either side
joins the texts that its sides are converted to.
-/

namespace Decompiler.Concatenation

open Execution

/-- A value, with what its conversion to a text has to tell apart. -/
inductive Value (α : Type) where
  | null
  | string (text : String)
  | other (value : α)
  deriving DecidableEq

/-- How values are converted to texts, and how operands other than sums and strings are evaluated. -/
structure Evaluation (m : Type → Type) (α : Type) where
  spell : α → String
  /-- The sum of two values of which neither has the type of strings. -/
  add : Value α → Value α → m (Value α)
  value : OperandKind → m (Value α)

namespace Evaluation

variable {m : Type → Type} {α : Type} [Monad m]

/-- The text that a value is converted to. -/
def text (evaluation : Evaluation m α) : Value α → String
  | .null => "null"
  | .string text => text
  | .other value => evaluation.spell value

mutual

/-- The value of an operand. Whether a sum joins texts depends on the types of its sides, not on their values. -/
def evaluate (evaluation : Evaluation m α) (types : TypeCells) : Operand → m (Value α)
  | ⟨_, _, _, _, _, kind⟩ => evaluateKind evaluation types kind

def evaluateKind (evaluation : Evaluation m α) (types : TypeCells) : OperandKind → m (Value α)
  | .string text => return .string text
  | .binary left .add right => do
    let x ← evaluate evaluation types left
    let y ← evaluate evaluation types right
    if types.typeOf left.type = .string ∨ types.typeOf right.type = .string then
      return .string (evaluation.text x ++ evaluation.text y)
    else evaluation.add x y
  | kind => evaluation.value kind

end

/-- The text that an operand is converted to. -/
def spelling (evaluation : Evaluation m α) (types : TypeCells) (operand : Operand) : m String :=
  evaluation.text <$> evaluation.evaluate types operand

/-- The texts of operands one after another. -/
def joined (evaluation : Evaluation m α) (types : TypeCells) (operands : List Operand) : m String :=
  String.join <$> operands.mapM (evaluation.spelling types)

end Evaluation

/-! ### Recipes -/

/-- The recipe that is used: without one, each argument is marked and nothing else. -/
def template (recipe : Option String) (count : Nat) : List Char :=
  recipe.elim (List.replicate count '\x01') String.toList

/-- A recipe with the next one of the texts at each mark. -/
def fill : List Char → List String → String
  | [], _ => ""
  | '\x01' :: rest, texts => texts.head?.getD "" ++ fill rest texts.tail
  | c :: rest, texts => String.singleton c ++ fill rest texts

/-- The parts that a recipe has with the arguments at its marks. -/
inductive Split : List Char → List Operand → List Operand → Prop where
  | nil : Split [] [] []
  | literal {text rest : List Char} {arguments parts : List Operand} {part : Operand} (hMark : '\x01' ∉ text)
      (hKind : part.kind = .string (String.ofList text)) (others : Split rest arguments parts) :
      Split (text ++ rest) arguments (part :: parts)
  | argument {rest : List Char} {arguments parts : List Operand} {part : Operand}
      (others : Split rest arguments parts) : Split ('\x01' :: rest) (part :: arguments) (part :: parts)

theorem split_text (literal : List Char) (supply : Supply) (hMark : '\x01' ∉ literal) {rest : List Char}
    {arguments parts : List Operand} (others : Split rest arguments parts) :
    Split (literal ++ rest) arguments (((recipeParts.text literal).run supply).1 ++ parts) := by
  cases literal with
  | nil => exact others
  | cons first literal => exact .literal hMark rfl others

theorem types_text (literal : List Char) (supply : Supply) :
    ((recipeParts.text literal).run supply).2.types = supply.types := by
  cases literal <;> rfl

/-- A recipe without unknown constants and with a mark for each argument falls into its parts. -/
theorem split_recipeParts {literal recipe : List Char} {arguments : List Operand} (hMark : '\x01' ∉ literal)
    (hConstant : '\x02' ∉ recipe) (hCount : recipe.count '\x01' = arguments.length) (supply : Supply) :
    Split (literal ++ recipe) arguments ((recipeParts literal recipe arguments).run supply).1 ∧
      ((recipeParts literal recipe arguments).run supply).2.types = supply.types := by
  fun_induction recipeParts literal recipe arguments generalizing supply with
  | case1 literal arguments =>
      obtain rfl : arguments = [] := List.length_eq_zero_iff.mp hCount.symm
      have hSplit := split_text literal supply hMark .nil
      simp only [List.append_nil] at hSplit ⊢
      exact ⟨hSplit, types_text literal supply⟩
  | case2 literal rest arguments ih =>
      cases arguments with
      | nil => simp at hCount
      | cons argument arguments =>
          rw [List.count_cons_self, List.length_cons, Nat.add_right_cancel_iff] at hCount
          obtain ⟨hSplit, hTypes⟩ := ih List.not_mem_nil (List.not_mem_of_not_mem_cons hConstant) hCount
            ((recipeParts.text literal).run supply).2
          refine ⟨?_, hTypes.trans (types_text literal supply)⟩
          change Split _ _ (_ ++ [argument] ++ _)
          rw [List.append_assoc]
          exact split_text literal supply hMark (.argument hSplit)
  | case3 => exact absurd List.mem_cons_self hConstant
  | case4 literal c rest arguments hNoMark hNoConstant ih =>
      rw [← List.singleton_append, ← List.append_assoc]
      refine ih ?_ (List.not_mem_of_not_mem_cons hConstant) ?_ supply
      · rw [List.mem_append, List.mem_singleton]
        exact not_or.mpr ⟨hMark, fun h => hNoMark h.symm⟩
      · rw [← hCount, List.count_cons_of_ne hNoMark]

/-- Without a recipe the parts are the arguments. -/
theorem split_arguments (arguments : List Operand) :
    Split (List.replicate arguments.length '\x01') arguments arguments := by
  induction arguments with
  | nil => exact .nil
  | cons argument arguments ih => exact .argument ih

example : fill ['a', '\x01', '\x01', '.'] ["null", "1"] = "anull1." := by decide

theorem fill_cons_of_ne {c : Char} (hNoMark : c ≠ '\x01') (rest : List Char) (texts : List String) :
    fill (c :: rest) texts = String.singleton c ++ fill rest texts := by
  rw [fill]
  exact hNoMark

theorem fill_append {text : List Char} (hMark : '\x01' ∉ text) (rest : List Char) (texts : List String) :
    fill (text ++ rest) texts = String.ofList text ++ fill rest texts := by
  induction text with
  | nil => rw [List.nil_append, String.ofList_nil, String.empty_append]
  | cons c text ih =>
      obtain ⟨hNoMark, hMark⟩ := List.ne_and_not_mem_of_not_mem_cons hMark
      rw [List.cons_append, fill_cons_of_ne hNoMark.symm, ih hMark, ← String.append_assoc, String.singleton_eq_ofList,
        ← String.ofList_append, List.singleton_append]

/-! ### Sums -/

section

variable {m : Type → Type} {α : Type} [Monad m] [LawfulMonad m] {evaluation : Evaluation m α} {types : TypeCells}

namespace Evaluation

theorem joined_nil : evaluation.joined types [] = pure "" := by
  rw [joined, List.mapM_nil, map_pure, String.join_nil]

theorem joined_cons (operand : Operand) (others : List Operand) :
    evaluation.joined types (operand :: others) = (do
      let text ← evaluation.spelling types operand
      let rest ← evaluation.joined types others
      return text ++ rest) := by
  simp only [joined, List.mapM_cons, map_bind, map_pure, String.join_cons, bind_map_left]

end Evaluation

omit [LawfulMonad m] in
theorem evaluate_string {operand : Operand} {text : String} (hKind : operand.kind = .string text) :
    evaluation.evaluate types operand = pure (.string text) := by
  cases operand
  cases hKind
  rfl

/-- The parts spell the recipe filled with the texts of the arguments. -/
theorem Split.joined {recipe : List Char} {arguments parts : List Operand} (split : Split recipe arguments parts) :
    evaluation.joined types parts = fill recipe <$> arguments.mapM (evaluation.spelling types) := by
  induction split with
  | nil => rw [Evaluation.joined_nil, List.mapM_nil, map_pure]; rfl
  | @literal text rest arguments parts part hMark hKind others ih =>
      have hFill : fill (text ++ rest) = fun texts => String.ofList text ++ fill rest texts :=
        funext (fill_append hMark rest)
      rw [Evaluation.joined_cons, ih, hFill, Evaluation.spelling, evaluate_string hKind]
      simp [Evaluation.text]
  | argument others ih =>
      rw [Evaluation.joined_cons, ih, List.mapM_cons]
      simp [fill]

/-- The operand has the type of strings, and its value is one. -/
structure IsText (evaluation : Evaluation m α) (types : TypeCells) (operand : Operand) (text : m String) : Prop where
  type : types.typeOf operand.type = .string
  value : evaluation.evaluate types operand = .string <$> text

theorem isText_string (text : String) (supply : Supply) :
    IsText evaluation types ((Operand.string text).run supply).1 (pure text) :=
  ⟨rfl, by rw [map_pure]; rfl⟩

theorem isText_sum {left right : Operand}
    (hString : types.typeOf left.type = .string ∨ types.typeOf right.type = .string) (supply : Supply) :
    IsText evaluation types ((Operand.typed (.binary left .add right) .string).run supply).1 (do
      return (← evaluation.spelling types left) ++ (← evaluation.spelling types right)) := by
  refine ⟨rfl, ?_⟩
  change evaluation.evaluateKind types (.binary left .add right) = _
  simp only [Evaluation.evaluateKind, if_pos hString, Evaluation.spelling, map_bind, bind_map_left, map_pure]

theorem IsText.spelling {operand : Operand} {text : m String} (isText : IsText evaluation types operand text) :
    evaluation.spelling types operand = text := by
  rw [Evaluation.spelling, isText.value]
  simp [Evaluation.text]

theorem joined_sum {left right : Operand}
    (hString : types.typeOf left.type = .string ∨ types.typeOf right.type = .string) (others : List Operand)
    (supply : Supply) :
    evaluation.joined types (((Operand.typed (.binary left .add right) .string).run supply).1 :: others) =
      evaluation.joined types (left :: right :: others) := by
  rw [Evaluation.joined_cons, (isText_sum hString supply).spelling]
  simp only [Evaluation.joined_cons, bind_assoc, pure_bind, String.append_assoc]

/-- The operand that parts are joined to. -/
def joinTo (first : Operand) (others : List Operand) : GraphM Operand :=
  others.foldlM (fun left right => Operand.typed (.binary left .add right) .string) first

/-- Whatever is added to a string makes it longer. -/
theorem IsText.joinTo {first : Operand} {text : m String} (isText : IsText evaluation types first text)
    (others : List Operand) (graph : Graph) :
    IsText evaluation types ((joinTo first others).run graph).1 (evaluation.joined types (first :: others)) := by
  induction others generalizing first text graph with
  | nil =>
      have hText : evaluation.joined types [first] = text := by
        rw [Evaluation.joined_cons, isText.spelling]
        simp only [Evaluation.joined_nil, pure_bind, String.append_empty, bind_pure]
      rwa [hText]
  | cons second others ih =>
      rw [← joined_sum (.inl isText.type) others graph.supply]
      exact ih (isText_sum (.inl isText.type) graph.supply)
        { graph with supply := ((Operand.typed (.binary first .add second) .string).run graph.supply).2 }

/-- Two parts or more, with a string among the first two. -/
theorem isText_joinTo {first second : Operand}
    (hString : types.typeOf first.type = .string ∨ types.typeOf second.type = .string) (others : List Operand)
    (graph : Graph) :
    IsText evaluation types ((joinTo first (second :: others)).run graph).1
      (evaluation.joined types (first :: second :: others)) := by
  rw [← joined_sum hString others graph.supply]
  exact (isText_sum hString graph.supply).joinTo others
    { graph with supply := ((Operand.typed (.binary first .add second) .string).run graph.supply).2 }

/-- A part on its own is a text of the recipe, or the argument of the recipe that is nothing but a mark. -/
theorem Split.single {recipe : List Char} {arguments : List Operand} {part : Operand}
    (split : Split recipe arguments [part]) :
    (∃ text, part.kind = .string text) ∨ recipe = ['\x01'] ∧ arguments = [part] := by
  cases split with
  | literal hMark hKind others => exact .inl ⟨_, hKind⟩
  | argument others =>
      cases others
      exact .inr ⟨rfl, rfl⟩

/-- The operand made of parts, with an empty string in front unless one of the first two is a string. -/
def joinParts (parts : List Operand) : GraphM Operand := do
  let graph ← get
  let parts ←
    if (parts.take 2).any fun part => graph.typeOf part == .string then pure parts
    else do pure ((← Operand.string "") :: parts)
  match parts with
  | [] => Operand.string ""
  | first :: rest => joinTo first rest

theorem concatenation_eq (arguments : List Operand) (recipe : Option String) :
    concatenation arguments recipe =
      recipe.elim (joinParts arguments) fun recipe => recipeParts [] recipe.toList arguments >>= joinParts := by
  cases recipe <;> rfl

theorem run_joinParts_of_string {first : Operand} {others : List Operand} {graph : Graph}
    (hString : ((first :: others).take 2).any (fun part => graph.typeOf part == .string) = true) :
    (joinParts (first :: others)).run graph = (joinTo first others).run graph := by
  simp only [joinParts, StateT.run_bind, StateT.run_get, pure_bind, hString, ↓reduceIte]

/-- The empty string comes first, where there is no string yet. -/
theorem isText_joinParts_of_none {parts : List Operand} {graph : Graph}
    (hNone : (parts.take 2).any (fun part => graph.typeOf part == .string) = false) :
    IsText evaluation types ((joinParts parts).run graph).1 (evaluation.joined types parts) := by
  have hRun : (joinParts parts).run graph = (joinTo ((Operand.string "").run graph.supply).1 parts).run
      { graph with supply := ((Operand.string "").run graph.supply).2 } := by
    simp only [joinParts, StateT.run_bind, StateT.run_get, pure_bind, hNone, Bool.false_eq_true, ↓reduceIte]
    rfl
  have hEmpty : IsText evaluation types ((Operand.string "").run graph.supply).1 (pure "") :=
    isText_string "" graph.supply
  have hText := hEmpty.joinTo parts { graph with supply := ((Operand.string "").run graph.supply).2 }
  rw [Evaluation.joined_cons, hEmpty.spelling] at hText
  rw [hRun]
  simpa only [pure_bind, String.empty_append, bind_pure] using hText

/-- Parts are joined to the text that they spell, if a part on its own is not just any string. -/
theorem isText_joinParts {parts : List Operand} {graph : Graph}
    (hAlone : ∀ part, parts = [part] → graph.typeOf part = .string → ∃ text, part.kind = .string text) :
    IsText evaluation graph.supply.types ((joinParts parts).run graph).1
      (evaluation.joined graph.supply.types parts) := by
  by_cases hString : (parts.take 2).any (fun part => graph.typeOf part == .string) = true
  · match parts with
    | [] => cases hString
    | [part] =>
        rw [run_joinParts_of_string hString]
        have hType : graph.typeOf part = .string := by simpa using hString
        obtain ⟨text, hKind⟩ := hAlone part rfl hType
        have isText : IsText evaluation graph.supply.types part (pure text) :=
          ⟨hType, by rw [evaluate_string hKind, map_pure]⟩
        exact isText.joinTo [] graph
    | first :: second :: others =>
        rw [run_joinParts_of_string hString]
        exact isText_joinTo (by simpa [Graph.typeOf] using hString) others graph
  · exact isText_joinParts_of_none (Bool.not_eq_true _ ▸ hString)

/-- A concatenation joins the parts of its recipe, and finding them teaches no types. -/
theorem run_concatenation {arguments : List Operand} {recipe : Option String} (graph : Graph)
    (hConstant : '\x02' ∉ template recipe arguments.length)
    (hCount : (template recipe arguments.length).count '\x01' = arguments.length) :
    ∃ parts after, Split (template recipe arguments.length) arguments parts ∧
      after.supply.types = graph.supply.types ∧
      (concatenation arguments recipe).run graph = (joinParts parts).run after := by
  rw [concatenation_eq]
  cases recipe with
  | none => exact ⟨arguments, graph, split_arguments arguments, rfl, rfl⟩
  | some recipe =>
      obtain ⟨hSplit, hTypes⟩ := split_recipeParts List.not_mem_nil hConstant hCount graph.supply
      exact ⟨_, { graph with supply := ((recipeParts [] recipe.toList arguments).run graph.supply).2 }, hSplit, hTypes,
        rfl⟩

/-- A concatenation is the recipe with the texts of the arguments at its marks, which is a string and not null. The
arguments are evaluated once each and in order. The recipe names no unknown constant and has a mark for each argument;
where it is nothing but a mark, the argument does not have the type of strings. -/
theorem concatenation_fills {arguments : List Operand} {recipe : Option String} (evaluation : Evaluation m α)
    (graph : Graph) (hConstant : '\x02' ∉ template recipe arguments.length)
    (hCount : (template recipe arguments.length).count '\x01' = arguments.length)
    (hMark : template recipe arguments.length = ['\x01'] → ∀ argument ∈ arguments, graph.typeOf argument ≠ .string) :
    evaluation.evaluate graph.supply.types ((concatenation arguments recipe).run graph).1 = (do
      let texts ← arguments.mapM (evaluation.spelling graph.supply.types)
      return .string (fill (template recipe arguments.length) texts)) := by
  obtain ⟨parts, after, split, hTypes, hRun⟩ := run_concatenation graph hConstant hCount
  have hAlone : ∀ part, parts = [part] → after.typeOf part = .string → ∃ text, part.kind = .string text := by
    rintro part rfl hType
    rcases split.single with ⟨text, hKind⟩ | ⟨hTemplate, rfl⟩
    · exact ⟨text, hKind⟩
    · rw [Graph.typeOf, hTypes] at hType
      exact absurd hType (hMark hTemplate part List.mem_cons_self)
  have hText : IsText evaluation after.supply.types ((joinParts parts).run after).1 _ := isText_joinParts hAlone
  have hValue := hText.value
  rw [hTypes, split.joined] at hValue
  rw [hRun, hValue, Functor.map_map, map_eq_pure_bind]

end

/-- The recipe that is nothing but a mark is left out for an argument of the type of strings. There is no sum then, and
null stays null. -/
theorem concatenation_mark {argument : Operand} {recipe : Option String} {graph : Graph}
    (hMark : template recipe 1 = ['\x01']) (hString : graph.typeOf argument = .string) :
    (concatenation [argument] recipe).run graph = (argument, graph) := by
  have hJoin : (joinParts [argument]).run graph = (argument, graph) := by
    rw [run_joinParts_of_string (by simp [hString])]
    rfl
  rw [concatenation_eq]
  cases recipe with
  | none => exact hJoin
  | some recipe =>
      rw [Option.elim_some, show recipe.toList = ['\x01'] from hMark]
      exact hJoin

end Decompiler.Concatenation
