import Decompiler.Graph.Dot
import Mathlib.Data.Nat.Init

/-!
Where the labels of a drawing end for a reader of the DOT language. Only the quotes of a label are escaped, so that the
backslashes of the label itself decide: the label is one whole string if every run of them before a quote or at its end
is even. A label without backslashes is. The text of a string constant with a quote in it is not, as it escapes that
quote by a backslash of its own.
-/

namespace Decompiler.Dot

/-- What stands after a quoted string, from a place inside of it. A backslash takes a backslash or quote after it along,
and the first other quote ends the string. -/
def afterString : List Char → Option (List Char)
  | '\\' :: '\\' :: rest => afterString rest
  | '\\' :: '"' :: rest => afterString rest
  | '"' :: rest => some rest
  | _ :: rest => afterString rest
  | [] => none

/-- Every run of backslashes that stands before a quote or at the end is even. A run that is given comes right before
the text. -/
def evenRuns : (run : Nat) → List Char → Bool
  | run, [] => run % 2 == 0
  | run, c :: rest =>
    if c = '\\' then evenRuns (run + 1) rest
    else if c = '"' then run % 2 == 0 && evenRuns 0 rest
    else evenRuns 0 rest

variable {c : Char} {text rest : List Char}

section

attribute [local simp] afterString

theorem afterString_plain (hBackslash : c ≠ '\\') (hQuote : c ≠ '"') : afterString (c :: text) = afterString text := by
  rw [afterString] <;> simp_all

theorem afterString_backslash (hBackslash : c ≠ '\\') (hQuote : c ≠ '"') :
    afterString ('\\' :: c :: text) = afterString text := by
  rw [afterString, afterString_plain hBackslash hQuote] <;> simp_all

/-- A quote after a run of backslashes ends the string if the run is even. -/
theorem afterString_run_quote (run : Nat) (text : List Char) :
    afterString (List.replicate run '\\' ++ '"' :: text) = if run % 2 = 0 then some text else afterString text := by
  induction run using Nat.twoStepInduction with
  | zero => simp
  | one => simp
  | more run ih _ =>
      rw [List.replicate_succ, List.replicate_succ, List.cons_append, List.cons_append, afterString, ih,
        Nat.add_mod_right]

theorem afterString_run_plain (run : Nat) (hBackslash : c ≠ '\\') (hQuote : c ≠ '"') (text : List Char) :
    afterString (List.replicate run '\\' ++ c :: text) = afterString text := by
  induction run using Nat.twoStepInduction with
  | zero => exact afterString_plain hBackslash hQuote
  | one => exact afterString_backslash hBackslash hQuote
  | more run ih _ =>
      rw [List.replicate_succ, List.replicate_succ, List.cons_append, List.cons_append, afterString, ih]

theorem length_afterString (hRest : afterString text = some rest) : rest.length < text.length := by
  fun_induction afterString text with
  | case1 text ih | case2 text ih => exact Nat.lt_of_lt_of_le (ih hRest) (by simp; omega)
  | case3 text => cases hRest; exact Nat.lt_succ_self _
  | case4 c text _ _ _ ih => exact Nat.lt_succ_of_lt (ih hRest)
  | case5 => cases hRest

end

/-! ### Labels -/

/-- The characters of an escaped label. -/
def escapeAll (label : List Char) : List Char := label.flatMap fun c => if c = '"' then ['\\', '"'] else [c]

theorem toList_escape (label : String) : (escape label).toList = escapeAll label.toList := by
  rw [escape, String.toList_join, List.flatMap_map, escapeAll]
  refine congrArg label.toList.flatMap (funext fun c => ?_)
  split <;> simp

theorem afterString_escapeAll (run : Nat) (label rest : List Char) :
    afterString (List.replicate run '\\' ++ (escapeAll label ++ '"' :: rest)) = some rest ↔
      evenRuns run label = true := by
  induction label generalizing run with
  | nil =>
      rw [escapeAll, List.flatMap_nil, List.nil_append, afterString_run_quote, evenRuns, beq_iff_eq]
      split
      next hEven => simp [hEven]
      next hOdd =>
        -- The closing quote belongs to the backslash before it, and the string goes on behind it.
        exact iff_of_false (fun hRest => Nat.lt_irrefl _ (length_afterString hRest)) hOdd
  | cons c label ih =>
      by_cases hBackslash : c = '\\'
      · have hRun : List.replicate run '\\' ++ (escapeAll (c :: label) ++ '"' :: rest) =
            List.replicate (run + 1) '\\' ++ (escapeAll label ++ '"' :: rest) := by
          simp [escapeAll, hBackslash, List.replicate_succ']
        rw [hRun, ih, evenRuns, if_pos hBackslash]
      by_cases hQuote : c = '"'
      · have hRun : List.replicate run '\\' ++ (escapeAll (c :: label) ++ '"' :: rest) =
            List.replicate (run + 1) '\\' ++ '"' :: (escapeAll label ++ '"' :: rest) := by
          simp [escapeAll, hQuote, List.replicate_succ']
        rw [hRun, afterString_run_quote, evenRuns, if_neg hBackslash, if_pos hQuote]
        split
        next hPaired =>
          -- The escape of the quote completes a pair, and the string ends here, before the label does.
          have hLong : escapeAll label ++ '"' :: rest ≠ rest := fun hSame => by
            have hLength := congrArg List.length hSame
            rw [List.length_append, List.length_cons] at hLength
            omega
          have hOdd : run % 2 ≠ 0 := by omega
          exact iff_of_false (fun hSame => hLong (Option.some.inj hSame)) (by simp [hOdd])
        next hSingle =>
          have hEven : run % 2 = 0 := by omega
          rw [← List.nil_append (escapeAll label ++ _), ← List.replicate_zero, ih, hEven]
          rfl
      · have hPlain : escapeAll (c :: label) ++ '"' :: rest = c :: (escapeAll label ++ '"' :: rest) := by
          simp [escapeAll, hQuote]
        rw [hPlain, afterString_run_plain run hBackslash hQuote, evenRuns, if_neg hBackslash, if_neg hQuote, ← ih 0]
        rfl

/-- Where the label of a node ends for a reader: at its closing quote exactly if its runs of backslashes are even. -/
theorem afterString_label_iff (label : String) (rest : List Char) :
    afterString ((escape label ++ "\"").toList ++ rest) = some rest ↔ evenRuns 0 label.toList = true := by
  rw [← afterString_escapeAll 0 label.toList rest, String.toList_append, toList_escape, List.append_assoc]
  rfl

/-! ### Labels with and without operands -/

variable {label front : List Char} {run : Nat}

theorem evenRuns_of_not_mem (hBackslash : '\\' ∉ label) : evenRuns 0 label = true := by
  induction label with
  | nil => rfl
  | cons c label ih =>
      rw [List.mem_cons, not_or] at hBackslash
      rw [evenRuns, if_neg (Ne.symm hBackslash.1), ih hBackslash.2]
      split <;> rfl

/-- The labels of a drawing without operands are the names of the nodes. Those without a backslash end where they
should. -/
theorem afterString_name {node : Node} (hName : '\\' ∉ node.name.toList) (rest : List Char) :
    afterString ((escape (nodeLabel node false) ++ "\"").toList ++ rest) = some rest :=
  (afterString_label_iff node.name rest).mpr (evenRuns_of_not_mem hName)

/-- Characters that are neither backslashes nor quotes end the run before them. -/
theorem evenRuns_plain (hPlain : ∀ c ∈ front, c ≠ '\\' ∧ c ≠ '"') (hFront : front ≠ []) (text : List Char) :
    evenRuns run (front ++ text) = evenRuns 0 text := by
  induction front generalizing run with
  | nil => exact absurd rfl hFront
  | cons c front ih =>
      obtain ⟨⟨hBackslash, hQuote⟩, hRest⟩ := List.forall_mem_cons.mp hPlain
      rw [List.cons_append, evenRuns, if_neg hBackslash, if_neg hQuote]
      cases front with
      | nil => rfl
      | cons => exact ih hRest (List.cons_ne_nil _ _)

theorem plain_of_mem_toDigits {value : Nat} (hDigit : c ∈ Nat.toDigits 16 value) : c ≠ '\\' ∧ c ≠ '"' := by
  induction value using Nat.strongRecOn with
  | ind value ih =>
      have hLast (digit : Nat) (hDigit : digit < 16) : digit.digitChar ≠ '\\' ∧ digit.digitChar ≠ '"' := by
        revert digit
        decide
      rw [Nat.toDigits_eq_if (by decide)] at hDigit
      split at hDigit
      next hSmall => exact List.mem_singleton.mp hDigit ▸ hLast value hSmall
      next hLarge =>
        rcases List.mem_append.mp hDigit with hFront | hEnd
        · exact ih (value / 16) (Nat.div_lt_self (by omega) (by decide)) hFront
        · exact List.mem_singleton.mp hEnd ▸ hLast (value % 16) (Nat.mod_lt _ (by decide))

theorem evenRuns_escapeIn (hBackslash : c ≠ '\\') (hQuote : c ≠ '"') (text : List Char) :
    evenRuns run ((Text.escapeIn '"' c).toList ++ text) = evenRuns 0 text := by
  have hEscape (letters : List Char) (hPlain : ∀ c ∈ letters, c ≠ '\\' ∧ c ≠ '"') (hLetters : letters ≠ []) :
      evenRuns run ('\\' :: letters ++ text) = evenRuns 0 text := by
    rw [List.cons_append, evenRuns, if_pos rfl, evenRuns_plain hPlain hLetters]
  unfold Text.escapeIn
  rw [if_neg hBackslash, if_neg hQuote]
  split
  · exact hEscape ['0'] (by simp) (List.cons_ne_nil _ _)
  split
  · exact hEscape ['t'] (by simp) (List.cons_ne_nil _ _)
  split
  · exact hEscape ['r'] (by simp) (List.cons_ne_nil _ _)
  split
  · exact hEscape ['n'] (by simp) (List.cons_ne_nil _ _)
  split
  · rw [Char.toString, String.toList_singleton]
    exact evenRuns_plain (by simpa using ⟨hBackslash, hQuote⟩) (List.cons_ne_nil _ _) text
  · have hList : (Text.numberedEscape c).toList = '\\' :: ('u' :: '\x7b' :: Nat.toDigits 16 c.toNat ++ ['\x7d']) := by
      simp [Text.numberedEscape]
    rw [hList]
    refine hEscape _ (fun letter hLetter => ?_) (by simp)
    simp only [List.cons_append, List.mem_cons, List.mem_append, List.not_mem_nil, or_false] at hLetter
    rcases hLetter with rfl | rfl | hDigit | rfl
    · decide
    · decide
    · exact plain_of_mem_toDigits hDigit
    · decide

/-- The text of a string constant as a label, or as a part of one that starts after an even run, is well quoted exactly
if there is no quote in the string. -/
theorem evenRuns_quoteString (text : String) :
    evenRuns 0 (Text.quoteString text).toList = true ↔ '"' ∉ text.toList := by
  have hInside (chars : List Char) (run : Nat) (hRun : run % 2 = 0) :
      evenRuns run (chars.flatMap (fun c => (Text.escapeIn '"' c).toList) ++ ['"']) = true ↔ '"' ∉ chars := by
    induction chars generalizing run with
    | nil => simp [evenRuns, hRun]
    | cons c chars ih =>
        rw [List.flatMap_cons, List.append_assoc, List.mem_cons, not_or]
        by_cases hBackslash : c = '\\'
        · subst hBackslash
          change evenRuns (run + 2) (chars.flatMap _ ++ ['"']) = true ↔ _
          rw [ih (run + 2) (by omega)]
          simp
        by_cases hQuote : c = '"'
        · subst hQuote
          have hOdd : (run + 1) % 2 ≠ 0 := by omega
          change ((run + 1) % 2 == 0 && _) = true ↔ _
          simp [hOdd]
        · rw [evenRuns_escapeIn hBackslash hQuote, ih 0 rfl]
          simp [Ne.symm hQuote]
  have hList : (Text.quoteString text).toList =
      '"' :: (text.toList.flatMap (fun c => (Text.escapeIn '"' c).toList) ++ ['"']) := by
    simp [Text.quoteString, String.toList_join, List.flatMap_map]
  rw [hList, evenRuns, if_neg (by decide), if_pos rfl, ← hInside text.toList 0 rfl]
  simp

/-- The break between the lines of a label ends with a letter. -/
theorem evenRuns_lineBreak (text : List Char) : evenRuns 0 ('\\' :: 'n' :: text) = evenRuns 0 text := by
  rw [evenRuns, if_pos rfl, evenRuns, if_neg (by decide), if_neg (by decide)]

/-- The label of a node with a string constant on its stack, drawn with its operands, ends at its closing quote exactly
if there is no quote in the string. -/
theorem afterString_string_iff {node : Node} (hName : ∀ c ∈ node.name.toList, c ≠ '\\' ∧ c ≠ '"') {operand : Operand}
    {text : String} (hStack : node.stack = [operand]) (hKind : operand.kind = .string text)
    (hEnclosed : operand.enclosed = false) (rest : List Char) :
    afterString ((escape (nodeLabel node true) ++ "\"").toList ++ rest) = some rest ↔ '"' ∉ text.toList := by
  have hText : operand.text = Text.quoteString text := by
    obtain ⟨_, _, _, _, _, _⟩ := operand
    subst hKind hEnclosed
    rw [Operand.text, OperandKind.text, if_neg Bool.false_ne_true]
  have hLabel : (nodeLabel node true).toList = node.name.toList ++ ('\\' :: 'n' :: (Text.quoteString text).toList) := by
    simp [nodeLabel, hStack, hText]
  rw [afterString_label_iff, hLabel, ← evenRuns_quoteString, ← evenRuns_lineBreak (Text.quoteString text).toList]
  by_cases hEmpty : node.name.toList = []
  · rw [hEmpty, List.nil_append]
  · rw [evenRuns_plain hName hEmpty]

/-- The string of one quote is such a constant: its label ends early. -/
theorem afterString_quote_ne : afterString ((escape (nodeLabel { name := "N0", stack := [{
    id := 0, type := .known .string, kind := .string "\"" }] } true) ++ "\"").toList ++ "];".toList) ≠
    some "];".toList := by
  rw [Ne, afterString_string_iff (by simp) rfl rfl rfl]
  simp

end Decompiler.Dot
