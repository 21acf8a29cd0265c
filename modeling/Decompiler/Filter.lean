/-!
Patterns that select units by their signature: alternatives separated by bars, each a sequence of characters,
dots and anchors. A pattern selects a text in which one of its alternatives matches somewhere.
-/

namespace Decompiler

/-- One member of an alternative. -/
inductive FilterAtom where
  | char (value : Char)
  /-- Any character except a line feed. -/
  | any
  /-- The start of the text. -/
  | start
  /-- The end of the text. -/
  | finish
  deriving DecidableEq

structure Filter where
  alternatives : List (List FilterAtom)
  deriving DecidableEq

namespace Filter

/-- The member that a character alone stands for. Brackets and signs of repetition stand for none. -/
def atomOf? : Char → Option FilterAtom
  | '.' => some .any
  | '^' => some .start
  | '$' => some .finish
  | c => if ['(', ')', '[', '*', '+', '?', '\x7b', '\\'].contains c then none else some (.char c)

/-- A backslash takes their meaning from ASCII signs other than the angle brackets. -/
def isEscapable (c : Char) : Bool := c.val < 128 && !c.isAlphanum && c != '<' && c != '>'

/-- Puts a member in front of the first alternative. -/
def prepend (atom : FilterAtom) : List (List FilterAtom) → List (List FilterAtom)
  | [] => [[atom]]
  | first :: others => (atom :: first) :: others

def readAlternatives? : List Char → Option (List (List FilterAtom))
  | [] => some [[]]
  | '|' :: rest => ([] :: ·) <$> readAlternatives? rest
  | '\\' :: c :: rest =>
    if isEscapable c then prepend (.char c) <$> readAlternatives? rest else none
  | c :: rest => do
    let atom ← atomOf? c
    prepend atom <$> readAlternatives? rest

/-- Reads a pattern. -/
def ofPattern? (pattern : String) : Option Filter :=
  Filter.mk <$> readAlternatives? pattern.toList

/-- A sequence matches a beginning of the text. -/
def matchesHere (atStart : Bool) : List FilterAtom → List Char → Bool
  | [], _ => true
  | .start :: atoms, text => atStart && matchesHere atStart atoms text
  | .finish :: atoms, text => text.isEmpty && matchesHere atStart atoms text
  | .char value :: atoms, c :: text => value == c && matchesHere false atoms text
  | .any :: atoms, c :: text => c != '\n' && matchesHere false atoms text
  | _ :: _, [] => false

/-- A sequence matches somewhere in the text. -/
def occursIn (atoms : List FilterAtom) (atStart : Bool) : List Char → Bool
  | [] => matchesHere atStart atoms []
  | c :: text => matchesHere atStart atoms (c :: text) || occursIn atoms false text

def selects (filter : Filter) (text : String) : Bool :=
  filter.alternatives.any fun atoms => occursIn atoms true text.toList

end Filter

end Decompiler
