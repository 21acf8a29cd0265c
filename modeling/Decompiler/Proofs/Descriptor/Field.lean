import Decompiler.Descriptor
import Mathlib.Data.List.TakeWhile

/-!
Field descriptors and their types. No descriptor is the start of another one, so that a reader finds the end of a
descriptor in front of any text. What is read off a text is the descriptor of the type, and nothing else is read.
-/

namespace Decompiler

/-- A text is cut at the first place where a character stands. -/
theorem cut_iff {c next : Char} {front rest text : List Char} :
    text.takeWhile (· ≠ c) = front ∧ text.dropWhile (· ≠ c) = next :: rest ↔
      c ∉ front ∧ next = c ∧ text = front ++ c :: rest := by
  constructor
  · rintro ⟨rfl, hAfter⟩
    obtain rfl : next = c := by
      have hHead := List.head?_dropWhile_not (fun d => decide (d ≠ c)) text
      rw [hAfter] at hHead
      simpa using hHead
    have hFront : next ∉ text.takeWhile (· ≠ next) := fun hMem => by simpa using List.mem_takeWhile_imp hMem
    exact ⟨hFront, rfl, by rw [← hAfter, List.takeWhile_append_dropWhile]⟩
  · rintro ⟨hFront, rfl, rfl⟩
    have hBefore : ∀ d ∈ front, decide (d ≠ next) = true := by
      intro d hD
      simpa using ne_of_mem_of_not_mem hD hFront
    rw [List.takeWhile_append_of_pos hBefore, List.dropWhile_append_of_pos hBefore]
    simp

namespace JvmType

/-- The type has a descriptor of its own: it is neither null nor unknown, and the semicolon that ends a class name is
not part of one. -/
def Described : JvmType → Prop
  | .reference name => ';' ∉ name.toList
  | .array element => element.Described
  | .null | .unknown => False
  | _ => True

variable {type : JvmType} {text rest : List Char}

/-- A descriptor is read back, whatever text stands after it. -/
theorem readDescriptor_descriptor (described : type.Described) (rest : List Char) :
    readDescriptor (type.descriptor.toList ++ rest) = some (type, rest) := by
  induction type with
  | reference name =>
      obtain ⟨hName, hAfter⟩ := cut_iff.mpr ⟨described, rfl, Eq.refl (name.toList ++ ';' :: rest)⟩
      have hText : (reference name).descriptor.toList ++ rest = 'L' :: (name.toList ++ ';' :: rest) := by
        simp [descriptor]
      rw [hText, readDescriptor, hName, hAfter, String.ofList_toList]
  | array element ih => simp [descriptor, readDescriptor, ih described]
  | null | unknown => cases described
  | _ => simp [descriptor, readDescriptor]

/-- What is read off is the descriptor of the type. -/
theorem eq_of_readDescriptor (hRead : readDescriptor text = some (type, rest)) :
    type.Described ∧ text = type.descriptor.toList ++ rest := by
  fun_induction readDescriptor text generalizing type with
  | case10 text next after hAfter =>
      cases hRead
      obtain ⟨hName, -, hText⟩ := cut_iff.mp ⟨rfl, hAfter⟩
      generalize text.takeWhile _ = name at hName hText ⊢
      subst hText
      simp [Described, descriptor, hName]
  | case11 => cases hRead
  | case12 text ih =>
      obtain ⟨⟨element, after⟩, hElement, hSame⟩ := Option.bind_eq_some_iff.mp hRead
      cases hSame
      obtain ⟨described, rfl⟩ := ih hElement
      exact ⟨described, by simp [descriptor]⟩
  | case13 => cases hRead
  | _ =>
      cases hRead
      simp [Described, descriptor]

theorem readDescriptor_eq_some_iff :
    readDescriptor text = some (type, rest) ↔ type.Described ∧ text = type.descriptor.toList ++ rest := by
  constructor
  · exact eq_of_readDescriptor
  · rintro ⟨described, rfl⟩
    exact readDescriptor_descriptor described rest

/-- A complete descriptor leaves nothing of the text. -/
theorem ofDescriptor?_iff_read {text : String} :
    ofDescriptor? text = some type ↔ readDescriptor text.toList = some (type, []) := by
  unfold ofDescriptor?
  split
  next hRead => simp [hRead]
  next hOther => simpa using fun hRead => hOther type hRead

/-- The types with a descriptor of their own are those that are read off theirs, and only its descriptor is read as a
type. -/
theorem ofDescriptor?_eq_some_iff {text : String} :
    ofDescriptor? text = some type ↔ type.Described ∧ type.descriptor = text := by
  rw [ofDescriptor?_iff_read, readDescriptor_eq_some_iff, List.append_nil, String.toList_inj, eq_comm (a := text)]

example : ofDescriptor? "[[Ljava/lang/Object;" = some (.array (.array .object)) := by cbv

/-! ### Positions -/

theorem dropBytes_append (front rest : List Char) :
    dropBytes (front ++ rest) (String.ofList front).utf8ByteSize = some rest := by
  induction front with
  | nil => simp [dropBytes]
  | cons c front ih =>
      obtain ⟨count, hCount⟩ := Nat.exists_eq_succ_of_ne_zero (Nat.ne_of_gt c.utf8Size_pos)
      rw [String.ofList_cons, String.utf8ByteSize_append, String.utf8ByteSize_singleton, hCount, Nat.succ_add]
      simp [dropBytes, hCount, ih]

/-- The bytes that are counted are those in front of what is left. -/
theorem dropBytes_eq_some_iff {count : Nat} :
    dropBytes text count = some rest ↔
      ∃ front, text = front ++ rest ∧ count = (String.ofList front).utf8ByteSize := by
  constructor
  · intro hDrop
    fun_induction dropBytes text count with
    | case1 text =>
        cases hDrop
        exact ⟨[], rfl, by simp⟩
    | case2 => cases hDrop
    | case3 c text count hFits ih =>
        obtain ⟨front, rfl, hCount⟩ := ih hDrop
        refine ⟨c :: front, rfl, ?_⟩
        rw [String.ofList_cons, String.utf8ByteSize_append, String.utf8ByteSize_singleton]
        omega
    | case4 => cases hDrop
  · rintro ⟨front, rfl, rfl⟩
    exact dropBytes_append front rest

/-- A type is read at the position where its descriptor stands, and the position after it is given back. -/
theorem readDescriptorAt?_eq_some_iff {text : String} {position next : Nat} :
    readDescriptorAt? text position = some (type, next) ↔
      type.Described ∧ ∃ front back, text = front ++ type.descriptor ++ back ∧ position = front.utf8ByteSize ∧
        next = (front ++ type.descriptor).utf8ByteSize := by
  have hBytes : ∀ front back : String,
      (front ++ type.descriptor ++ back).utf8ByteSize - back.utf8ByteSize =
        (front ++ type.descriptor).utf8ByteSize := by
    intro front back
    rw [String.utf8ByteSize_append, Nat.add_sub_cancel]
  constructor
  · intro hRead
    obtain ⟨left, hLeft, hRead⟩ := Option.bind_eq_some_iff.mp hRead
    obtain ⟨⟨_, rest⟩, hType, hNext⟩ := Option.bind_eq_some_iff.mp hRead
    cases hNext
    obtain ⟨front, hText, rfl⟩ := dropBytes_eq_some_iff.mp hLeft
    obtain ⟨described, rfl⟩ := eq_of_readDescriptor hType
    obtain rfl : text = String.ofList front ++ type.descriptor ++ String.ofList rest := by
      simp [← String.toList_inj, hText]
    exact ⟨described, _, _, rfl, rfl, hBytes _ _⟩
  · rintro ⟨described, front, back, rfl, rfl, rfl⟩
    have hLeft := dropBytes_append front.toList (type.descriptor.toList ++ back.toList)
    rw [String.ofList_toList] at hLeft
    rw [← hBytes front back]
    simp [readDescriptorAt?, hLeft, readDescriptor_descriptor described]

end JvmType

end Decompiler
