import Decompiler.Proofs.Descriptor.Field

/-!
Method descriptors and the types that are read off them. The parameter list of a text ends at the first closing
parenthesis. Where no class name of a parameter has one, the texts that are read are the descriptors of methods, and
where one has, a descriptor is not read back.
-/

namespace Decompiler

theorem JvmType.length_descriptor_pos (type : JvmType) : 0 < type.descriptor.toList.length := by
  cases type <;> simp [JvmType.descriptor]

namespace MethodDescriptor

/-- The descriptors of types one after another. -/
def written (types : List JvmType) : List Char := types.flatMap fun type => type.descriptor.toList

/-- The text of a method descriptor. -/
def text (descriptor : MethodDescriptor) : String :=
  "(" ++ String.ofList (written descriptor.parameters) ++ ")" ++ descriptor.result.descriptor

def Described (descriptor : MethodDescriptor) : Prop :=
  (∀ type ∈ descriptor.parameters, type.Described) ∧ descriptor.result.Described

/-- No class name of a parameter has a closing parenthesis. -/
def Plain (descriptor : MethodDescriptor) : Prop := ')' ∉ written descriptor.parameters

/-- Types that stand one after another at the start of a text, up to where no more than a reserve of it is left. -/
inductive Fills (reserve : Nat) : List JvmType → List Char → Prop where
  | done {text : List Char} (hEnd : text.length ≤ reserve) : Fills reserve [] text
  | next {type : JvmType} {types : List JvmType} {text rest : List Char} (hMore : reserve < text.length)
      (described : type.Described) (hText : text = type.descriptor.toList ++ rest) (others : Fills reserve types rest) :
      Fills reserve (type :: types) text

variable {reserve fuel : Nat} {types : List JvmType} {text rest inside tail : List Char}

theorem length_rest_le {type : JvmType} (hFuel : text.length ≤ fuel + 1) (hText : text = type.descriptor.toList ++ rest) :
    rest.length ≤ fuel := by
  have hOne := type.length_descriptor_pos
  rw [hText, List.length_append] at hFuel
  omega

/-- The parameters are those that fill the text up to the reserve. -/
theorem readParameters_eq_some_iff (hFuel : text.length ≤ fuel) :
    readParameters reserve fuel text = some types ↔ Fills reserve types text := by
  induction fuel generalizing text types with
  | zero =>
      obtain rfl : text = [] := by simpa using hFuel
      constructor
      · rintro ⟨⟩
        exact .done (Nat.zero_le reserve)
      · intro fills
        cases fills with
        | done => rfl
        | next hMore => cases hMore
  | succ fuel ih =>
      rw [readParameters]
      split
      next hEnd =>
        constructor
        · rintro ⟨⟩
          exact .done hEnd
        · intro fills
          cases fills with
          | done => rfl
          | next hMore => omega
      next hMore =>
        constructor
        · intro hRead
          obtain ⟨⟨type, rest⟩, hType, hRead⟩ := Option.bind_eq_some_iff.mp hRead
          obtain ⟨others, hOthers, hSame⟩ := Option.bind_eq_some_iff.mp hRead
          cases hSame
          obtain ⟨described, hText⟩ := JvmType.eq_of_readDescriptor hType
          exact .next (Nat.lt_of_not_le hMore) described hText ((ih (length_rest_le hFuel hText)).mp hOthers)
        · intro fills
          cases fills with
          | done hEnd => exact absurd hEnd hMore
          | next _ described hText others =>
              have hOthers := (ih (length_rest_le hFuel hText)).mpr others
              rw [hText, JvmType.readDescriptor_descriptor described]
              simp [hOthers]

theorem Fills.described (fills : Fills reserve types text) : ∀ type ∈ types, type.Described := by
  induction fills with
  | done => simp
  | next _ described _ _ ih => exact List.forall_mem_cons.mpr ⟨described, ih⟩

theorem Fills.exists_rest (fills : Fills reserve types text) :
    ∃ rest, text = written types ++ rest ∧ rest.length ≤ reserve := by
  induction fills with
  | @done text hEnd => exact ⟨text, rfl, hEnd⟩
  | next _ _ hText _ ih =>
      obtain ⟨rest, rfl, hRest⟩ := ih
      exact ⟨rest, by simp [hText, written], hRest⟩

theorem fills_written (described : ∀ type ∈ types, type.Described) (rest : List Char) :
    Fills rest.length types (written types ++ rest) := by
  induction types with
  | nil => exact .done (Nat.le_refl _)
  | cons type types ih =>
      obtain ⟨describedFirst, describedOthers⟩ := List.forall_mem_cons.mp described
      have hOne := type.length_descriptor_pos
      refine .next ?_ describedFirst ?_ (ih describedOthers)
      · simp [written]
        omega
      · simp [written]

/-- Without a closing parenthesis in them, the parameters end where the first closing parenthesis of the text is. -/
theorem fills_iff_of_plain (hPlain : ')' ∉ written types) (hInside : ')' ∉ inside) :
    Fills (tail.length + 1) types (inside ++ ')' :: tail) ↔
      (∀ type ∈ types, type.Described) ∧ inside = written types := by
  constructor
  · intro fills
    refine ⟨fills.described, ?_⟩
    obtain ⟨rest, hText, hRest⟩ := fills.exists_rest
    rcases List.append_eq_append_iff.mp hText with ⟨beyond, hWritten, hTail⟩ | ⟨left, rfl, rfl⟩
    · cases beyond with
      | nil => simpa using hWritten.symm
      | cons c beyond =>
          -- The parameters run over the parenthesis, which is the first character that they have behind it.
          obtain ⟨rfl, -⟩ := List.cons.inj hTail
          exact absurd (by simp [hWritten]) hPlain
    · have hNone : left = [] := by
        rw [List.length_append, List.length_cons] at hRest
        exact List.length_eq_zero_iff.mp (by omega)
      simp [hNone]
  · rintro ⟨described, rfl⟩
    exact fills_written described (')' :: tail)

theorem exists_inside {text : String} {descriptor : MethodDescriptor} (hRead : ofText? text = some descriptor) :
    ∃ inside tail, ')' ∉ inside ∧ text.toList = '(' :: (inside ++ ')' :: tail) := by
  unfold ofText? at hRead
  split at hRead
  next body hText =>
    split at hRead
    next c tail hTail =>
      obtain ⟨hInside, -, hBody⟩ := cut_iff.mp ⟨rfl, hTail⟩
      exact ⟨_, tail, hInside, by rw [hText, ← hBody]⟩
    next => cases hRead
  next => cases hRead

/-- What a text is read as: the parameters fill it up to the first closing parenthesis, and the result stands behind
that parenthesis. -/
theorem ofText?_eq_some_iff_fills {text : String} {descriptor : MethodDescriptor} (hInside : ')' ∉ inside)
    (hText : text.toList = '(' :: (inside ++ ')' :: tail)) :
    ofText? text = some descriptor ↔
      Fills (tail.length + 1) descriptor.parameters (inside ++ ')' :: tail) ∧
        descriptor.result.Described ∧ tail = descriptor.result.descriptor.toList := by
  obtain ⟨-, hAfter⟩ := cut_iff.mpr ⟨hInside, rfl, Eq.refl (inside ++ ')' :: tail)⟩
  rw [ofText?, hText]
  simp only [hAfter, Option.bind_eq_bind, Option.bind_eq_some_iff, readParameters_eq_some_iff (Nat.le_refl _)]
  constructor
  · rintro ⟨parameters, fills, hResult⟩
    split at hResult
    next result hReadResult =>
      cases hResult
      obtain ⟨described, hTail⟩ := JvmType.eq_of_readDescriptor hReadResult
      exact ⟨fills, described, by simpa using hTail⟩
    next => cases hResult
  · rintro ⟨fills, described, rfl⟩
    have hResult := JvmType.readDescriptor_descriptor described []
    rw [List.append_nil] at hResult
    exact ⟨_, fills, by rw [hResult]; rfl⟩

/-- Where no class name of a parameter has a closing parenthesis, a text is read as a method descriptor exactly if it
is the text of that descriptor. -/
theorem ofText?_eq_some_iff_of_plain {text : String} {descriptor : MethodDescriptor} (plain : descriptor.Plain) :
    ofText? text = some descriptor ↔ descriptor.Described ∧ descriptor.text = text := by
  constructor
  · intro hRead
    obtain ⟨inside, tail, hInside, hText⟩ := exists_inside hRead
    obtain ⟨fills, describedResult, rfl⟩ := (ofText?_eq_some_iff_fills hInside hText).mp hRead
    obtain ⟨described, rfl⟩ := (fills_iff_of_plain plain hInside).mp fills
    refine ⟨⟨described, describedResult⟩, ?_⟩
    simp [← String.toList_inj, hText, MethodDescriptor.text]
  · rintro ⟨⟨described, describedResult⟩, rfl⟩
    have hText : descriptor.text.toList =
        '(' :: (written descriptor.parameters ++ ')' :: descriptor.result.descriptor.toList) := by
      simp [MethodDescriptor.text]
    rw [ofText?_eq_some_iff_fills plain hText, fills_iff_of_plain plain plain]
    exact ⟨⟨described, rfl⟩, describedResult, rfl⟩

/-- What a text is read as has another text if a class name of a parameter has a closing parenthesis. So no descriptor
of such parameters is read back, and the parameters that are read run over the parenthesis of the text. -/
theorem text_eq_iff_plain {text : String} {descriptor : MethodDescriptor} (hRead : ofText? text = some descriptor) :
    descriptor.text = text ↔ descriptor.Plain := by
  constructor
  · rintro rfl
    obtain ⟨inside, tail, hInside, hText⟩ := exists_inside hRead
    obtain ⟨-, -, rfl⟩ := (ofText?_eq_some_iff_fills hInside hText).mp hRead
    obtain rfl : written descriptor.parameters = inside := by simpa [MethodDescriptor.text] using hText
    exact hInside
  · intro plain
    exact ((ofText?_eq_some_iff_of_plain plain).mp hRead).2

/-- A class name with a closing parenthesis: the descriptor with it is not read, and another text is read as one. -/
example : ofText? "(La);)V" = none ∧ ofText? "(La)Lb;" = some ⟨[.reference "a)Lb"], .reference "b"⟩ := by
  constructor <;> cbv

end MethodDescriptor

end Decompiler
