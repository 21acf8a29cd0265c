import Decompiler.Proofs.Arithmetic.Machine
import Mathlib.Data.List.Basic

/-!
Units that create an int array, store constants into it and return it, run on an operand stack with a heap of arrays.
-/

namespace Decompiler.Initializer

open Arithmetic (Instruction)

inductive Value where
  | int (value : Int32)
  | array (address : Nat)
  deriving DecidableEq

/-- The state of the stack machine, the top of the stack first. -/
structure Machine where
  stack : List Value := []
  arrays : List (List Int32) := []

/-- The event is one of the instructions that push the constant. -/
def Pushes (event : Event) (value : Int32) : Prop := Instruction.ofEvent? event = some (.constant value)

instance (event : Event) (value : Int32) : Decidable (Pushes event value) :=
  inferInstanceAs (Decidable (Instruction.ofEvent? event = some (.constant value)))

namespace Machine

/-- One instruction. A new array has zeros for elements; a store asks for an index inside its array. -/
def step (machine : Machine) (event : Event) : Option Machine :=
  match event, machine.stack with
  | .int .newarray 10, .int length :: stack =>
    if 0 ≤ length then
      some { stack := .array machine.arrays.length :: stack
             arrays := machine.arrays ++ [List.replicate length.toInt.toNat 0] }
    else none
  | .insn .dup, top :: stack => some { machine with stack := top :: top :: stack }
  | .insn .iastore, .int value :: .int index :: .array address :: stack => do
    let elements ← machine.arrays[address]?
    if 0 ≤ index ∧ index.toInt < elements.length then
      some { stack, arrays := machine.arrays.set address (elements.set index.toInt.toNat value) }
    else none
  | event, stack =>
    match Instruction.ofEvent? event with
    | some (.constant value) => some { machine with stack := .int value :: stack }
    | _ => none

/-- The elements of the array that the events return. Nothing if an instruction fails or is none of these. -/
def returned? (machine : Machine) : List Event → Option (List Int32)
  | [] => none
  | [.insn .areturn] =>
    match machine.stack with
    | .array address :: _ => machine.arrays[address]?
    | _ => none
  | event :: rest => do (← machine.step event).returned? rest

end Machine

/-- A store of a value at an index. -/
abbrev Store := Int32 × Int32

/-- The events store the values one after another into the array on top of the stack, which has the length. -/
inductive Stores (length : Int32) : List Event → List Store → Prop where
  | nil : Stores length [] []
  | cons {ofIndex ofValue : Event} {index value : Int32} {events : List Event} {stores : List Store}
      (hIndex : Pushes ofIndex index) (hValue : Pushes ofValue value) (hBounds : 0 ≤ index ∧ index < length)
      (others : Stores length events stores) :
      Stores length (.insn .dup :: ofIndex :: ofValue :: .insn .iastore :: events) ((index, value) :: stores)

/-- The elements after some stores. -/
def written (elements : List Int32) (stores : List Store) : List Int32 :=
  stores.foldl (fun elements store => elements.set store.1.toInt.toNat store.2) elements

/-- Each store goes to the index behind the one before it, and the first one to the given index. -/
def Consecutive : Nat → List Store → Prop
  | _, [] => True
  | start, (index, _) :: stores => index.toInt = start ∧ Consecutive (start + 1) stores

instance decidableConsecutive : (start : Nat) → (stores : List Store) → Decidable (Consecutive start stores)
  | _, [] => inferInstanceAs (Decidable True)
  | start, (index, _) :: stores =>
    have := decidableConsecutive (start + 1) stores
    inferInstanceAs (Decidable (index.toInt = start ∧ Consecutive (start + 1) stores))

/-- Consecutive stores inside the bounds are no more than there is room for. -/
theorem Stores.fits {length : Int32} {events : List Event} {stores : List Store} (stored : Stores length events stores)
    {start : Nat} (consecutive : Consecutive start stores) (hStart : (start : Int) ≤ length.toInt) :
    start + stores.length ≤ length.toInt.toNat := by
  induction stored generalizing start with
  | nil => exact Int.ofNat_le.mp (Int.le_trans hStart (Int.self_le_toNat _))
  | cons hIndex hValue hBounds others ih =>
      obtain ⟨hPlace, consecutive⟩ := consecutive
      have hInside := Int32.lt_iff_toInt_lt.mp hBounds.2
      have hRest := ih consecutive (by omega)
      rw [List.length_cons]
      omega

/-- Consecutive stores put their values behind those that were written before. -/
theorem written_of_consecutive {values : List Int32} {stores : List Store} {room : Nat}
    (consecutive : Consecutive values.length stores) (hRoom : stores.length ≤ room) :
    written (values ++ List.replicate room 0) stores =
      values ++ stores.map Prod.snd ++ List.replicate (room - stores.length) 0 := by
  induction stores generalizing values room with
  | nil => simp [written]
  | cons store stores ih =>
      obtain ⟨index, value⟩ := store
      obtain ⟨hIndex, consecutive⟩ := consecutive
      obtain ⟨room, rfl⟩ := Nat.exists_eq_add_one_of_ne_zero (Nat.ne_zero_of_lt hRoom)
      have hSet : (values ++ List.replicate (room + 1) 0).set index.toInt.toNat value =
          (values ++ [value]) ++ List.replicate room 0 := by
        rw [hIndex, Int.toNat_natCast, List.set_append_right _ _ (Nat.le_refl _), Nat.sub_self, List.replicate_succ,
          List.set_cons_zero, List.append_assoc, List.singleton_append]
      have hRest : Consecutive (values ++ [value]).length stores := by
        rwa [List.length_append, List.length_singleton]
      change written ((values ++ List.replicate (room + 1) 0).set index.toInt.toNat value) stores = _
      rw [hSet, ih hRest (Nat.le_of_succ_le_succ hRoom), List.map_cons, List.length_cons, Nat.add_sub_add_right,
        List.append_cons values (index, value).2 (stores.map Prod.snd)]

namespace Machine

variable {machine next : Machine} {event : Event}

theorem step_of_pushes {value : Int32} (pushes : Pushes event value) (machine : Machine) :
    machine.step event = some { machine with stack := .int value :: machine.stack } := by
  obtain ⟨stack, arrays⟩ := machine
  unfold Pushes Instruction.ofEvent? at pushes
  split at pushes <;> cases pushes <;> rfl

theorem returned?_of_step (hStep : machine.step event = some next) (rest : List Event) :
    machine.returned? (event :: rest) = next.returned? rest := by
  rw [returned?, hStep]
  · rfl
  · rintro rfl
    cases hStep

/-- Stores inside the bounds of the array succeed, and the array is returned with what they wrote. -/
theorem returned?_stores {length : Int32} {events : List Event} {stores : List Store} {elements : List Int32}
    (stored : Stores length events stores) (hLength : elements.length = length.toInt) :
    ({ stack := [.array 0], arrays := [elements] } : Machine).returned? (events ++ [.insn .areturn]) =
      some (written elements stores) := by
  induction stored generalizing elements with
  | nil => rfl
  | @cons ofIndex ofValue index value events stores hIndex hValue hBounds others ih =>
      have hInside : 0 ≤ index ∧ index.toInt < elements.length :=
        ⟨hBounds.1, hLength ▸ Int32.lt_iff_toInt_lt.mp hBounds.2⟩
      have hStore : ({ stack := [.int value, .int index, .array 0, .array 0], arrays := [elements] } : Machine).step
          (.insn .iastore) = some { stack := [.array 0], arrays := [elements.set index.toInt.toNat value] } :=
        if_pos hInside
      rw [List.cons_append, List.cons_append, List.cons_append, List.cons_append, returned?_of_step rfl,
        returned?_of_step (step_of_pushes hIndex _), returned?_of_step (step_of_pushes hValue _),
        returned?_of_step hStore]
      exact ih (by rw [List.length_set, hLength])

/-- A unit that creates an array, stores into it and returns it. -/
theorem returned?_unit {length : Int32} {size : Event} {events : List Event} {stores : List Store}
    (hSize : Pushes size length) (hLength : 0 ≤ length) (stored : Stores length events stores) :
    ({} : Machine).returned? (size :: .int .newarray 10 :: (events ++ [.insn .areturn])) =
      some (written (List.replicate length.toInt.toNat 0) stores) := by
  have hCreate : ({ stack := [.int length] } : Machine).step (.int .newarray 10) =
      some { stack := [.array 0], arrays := [List.replicate length.toInt.toNat 0] } := if_pos hLength
  rw [returned?_of_step (step_of_pushes hSize _), returned?_of_step hCreate]
  refine returned?_stores stored ?_
  rw [List.length_replicate]
  exact Int.toNat_of_nonneg (Int32.le_iff_toInt_le.mp hLength)

end Machine

end Decompiler.Initializer
