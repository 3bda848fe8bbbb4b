import DisputeGame.Tree.Position

/-!
What the steps of a game note down. A step that notes something comes to its result and
its notes together, whatever the result is; who runs it decides what becomes of the notes.
-/

namespace DisputeGame

inductive Note
  /-- A claim is about to be taken in at a slot. -/
  | admitting (slot : Nat) (position : Position)
  /-- A position was looked at from its ancestor at a depth. -/
  | rerooted (position : Position) (ancestor : Depth) (result : Position)
  deriving DecidableEq, Repr

/-- What a step comes to, with the notes made on the way. -/
structure Noted (α : Type) where
  value : α
  notes : List Note

namespace Noted

variable {α β : Type}

def silent (a : α) : Noted α := ⟨a, []⟩

def note (x : Noted α) (n : Note) : Noted α := ⟨x.value, x.notes ++ [n]⟩

def map (f : α → β) (x : Noted α) : Noted β := ⟨f x.value, x.notes⟩

@[simp] theorem value_silent (a : α) : (silent a).value = a := rfl

@[simp] theorem notes_silent (a : α) : (silent a).notes = [] := rfl

@[simp] theorem value_map (f : α → β) (x : Noted α) : (x.map f).value = f x.value := rfl

@[simp] theorem notes_map (f : α → β) (x : Noted α) : (x.map f).notes = x.notes := rfl

end Noted

end DisputeGame
