/-
  `Arena.Edit`: histories of changes to an arena.

  A history goes on after a change that was refused, as if it had not been asked
  for.
-/
import LoxReader.Arena.Basic

set_option autoImplicit false

namespace LoxReader

/-- A change that can be asked of an arena. -/
inductive Edit (α : Type) where
  /-- Put a new node above the whole tree. -/
  | addRoot (value : α)
  /-- Put a new node behind the last child of `parent`. -/
  | addChild (parent : NodeId) (value : α)
  /-- Move a node with its whole subtree behind the last child of `newParent`. -/
  | adopt (newParent node : NodeId)

namespace Arena

variable {α : Type}

/-- Make a change; the answer names the node that it adds, if it adds one. -/
def apply (t : Arena α) : Edit α → Except ArenaFault (Option NodeId × Arena α)
  | .addRoot value =>
    match t.addRoot value with
    | (id, t) => .ok (some id, t)
  | .addChild parent value =>
    match t.addChild parent value with
    | .error f => .error f
    | .ok (id, t) => .ok (some id, t)
  | .adopt newParent id =>
    match t.adopt newParent id with
    | .error f => .error f
    | .ok t => .ok (none, t)

/-- The arena after a change was asked for. -/
def after (t : Arena α) (edit : Edit α) : Arena α :=
  match t.apply edit with
  | .error _ => t
  | .ok (_, t') => t'

/-- The arena after a history of changes. -/
def afterAll (t : Arena α) (edits : List (Edit α)) : Arena α :=
  edits.foldl after t

/-- The arenas that have a history. -/
def Reachable (t : Arena α) : Prop :=
  ∃ edits : List (Edit α), t = empty.afterAll edits

theorem reachable_empty : Reachable (empty : Arena α) :=
  ⟨[], rfl⟩

/-- A history can always go on. -/
theorem Reachable.after {t : Arena α} (h : t.Reachable) (edit : Edit α) :
    (t.after edit).Reachable := by
  obtain ⟨edits, rfl⟩ := h
  exact ⟨edits ++ [edit], by simp [afterAll, List.foldl_append]⟩

end Arena

end LoxReader
