import MapStyle.Node.Basic

/-!
# Memos

A reference is looked up once. Its value is then written into the **cell** of
the reference and read from there ever after, under whatever declarations are
in scope then. Cells are numbered, and a store of them (`Memos`) grows by
fresh cells and fills empty ones; a full cell keeps what it holds.

Two declarations that share a value share its cells. To **place** a value is
to give it an owner and cells of its own: each starts with what the cell it
replaces holds, and that cell is left alone.
-/

namespace MapStyle

/-- **The store of cells**, each empty or holding the value of a
reference. -/
structure Memos where
  cells : Array (Option Node)

namespace Memos

/-- The store without cells. -/
def empty : Memos := ⟨#[]⟩

/-- What a cell holds. A reference without a cell remembers nothing. -/
def get? (m : Memos) (cell : Option Nat) : Option Node :=
  cell.bind fun c => m.cells[c]?.join

/-- The store after a cell was filled; one that is full stays as it is. -/
def fill (m : Memos) (cell : Option Nat) (n : Node) : Memos :=
  match cell with
  | none => m
  | some c => if (m.get? (some c)).isSome then m else ⟨m.cells.setIfInBounds c (some n)⟩

/-- The number of a fresh cell. -/
def next (m : Memos) : Nat := m.cells.size

/-- The store with one cell more. -/
def grow (m : Memos) (content : Option Node) : Memos := ⟨m.cells.push content⟩

@[simp] theorem get?_none (m : Memos) : m.get? none = none := rfl

/-- A full cell keeps what it holds. -/
theorem fill_of_full {m : Memos} {cell : Option Nat} {n : Node} (h : m.get? cell = some n)
    (k : Node) : m.fill cell k = m := by
  cases cell with
  | none => rfl
  | some c => simp [fill, h]

/-- An empty cell of the store is full after it was filled. -/
theorem get?_fill_self {m : Memos} {c : Nat} (hc : c < m.cells.size)
    (h : m.get? (some c) = none) (n : Node) : (m.fill (some c) n).get? (some c) = some n := by
  rw [fill, if_neg (by simp [h])]
  simp [get?, hc]

/-- Filling a cell leaves the others alone. -/
theorem get?_fill_of_ne {m : Memos} {c d : Nat} (h : c ≠ d) (n : Node) :
    (m.fill (some c) n).get? (some d) = m.get? (some d) := by
  rw [fill]
  split
  · rfl
  · simp [get?, Array.getElem?_setIfInBounds_ne h]

/-- A fresh cell starts with the content it was given. -/
@[simp] theorem get?_grow_next (m : Memos) (content : Option Node) :
    (m.grow content).get? (some m.next) = content := by
  simp [get?, grow, next]

/-- A fresh cell leaves the others alone. -/
theorem get?_grow_of_lt {m : Memos} {c : Nat} (h : c < m.next) (content : Option Node) :
    (m.grow content).get? (some c) = m.get? (some c) := by
  rw [next] at h
  simp [get?, grow, Array.getElem?_push, Nat.ne_of_lt h]

end Memos

/-! ## Placing -/

/-- The reference with an owner and a cell of its own, which holds what is
known of the reference already. -/
def Variable.place (owner : Option Owner) (v : Variable) : StateM Memos Variable := do
  let memos ← get
  set (memos.grow (memos.get? v.cell))
  return { v with owner := owner.or v.owner, cell := some memos.next }

namespace Node

mutual

/-- **The node with its references placed** under an owner, or under the
owners they have. -/
def place (owner : Option Owner) : Node → StateM Memos Node
  | .expression elements => return .expression (← placeAll owner elements)
  | .filter key comparison operand location =>
    return .filter (← place owner key) comparison (← place owner operand) location
  | .effectCall name arguments => return .effectCall name (← placeAll owner arguments)
  | .url target paths => return .url (← place owner target) paths
  | .variable reference => return .variable (← reference.place owner)
  | .value components => return .value (← placeAll owner components)
  | n => return n

/-- The nodes with their references placed. -/
def placeAll (owner : Option Owner) : List Node → StateM Memos (List Node)
  | [] => return []
  | n :: ns => return (← place owner n) :: (← placeAll owner ns)

end

mutual

/-- **The references of a node**, in the order they are written. -/
def references : Node → List Variable
  | .expression elements => referencesAll elements
  | .filter key _ operand _ => references key ++ references operand
  | .effectCall _ arguments => referencesAll arguments
  | .url target _ => references target
  | .variable reference => [reference]
  | .value components => referencesAll components
  | _ => []

/-- The references of several nodes. -/
def referencesAll : List Node → List Variable
  | [] => []
  | n :: ns => references n ++ referencesAll ns

end

@[simp] theorem referencesAll_eq_flatMap (ns : List Node) :
    referencesAll ns = ns.flatMap references := by
  induction ns with
  | nil => rfl
  | cons n ns ih => rw [referencesAll, ih, List.flatMap_cons]

end Node

/-- The value with its references placed. -/
def Value.place (owner : Option Owner) (v : Value) : StateM Memos Value :=
  return ⟨← Node.placeAll owner v.components⟩

/-- The references of a value, in the order they are written. -/
def Value.references (v : Value) : List Variable := Node.referencesAll v.components

/-- The filter with its references placed. -/
def Filter.place (owner : Option Owner) (f : Filter) : StateM Memos Filter :=
  return { f with key := ← f.key.place owner, operand := ← f.operand.place owner }

/-- The references of a filter, the key's first. -/
def Filter.references (f : Filter) : List Variable := f.key.references ++ f.operand.references

end MapStyle
