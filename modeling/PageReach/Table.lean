/-!
# Tables

A table maps strings to values and remembers the order in which its keys first came in. Putting a
value under a key that is already there keeps the key's place.
-/

namespace PageReach

/-- A finite map from strings that keeps the order of insertion. -/
structure Table (α : Type) where
  entries : List (String × α)
deriving Repr, Inhabited

namespace Table

variable {α β : Type}

/-- The table without entries. -/
def empty : Table α := ⟨[]⟩

/-- Puts `value` under `key` into a list of entries. -/
def insertInto {κ : Type} [DecidableEq κ] (key : κ) (value : α) : List (κ × α) → List (κ × α)
  | [] => [(key, value)]
  | (k, v) :: rest =>
    if k = key then (key, value) :: rest else (k, v) :: insertInto key value rest

/-- Puts `value` under `key`. -/
def insert (t : Table α) (key : String) (value : α) : Table α :=
  ⟨insertInto key value t.entries⟩

/-- Puts `value` under `key` unless there is a value already. -/
def insertNew (t : Table α) (key : String) (value : α) : Table α :=
  if t.entries.any (·.1 = key) then t else ⟨t.entries ++ [(key, value)]⟩

/-- The value under `key`. -/
def get? (t : Table α) (key : String) : Option α := t.entries.lookup key

/-- Whether there is a value under `key`. -/
def contains (t : Table α) (key : String) : Bool := (t.get? key).isSome

/-- Puts in the pairs of a list one after the other. -/
def insertAll (t : Table α) (pairs : List (String × α)) : Table α :=
  pairs.foldl (fun t p => t.insert p.1 p.2) t

/-- The table made by putting in the pairs of a list one after the other. -/
def ofList (pairs : List (String × α)) : Table α := empty.insertAll pairs

/-- Puts in all entries of `u`, one after the other. -/
def update (t u : Table α) : Table α := t.insertAll u.entries

/-- The keys in order. -/
def keys (t : Table α) : List String := t.entries.map (·.1)

/-- The values in order. -/
def values (t : Table α) : List α := t.entries.map (·.2)

/-- The table with every value changed by `f`. -/
def map (f : α → β) (t : Table α) : Table β := ⟨t.entries.map fun p => (p.1, f p.2)⟩

/-- The number of keys. -/
def size (t : Table α) : Nat := t.entries.length

end Table

/-! ### Sorted sets of strings -/

/-- A sorted list with neighbouring repetitions left out. -/
def dropRepeats : List String → List String
  | [] => []
  | s :: ss =>
    match dropRepeats ss with
    | [] => [s]
    | t :: ts => if s = t then t :: ts else s :: t :: ts

/-- The strings of a list in code-point order, each once. -/
def sortedSet (ss : List String) : List String := dropRepeats (ss.mergeSort fun a b => a ≤ b)

end PageReach
