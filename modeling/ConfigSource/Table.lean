import ConfigSource.Digits

/-!
# Tables in member order

A **table** is a list of members in the order in which they were first written. Writing a key that
is there already keeps its position. Read as a whole, a table lists its **index keys** first – the
canonical decimal numbers below `2 ^ 32 - 1`, in ascending order – and then the other keys in the
order in which they were written.

* `ConfigSource.Table.set`, `ConfigSource.Table.get?`: writing and reading one member;
* `ConfigSource.Table.ofList`: the table written member by member, the last of equal keys winning;
* `ConfigSource.Table.indexKey?`: the number that an index key denotes;
* `ConfigSource.Table.ordered`: the members in reading order.
-/

namespace ConfigSource

/-- Members in the order in which their keys were first written. -/
abbrev Table (α : Type) := List (String × α)

namespace Table

variable {α : Type}

/-- The value under `key`, if there is one. -/
def get? : Table α → String → Option α
  | [], _ => none
  | (k, v) :: rest, key => if k = key then some v else get? rest key

/-- Writes `value` under `key`: in place if the key is there, at the end otherwise. -/
def set : Table α → String → α → Table α
  | [], key, value => [(key, value)]
  | (k, v) :: rest, key, value =>
    if k = key then (key, value) :: rest else (k, v) :: set rest key value

/-- The keys, in the order in which they were first written. -/
def keys (t : Table α) : List String := t.map Prod.fst

/-- The table without the members that do not satisfy `keep`. -/
def restrict (keep : String → Bool) (t : Table α) : Table α := t.filter fun m => keep m.1

/-- Writes the members of a list one after the other. -/
def setAll (t : Table α) (members : List (String × α)) : Table α :=
  members.foldl (fun t m => t.set m.1 m.2) t

/-- The table written from a list of members: of equal keys the last value wins, at the position of
the first. -/
def ofList (members : List (String × α)) : Table α := setAll [] members

/-- The first member whose value satisfies `p`. -/
def firstWhere (p : α → Bool) (t : Table α) : Option String := (t.find? fun m => p m.2).map Prod.fst

/-- The number of an index key: decimal digits without a leading zero, below `2 ^ 32 - 1`. -/
def indexKey? (key : String) : Option Nat :=
  let digits := key.toList
  if digits ≠ [] ∧ digits.all Char.isDigit ∧ (digits.head? ≠ some '0' ∨ digits.length = 1) then
    let n := Digits.value digits
    if n < 0xFFFFFFFF then some n else none
  else none

/-- The members in reading order: index keys in ascending order, then the others as written. -/
def ordered (t : Table α) : Table α :=
  let indexed := t.filterMap fun m => (indexKey? m.1).map fun n => (n, m)
  (indexed.mergeSort fun a b => decide (a.1 ≤ b.1)).map Prod.snd
    ++ t.filter fun m => (indexKey? m.1).isNone

/-! ### Reading what was written -/

@[simp]
theorem get?_nil (key : String) : get? ([] : Table α) key = none := rfl

@[simp]
theorem get?_set_self (t : Table α) (key : String) (v : α) : (t.set key v).get? key = some v := by
  induction t with
  | nil => simp [set, get?]
  | cons m rest ih =>
    obtain ⟨k, w⟩ := m
    by_cases h : k = key <;> simp [set, get?, h, ih]

@[simp]
theorem get?_set_of_ne (t : Table α) {key other : String} (v : α) (h : key ≠ other) :
    (t.set key v).get? other = t.get? other := by
  induction t with
  | nil => simp [set, get?, h]
  | cons m rest ih =>
    obtain ⟨k, w⟩ := m
    by_cases hk : k = key
    · subst hk; simp [set, get?, h]
    · simp [set, get?, hk, ih]

end Table

end ConfigSource
