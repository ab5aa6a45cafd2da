import ConfigSource.Value

/-!
# Tables over a fallback

A table of settings that is written key by key lies over a **fallback**, in which the keys are
looked up that it does not hold itself. Two keys are special.

Writing `__proto__` does not write a member but replaces the fallback. A record becomes the
fallback itself, a list has no members to look up, and an error has none either. `null` cuts the
table off from its fallback for good – from then on the key is an ordinary one, as it is where the
table or the fallback holds it already. Any other value changes nothing.

The fallback of a table can be an error. Every error keeps its own `stack`, and writing one to the
table over it changes that of the error and not the table, unless the table holds a `stack` itself.

* `ConfigSource.Fallback`, `ConfigSource.Layered`: the fallback and the table over it;
* `ConfigSource.Layered.assign`: one write;
* `ConfigSource.Layered.lookup`: the value that counts for a key.
-/

namespace ConfigSource

/-- Where the keys are looked up that a table does not hold. -/
inductive Fallback where
  /-- In another table. -/
  | table (members : Table Value)
  /-- In an error. -/
  | error
  /-- Nowhere, for good. -/
  | nowhere
deriving Inhabited

namespace Fallback

/-- The fallback that nobody has replaced. -/
def initial : Fallback := .table []

/-- What a fallback holds under a key that settings are looked up by. -/
def get? : Fallback → String → Option Value
  | table members, key => members.get? key
  | error, _ => none
  | nowhere, _ => none

/-- The fallback after writing a value under the key that replaces it. -/
def replacedBy (current : Fallback) (v : Value) : Fallback :=
  if v.isError then .error
  else
    match v with
    | .record members => .table members
    | .list _ => .table []
    | .null => .nowhere
    | _ => current

end Fallback

/-- A table over a fallback. -/
structure Layered where
  /-- What the table holds itself. -/
  values : Table Value
  /-- Where other keys are looked up. -/
  fallback : Fallback

namespace Layered

/-- The key that replaces the fallback. -/
def fallbackKey : String := BuiltinName.fallback.name

/-- The key that an error keeps to itself. -/
def stackKey : String := "stack"

/-- A table without members. -/
def empty : Layered := ⟨[], .initial⟩

/-- Whether the table holds a key itself. -/
def holds (t : Layered) (key : String) : Bool := (t.values.get? key).isSome

/-- Whether writing a key replaces the fallback. -/
def replacesFallback (t : Layered) (key : String) : Bool :=
  key == fallbackKey && !t.holds key &&
    match t.fallback with
    | .table members => (members.get? key).isNone
    | .error => true
    | .nowhere => false

/-- Whether the error below the table takes what is written under a key. -/
def isTakenByError (t : Layered) (key : String) : Bool :=
  key == stackKey && !t.holds key &&
    match t.fallback with
    | .table _ => false
    | .error => true
    | .nowhere => false

/-- Writes one member. -/
def assign (t : Layered) (key : String) (value : Value) : Layered :=
  if t.replacesFallback key then { t with fallback := t.fallback.replacedBy value }
  else if t.isTakenByError key then t
  else { t with values := t.values.set key value }

/-- Writes members, one after the other. -/
def assignAll (t : Layered) (members : List (String × Value)) : Layered :=
  members.foldl (fun t m => t.assign m.1 m.2) t

/-- The value that counts for `key`. -/
def lookup (t : Layered) (key : String) : Value :=
  match t.values.get? key with
  | some v => v
  | none => Value.ofOption (t.fallback.get? key)

end Layered

end ConfigSource
