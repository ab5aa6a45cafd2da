/-!
# Built-in names

Every table answers to twelve names of its own accord, whatever it holds: they stand for what can be
done with any table. So a **built-in name** is found where a name is looked up in a table of levels,
of serializers or of members, although nobody put it there.

* `ConfigSource.BuiltinName`, `ConfigSource.BuiltinName.name`, `ConfigSource.BuiltinName.all`;
* `ConfigSource.BuiltinName.ofName?`: the built-in name that is spelled so;
* `ConfigSource.BuiltinName.text`: the text of what is found under it.
-/

namespace ConfigSource

/-- What every table answers to. -/
inductive BuiltinName where
  /-- What made the table. -/
  | maker
  /-- The table in which names are looked up that this one does not hold. -/
  | fallback
  /-- Whether another table falls back to this one. -/
  | isFallbackOf
  /-- Whether the table holds a key. -/
  | holdsKey
  /-- Whether the table shows a key. -/
  | showsKey
  /-- The text of the table. -/
  | asText
  /-- The text of the table in the words of a place. -/
  | asLocalText
  /-- The table as a plain value. -/
  | asValue
  /-- Sets what is done to read a key. -/
  | defineGetter
  /-- Sets what is done to write a key. -/
  | defineSetter
  /-- What is done to read a key. -/
  | lookupGetter
  /-- What is done to write a key. -/
  | lookupSetter
deriving DecidableEq

namespace BuiltinName

/-- How the name is spelled. -/
def name : BuiltinName → String
  | maker => "constructor"
  | fallback => "__proto__"
  | isFallbackOf => "isPrototypeOf"
  | holdsKey => "hasOwnProperty"
  | showsKey => "propertyIsEnumerable"
  | asText => "toString"
  | asLocalText => "toLocaleString"
  | asValue => "valueOf"
  | defineGetter => "__defineGetter__"
  | defineSetter => "__defineSetter__"
  | lookupGetter => "__lookupGetter__"
  | lookupSetter => "__lookupSetter__"

/-- All built-in names. -/
def all : List BuiltinName :=
  [maker, fallback, isFallbackOf, holdsKey, showsKey, asText, asLocalText, asValue, defineGetter,
    defineSetter, lookupGetter, lookupSetter]

/-- The built-in name that is spelled so. -/
def ofName? (name : String) : Option BuiltinName := all.find? fun b => b.name == name

/-- The text of what does the work of this name, an action that is built in. -/
def actionText (name : String) : String := "function " ++ name ++ "() \x7b [native code] \x7d"

/-- The text of what is found under a built-in name: a table has the text that tables have, and
everything else is an action, of which one goes by a name of its own. -/
def text : BuiltinName → String
  | fallback => "[object Object]"
  | maker => actionText "Object"
  | b => actionText b.name

@[simp]
theorem ofName?_name (b : BuiltinName) : ofName? b.name = some b := by
  cases b <;> decide

end BuiltinName

end ConfigSource
