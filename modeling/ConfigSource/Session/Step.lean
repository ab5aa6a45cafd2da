import ConfigSource.FileTree.Write
import ConfigSource.Settings.Load

/-!
# Steps of a session

A **session** is a script. Its steps make options, includers, include contexts and load contexts,
give them names, and ask questions about them. Steps can be run inside the **scope** of a load
context, and they can be put aside as a **task** that is resumed later.

* `ConfigSource.Session.Step`: the steps;
* `ConfigSource.Session.Step.size`: how many steps a step holds, itself included.
-/

namespace ConfigSource

namespace Session

/-- In which load context a resource is looked for. -/
inductive Located where
  /-- In that of options. -/
  | inOptions (name : String)
  /-- In one that is named. -/
  | inContext (name : String)
  /-- In the ambient one. -/
  | inAmbient

/-- A step of a session. Things are given by their names; `as` is the name for what a step makes. -/
inductive Step where
  /-- Make options that say nothing. -/
  | defaults (as : String)
  /-- Update options. -/
  | update (on : String) (change : Update String String) (as : Option String)
  /-- Describe options. -/
  | describe (on : String)
  /-- Load settings over a base. If a level is given, show what is written to a logger of that
  level. -/
  | load (sources : List Source) (base level : Option String) (as : Option String)
  /-- Make a single includer. -/
  | includer (leaf : Leaf) (as : String)
  /-- Make a chain of two includers. -/
  | chain (primary secondary : String) (as : String)
  /-- Take the includer of options. -/
  | takeIncluder (on : String) (as : Option String)
  /-- Make an include context. -/
  | includeContext (options : String) (location : Option String) (as : String)
  /-- A name, seen from the source of an include context. -/
  | relative (on name : String)
  /-- Take the options for what a source includes. -/
  | includedOptions (on : String) (as : Option String)
  /-- Ask an includer. -/
  | ask (on context what : String)
  /-- Ask the includer of options. -/
  | resolve (options context what : String)
  /-- Make a load context over a table. -/
  | memoryContext (name : String) (locations : Table String) (as : String)
  /-- Make a load context over directories. -/
  | rootsContext (name : String) (directories : List String) (start : Option String) (as : String)
  /-- Take the load context of options. -/
  | contextOf (on : String) (as : Option String)
  /-- Take the ambient load context. -/
  | ambientContext (as : Option String)
  /-- Look for a resource. -/
  | locate (place : Located) (resource : String)
  /-- Write to the file tree. -/
  | write (files : List FileTree.Writing)
  /-- Remove from the file tree. -/
  | remove (path : String)
  /-- Fail. -/
  | fail (error : Value)
  /-- Run steps in the scope of a load context; if `stops`, the first failure leaves the scope. -/
  | scope (context : String) (steps : List Step) (stops : Bool)
  /-- Put steps aside as a task. -/
  | spawn (as : String) (steps : List Step)
  /-- Run the next steps of a task, all that are left if no number is given. -/
  | resume (task : String) (count : Option Nat)
deriving Inhabited

namespace Step

mutual

/-- How many steps a step holds, itself included. -/
def size : Step → Nat
  | .scope _ steps _ => totalSize steps + 1
  | .spawn _ steps => totalSize steps + 1
  | _ => 1

/-- How many steps a list of steps holds. -/
def totalSize : List Step → Nat
  | [] => 0
  | s :: rest => s.size + totalSize rest

end

end Step

end Session

end ConfigSource
