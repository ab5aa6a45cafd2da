import ConfigSource.Value

/-!
# Raising errors

How the errors of the library are made, and the text that stands at the head of an error's stack.
The frames below the head are left out: they say where in a program the error was made, and nothing
depends on more of them than that there are some. So every error has a stack that is not empty, and
it is not asked whether it has one.

* `ConfigSource.Value.invalidArgument`: a caller broke a precondition;
* `ConfigSource.Value.simpleError`: an error with a message and nothing else;
* `ConfigSource.SystemError`: what a file system reports;
* `ConfigSource.Thrown`, `ConfigSource.Thrown.isShown`: what can leave a computation in place of its
  result, and whether it can be shown;
* `ConfigSource.Value.textOf`: the text of a value, where one is needed;
* `ConfigSource.Value.stackHeader`: class and message of an error.
-/

namespace ConfigSource

/-- What a file system reports, a missing entry apart. -/
inductive SystemError where
  /-- A component or the whole of a path is too long. -/
  | nameTooLong
  /-- Following links does not come to an end. -/
  | tooManyLinks
  /-- The path holds the character zero. -/
  | zeroInPath
  /-- There is something at the place already. -/
  | exists
  /-- A directory stands where a file is to be written. -/
  | isDirectory
  /-- A file stands where a directory is needed. -/
  | notDirectory
  /-- There is nothing at the place. -/
  | missing
deriving DecidableEq

/-- The code of a file system error. -/
def SystemError.code : SystemError → String
  | .nameTooLong => "ENAMETOOLONG"
  | .tooManyLinks => "ELOOP"
  | .zeroInPath => "ERR_INVALID_ARG_VALUE"
  | .exists => "EEXIST"
  | .isDirectory => "EISDIR"
  | .notDirectory => "ENOTDIR"
  | .missing => "ENOENT"

/-- What leaves a computation in place of its result. -/
inductive Thrown where
  /-- A value, in general an error. -/
  | value (v : Value)
  /-- A report of the file system. -/
  | system (e : SystemError)
deriving Inhabited

namespace Value

/-- An error with a message, of a general class and without a cause. -/
def simpleError (name message : String) : Value := .plainError name message .undefined

/-- The code of a broken precondition. -/
def invalidArgumentCode : String := "invalid_argument"

/-- An error of class `ConfigError`. -/
def configErrorAt (now : Int) (code message : String) (context : Table Value) : Value :=
  .configError ⟨"ConfigError", code, message, true, now⟩ context .undefined

/-- A caller broke a precondition: an error that a correct program does not meet. -/
def invalidArgument (now : Int) (message : String) (context : Table Value) : Value :=
  .configError ⟨"InvalidArgumentError", invalidArgumentCode, message, false, now⟩ context .undefined

/-- An instant has no text. -/
def invalidTime : Value := simpleError "RangeError" "Invalid time value"

/-- A value has no text, where a text is needed. -/
def withoutText : Value := simpleError "TypeError" "Cannot convert object to primitive value"

/-- There is no table, where one is asked. -/
def withoutTable : Value := simpleError "TypeError" "Cannot convert undefined or null to object"

/-- The text of a value, refused if it has none. -/
def textOf (v : Value) : Except Value String :=
  match v.display with
  | some s => .ok s
  | none => .error withoutText

/-- A computation calls itself without end. -/
def endlessRecursion : Value := simpleError "RangeError" "Maximum call stack size exceeded"

/-- What separates the head of a stack from its frames. -/
def frameMark : List Char := "\n    at ".toList

/-- The part of a text before the first frame of a stack. -/
def beforeFrames : List Char → List Char
  | [] => []
  | c :: rest => if frameMark.isPrefixOf (c :: rest) then [] else c :: beforeFrames rest

/-- The head of a stack. -/
def stackHead (stack : String) : String := String.ofList (beforeFrames stack.toList)

/-- The head of the stack of an error with this class and message. -/
def stackHeader (name message : String) : String := stackHead (headline name message)

end Value

/-- Whether what is thrown can be shown: every error can, and any other value that has a text. -/
def Thrown.isShown : Thrown → Bool
  | .value v => v.isError || v.display.isSome
  | .system _ => true

end ConfigSource
