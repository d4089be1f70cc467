import UniversalMachine.Digits

/-!
Log records: a level, a message and named fields, and the filters that select them by level.
-/

namespace UniversalMachine

inductive Level where
  | trace
  | debug
  | info
  | warn
  | error
  deriving DecidableEq, Repr

namespace Level

def rank : Level → Nat
  | trace => 0
  | debug => 1
  | info => 2
  | warn => 3
  | error => 4

def name : Level → String
  | trace => "TRACE"
  | debug => "DEBUG"
  | info => "INFO"
  | warn => "WARN"
  | error => "ERROR"

end Level

/-- The least urgent level that is kept; `none` keeps nothing. -/
abbrev LogFilter := Option Level

def LogFilter.admits (filter : LogFilter) (level : Level) : Bool :=
  match filter with
  | none => false
  | some least => least.rank ≤ level.rank

structure LogRecord where
  level : Level
  message : String
  fields : List (String × String)
  deriving DecidableEq, Repr

namespace LogRecord

/-- The control characters among ASCII that a terminal obeys: bell, backspace, form feed, escape and
delete. Those that only lay out text are not among them. -/
def terminalControls : List Nat := [0x07, 0x08, 0x0C, 0x1B, 0x7F]

def spelled (c : Char) : List Char :=
  let code := c.toNat
  if terminalControls.contains code then ("\\x" ++ Digits.hexLowerPadded 2 code).toList
  else if 0x80 ≤ code && code ≤ 0x9F then ("\\u\x7b" ++ Digits.hexLower code ++ "\x7d").toList
  else [c]

/-- The level, the message and the fields one after the other. The values of fields are shown as
they are. -/
def text (r : LogRecord) : String :=
  let message := String.ofList (r.message.toList.flatMap spelled)
  " ".intercalate (r.level.name :: message :: r.fields.map fun field => field.1 ++ "=" ++ field.2)

end LogRecord

end UniversalMachine
