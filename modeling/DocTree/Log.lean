import DocTree.Text.Letter
import DocTree.Text.Quoted

/-!
# Log levels

Levels go from `panic`, the gravest, to `trace`. At a level in force the entries of that level and
of graver ones are kept.
-/

namespace DocTree

/-- The level of a log entry. -/
inductive Level where
  /-- The program cannot go on, and says where it stands. -/
  | panic
  /-- The program ends. -/
  | fatal
  /-- Something failed. -/
  | error
  /-- Something may be wrong. -/
  | warning
  /-- Something was done. -/
  | info
  /-- Details for finding faults. -/
  | debug
  /-- Details of details. -/
  | trace
  deriving DecidableEq, Repr

namespace Level

/-- The number of graver levels. -/
def rank : Level → Nat
  | .panic => 0
  | .fatal => 1
  | .error => 2
  | .warning => 3
  | .info => 4
  | .debug => 5
  | .trace => 6

/-- The name of a level. -/
def name : Level → Bytes
  | .panic => ascii "panic"
  | .fatal => ascii "fatal"
  | .error => ascii "error"
  | .warning => ascii "warning"
  | .info => ascii "info"
  | .debug => ascii "debug"
  | .trace => ascii "trace"

/-- The level with a name, in letters of any case; `warn` is short for `warning`. -/
def parse? (text : Bytes) : Option Level :=
  let text := Letter.lowerText text
  if text == ascii "warn" then some .warning
  else [panic, fatal, error, warning, info, debug, trace].find? (·.name == text)

/-- Is an entry of level `l` kept while this level is in force? -/
def keeps (inForce l : Level) : Bool := l.rank ≤ inForce.rank

end Level

/-- A log entry. -/
structure LogEntry where
  /-- The level. -/
  level : Level
  /-- What is said. -/
  message : Bytes
  deriving DecidableEq, Repr

/-- Can a message stand in a log line without quotes? -/
def LogEntry.isBare (message : Bytes) : Bool :=
  message.all fun b =>
    (octet 'a' ≤ b && b ≤ octet 'z') || (octet 'A' ≤ b && b ≤ octet 'Z') ||
      (octet '0' ≤ b && b ≤ octet '9') || (ascii "-._/@^+").contains b

/-- The line that an entry is printed as. -/
def LogEntry.line (e : LogEntry) : Bytes :=
  ascii "level=" ++ e.level.name ++ ascii " msg=" ++
    (if LogEntry.isBare e.message then e.message else Quoted.text e.message) ++ ascii "\n"

end DocTree
