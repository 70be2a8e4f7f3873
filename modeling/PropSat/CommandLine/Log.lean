import PropSat.Event
import PropSat.Text.Blank
import PropSat.Text.Column

/-!
# Logging

What the program tells about its work on the way, and which of it is shown.
Every message belongs to a part of the program, its target.  A filter is a
list of limits, each for the targets that begin with a certain text or for
all; of the limits that concern a target, the one with the longest text holds.
-/

namespace PropSat.CommandLine

def searchTarget : String := "dpll_solver::sat::dpll"

def propagationTarget : String := "dpll_solver::sat::propagation"

def commandTarget : String := "dpll_solver::command_line::cli"

structure LogEntry where
  level : Level
  target : String
  message : String
  deriving DecidableEq

namespace LogEntry

def ofEvent (event : Event) : LogEntry where
  level := event.level
  target := if event.isInference then propagationTarget else searchTarget
  message := event.message

def levelColumn (level : Level) : String :=
  Text.padRight 5 level.name

/-- The line of a message; further lines of it are indented. -/
def render (entry : LogEntry) : String :=
  let lines := entry.message.splitOn "\n"
  s!"[{levelColumn entry.level} {entry.target}] " ++
    "\n    ".intercalate lines ++ "\n"

end LogEntry

structure LogLimit where
  /-- What the targets begin with; `none` is for all of them. -/
  target : Option String
  /-- The least urgent level that is shown; `none` shows nothing. -/
  limit : Option Level
  deriving DecidableEq

namespace LogLimit

def concerns (limit : LogLimit) (target : String) : Bool :=
  match limit.target with
  | none => true
  | some start => start.isPrefixOf target

def length (limit : LogLimit) : Nat :=
  match limit.target with
  | none => 0
  | some start => start.utf8ByteSize

def admits (limit : LogLimit) (level : Level) : Bool :=
  match limit.limit with
  | none => false
  | some least => level.passes least

end LogLimit

/-- Limits by increasing length of their texts. -/
structure LogFilter where
  limits : List LogLimit
  deriving DecidableEq

namespace LogFilter

/-- Adds a limit, in the place of an earlier one for the same targets. -/
def insert (limits : List LogLimit) (limit : LogLimit) : List LogLimit :=
  if limits.any (·.target == limit.target) then
    limits.map fun other =>
      if other.target = limit.target then limit else other
  else limits ++ [limit]

/-- The filter of some limits.  Without any, only errors are shown. -/
def ofLimits (limits : List LogLimit) : LogFilter :=
  if limits.isEmpty then ⟨[⟨none, some .error⟩]⟩
  else
    ⟨(limits.foldl insert []).mergeSort fun first second =>
      decide (first.length ≤ second.length)⟩

/-- The level that a word names, in capitals or not; `some none` is the word
for showing nothing. -/
def level? (word : String) : Option (Option Level) :=
  match String.ofList (word.toList.map Char.toLower) with
  | "off" => some none
  | "error" => some (some .error)
  | "warn" => some (some .warn)
  | "info" => some (some .info)
  | "debug" => some (some .debug)
  | "trace" => some (some .trace)
  | _ => none

def trim (text : String) : String :=
  String.ofList (Text.trimBlanks text.toList)

/-- The limit that one part of a filter text sets: a level for all targets, a
level for some after an equals sign, or the most for the targets that are
named alone.  Otherwise, what is wrong with the part. -/
def readLimit (part : String) : Except String LogLimit :=
  match part.splitOn "=" with
  | [word] =>
      match level? word with
      | some limit => .ok ⟨none, limit⟩
      | none => .ok ⟨some word, some .trace⟩
  | [target, word] =>
      let word := trim word
      if word.isEmpty then .ok ⟨some target, some .trace⟩
      else
        match level? word with
        | some limit => .ok ⟨some target, limit⟩
        | none => .error word
  | _ => .error part

def parts (text : String) : List String :=
  ((text.splitOn ",").map trim).filter (!·.isEmpty)

/-- Reads a filter text.  A part that cannot be read sets no limit. -/
def parse (text : String) : LogFilter :=
  ofLimits ((parts text).filterMap fun part => (readLimit part).toOption)

def warnings (text : String) : List String :=
  (parts text).filterMap fun part =>
    match readLimit part with
    | .ok _ => none
    | .error wrong =>
        some s!"warning: invalid logging spec '{wrong}', ignoring it\n"

def admits (filter : LogFilter) (level : Level) (target : String) : Bool :=
  match filter.limits.reverse.find? (·.concerns target) with
  | some limit => limit.admits level
  | none => false

end LogFilter

end PropSat.CommandLine
