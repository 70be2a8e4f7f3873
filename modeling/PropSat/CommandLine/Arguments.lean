import PropSat.CommandLine.Options

/-!
# Reading options

How the words after a command are read, for any set of options that fill in a
record of settings.

Words are read from left to right.  An option is written `--name` or `-n`; its
value follows as the next word, after an equals sign, or right after the short
name, and short names of flags can share a dash.  A value that is its own word
cannot start with a dash, unless it is a dash alone.  After `--` every word is
a plain one.

A value attached to its option is read at once.  One in a word of its own is
read only when the next option turns up or the words are over, so that a word
that is wrong by itself is found out first.
-/

namespace PropSat.CommandLine

inductive OptionAction (σ : Type) where
  | flag (set : σ → σ)
  | value (set : String → σ → Except Refusal σ)
  /-- It asks for something else to be shown. -/
  | request (refusal : Refusal)

/-- An option and how it is written.  Two options of a command differ in their
identifiers. -/
structure OptionSpec (σ : Type) where
  id : String
  long : Option String
  short : Option Char
  action : OptionAction σ

structure OptionSet (σ : Type) where
  options : List (OptionSpec σ)
  positional : Option (OptionSpec σ)

/-- An option whose value is not read yet, and the value, if it is there. -/
structure PendingOption (σ : Type) where
  spec : OptionSpec σ
  value : Option String

structure Progress (σ : Type) where
  settings : σ
  given : List String
  pending : Option (PendingOption σ)
  positionalSeen : Bool

namespace Progress

variable {σ : Type}

def start (settings : σ) : Progress σ := ⟨settings, [], none, false⟩

/-- Takes in an option with its value.  That it lacks a value is found before
that it is given twice, and that before a value that is refused. -/
def accept (progress : Progress σ) (spec : OptionSpec σ)
    (value : Option String) : Except Refusal (Progress σ) :=
  match spec.action with
  | .request refusal => .error refusal
  | .flag set =>
      if progress.given.contains spec.id then .error .argumentConflict
      else
        .ok { progress with
          settings := set progress.settings
          given := spec.id :: progress.given }
  | .value set =>
      match value with
      | none => .error .invalidValue
      | some text =>
          if progress.given.contains spec.id then .error .argumentConflict
          else
            match set text progress.settings with
            | .error refusal => .error refusal
            | .ok settings =>
                .ok { progress with
                  settings := settings
                  given := spec.id :: progress.given }

def settle (progress : Progress σ) : Except Refusal (Progress σ) :=
  match progress.pending with
  | none => .ok progress
  | some pending =>
      { progress with pending := none }.accept pending.spec pending.value

def settleAndAccept (progress : Progress σ) (spec : OptionSpec σ)
    (value : Option String) : Except Refusal (Progress σ) :=
  match progress.settle with
  | .error refusal => .error refusal
  | .ok settled => settled.accept spec value

def settleAndWait (progress : Progress σ) (pending : PendingOption σ) :
    Except Refusal (Progress σ) :=
  match progress.settle with
  | .error refusal => .error refusal
  | .ok settled => .ok { settled with pending := some pending }

def supply? (progress : Progress σ) (text : String) : Option (Progress σ) :=
  match progress.pending with
  | some ⟨spec, none⟩ => some { progress with pending := some ⟨spec, text⟩ }
  | _ => none

end Progress

def splitAtEquals (word : List Char) : List Char × Option (List Char) :=
  match word.dropWhile (· != '=') with
  | [] => (word, none)
  | _ :: value => (word.takeWhile (· != '='), some value)

inductive Word where
  | escape
  | long (name : String) (value : Option String)
  | short (cluster : List Char)
  | plain (text : String)
  deriving DecidableEq

def Word.ofString (text : String) : Word :=
  match text.toList with
  | ['-', '-'] => .escape
  | '-' :: '-' :: rest =>
      let parts := splitAtEquals rest
      .long (String.ofList parts.1) (parts.2.map String.ofList)
  | '-' :: first :: rest => .short (first :: rest)
  | _ => .plain text

namespace OptionSet

variable {σ : Type}

/-- Reads an option by its long name.  A value for an option that takes none
is refused before anything pending is read. -/
def readLong (set : OptionSet σ) (progress : Progress σ) (name : String)
    (value : Option String) : Except Refusal (Progress σ) :=
  match set.options.find? (·.long == some name) with
  | none => .error .unknownArgument
  | some spec =>
      match spec.action, value with
      | .value _, some text => progress.settleAndAccept spec (some text)
      | .value _, none => progress.settleAndWait ⟨spec, none⟩
      | _, some _ => .error .tooManyValues
      | _, none => progress.settleAndAccept spec none

def attachedValue : List Char → List Char
  | '=' :: rest => rest
  | rest => rest

/-- Reads a cluster of short names.  What follows the name of an option with a
value is that value. -/
def readShort (set : OptionSet σ) (progress : Progress σ) :
    List Char → Except Refusal (Progress σ)
  | [] => .ok progress
  | name :: rest =>
      match set.options.find? (·.short == some name) with
      | none => .error .unknownArgument
      | some spec =>
          match spec.action with
          | .value _ =>
              if rest.isEmpty then progress.settleAndWait ⟨spec, none⟩
              else
                progress.settleAndAccept spec
                  (some (String.ofList (attachedValue rest)))
          | _ =>
              match progress.settleAndAccept spec none with
              | .error refusal => .error refusal
              | .ok next => readShort set next rest

def readPlain (set : OptionSet σ) (progress : Progress σ) (text : String) :
    Except Refusal (Progress σ) :=
  match set.positional with
  | none => .error .unknownArgument
  | some spec =>
      if progress.positionalSeen then .error .unknownArgument
      else
        match progress.settleAndWait ⟨spec, some text⟩ with
        | .error refusal => .error refusal
        | .ok next => .ok { next with positionalSeen := true }

def readWord (set : OptionSet σ) (progress : Progress σ) (word : Word) :
    Except Refusal (Progress σ) :=
  match word with
  | .escape => .ok progress
  | .long name value => set.readLong progress name value
  | .short cluster => set.readShort progress cluster
  | .plain text =>
      match progress.supply? text with
      | some next => .ok next
      | none => set.readPlain progress text

/-- Reads the words after two dashes, each of which is a plain one. -/
def readEscaped (set : OptionSet σ) :
    Progress σ → List String → Except Refusal (Progress σ)
  | progress, [] => progress.settle
  | progress, text :: rest =>
      match set.readPlain progress text with
      | .error refusal => .error refusal
      | .ok next => readEscaped set next rest

def readWords (set : OptionSet σ) :
    Progress σ → List String → Except Refusal (Progress σ)
  | progress, [] => progress.settle
  | progress, text :: rest =>
      let word := Word.ofString text
      if word = .escape then readEscaped set progress rest
      else
        match set.readWord progress word with
        | .error refusal => .error refusal
        | .ok next => readWords set next rest

def read (set : OptionSet σ) (settings : σ) (words : List String) :
    Except Refusal σ :=
  match set.readWords (.start settings) words with
  | .error refusal => .error refusal
  | .ok progress => .ok progress.settings

end OptionSet

end PropSat.CommandLine
