import PropSat.CommandLine.FileSystem
import PropSat.CommandLine.Log

/-!
# What a command needs from outside

The commands print, log, read files and measure time only through a host, so
that what they do is the same for every host.  `Host.ofFiles` is one without a
world around it: its file system is a value, it keeps what is written, and it
gives every measured figure the same text.
-/

namespace PropSat.CommandLine

structure Clock (τ : Type) where
  zero : τ
  add : τ → τ → τ
  seconds : τ → String
  rate : Nat → τ → String

/-- The surroundings of a command, which acts in `m` and measures times in
`τ`. -/
structure Host (m : Type → Type) (τ : Type) where
  print : String → m Unit
  complain : String → m Unit
  timed : {α : Type} → (Unit → α) → m (α × τ)
  clock : Clock τ
  /-- Mebibytes in use and resident, where they are known. -/
  memory : m (Option (String × String))
  readFile : String → m (Except FileError String × τ)
  isDirectory : String → m Bool
  /-- Everything in a directory, itself first and entries by name. -/
  walk : String → m (List WalkEntry)

structure Transcript where
  output : String
  errors : String
  deriving DecidableEq

/-- A host with the files of a file system.  `figure` stands for every time,
rate and amount of memory. -/
def Host.ofFiles (files : FileSystem) (figure : String) :
    Host (StateM Transcript) Unit where
  print text := modify fun transcript =>
    { transcript with output := transcript.output ++ text }
  complain text := modify fun transcript =>
    { transcript with errors := transcript.errors ++ text }
  timed value := pure (value (), ())
  clock :=
    { zero := ()
      add := fun _ _ => ()
      seconds := fun _ => figure
      rate := fun _ _ => figure }
  memory := pure (some (figure, figure))
  readFile path := pure (files.readText path, ())
  isDirectory path := pure (files.isDirectory path)
  walk path := pure (files.walk path)

end PropSat.CommandLine
