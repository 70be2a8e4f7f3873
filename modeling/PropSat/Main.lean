import PropSat.CommandLine.Run

/-!
# The program

The host that is the machine itself: standard output and standard error, the
file system and the clock.
-/

namespace PropSat.CommandLine

/-- The quotient of two numbers rounded to the nearest one, with `places`
digits after the point. -/
def decimal (numerator denominator places : Nat) : String :=
  let scale := Nat.pow 10 places
  let value := (2 * numerator * scale + denominator) / (2 * denominator)
  let digits := toString (value % scale)
  let zeros := String.ofList (List.replicate (places - digits.length) '0')
  if places = 0 then toString value
  else s!"{value / scale}.{zeros}{digits}"

def nanoseconds : Clock Nat where
  zero := 0
  add first second := first + second
  seconds time := decimal time 1000000000 3
  rate count time :=
    if time = 0 then "0" else decimal (count * 1000000000) time 0

/-- The error that the system reports for a file.  Some of its calls negate
the number of the error. -/
def FileError.ofSystem : IO.Error → FileError
  | .noFileOrDirectory .. => .notFound
  | .inappropriateType _ 21 _ => .isADirectory
  | .inappropriateType .. => .notADirectory
  | .permissionDenied .. => .system "Permission denied" 13
  | .invalidArgument _ code _ =>
      if code = 36 || code + 36 = 0 then .nameTooLong
      else .system "Invalid argument" 22
  | error => .system (toString error) 5

def readTextFile (path : String) : IO (Except FileError String) := do
  try
    let bytes ← IO.FS.readBinFile path
    match String.fromUTF8? bytes with
    | some text => return .ok text
    | none => return .error .invalidText
  catch error => return .error (.ofSystem error)

def isDirectoryPath (path : String) : IO Bool :=
  (IO.FS.DirEntry.mk path "").root.isDir

def isFilePath (path : String) : IO Bool := do
  try
    let found ← (IO.FS.DirEntry.mk path "").root.metadata
    return found.type == .file
  catch _ => return false

/-- Everything in a directory, itself first and entries by name.  A link to a
directory is followed only at the start of the walk. -/
partial def walkPath (path : String) (isStart : Bool) :
    IO (List WalkEntry) := do
  let place := (IO.FS.DirEntry.mk path "").root
  let found ← if isStart then place.metadata else place.symlinkMetadata
  let entry : WalkEntry := ⟨path, ← isFilePath path⟩
  if found.type != .dir then return [entry]
  let names := (← place.readDir).toList.map (·.fileName)
  let sorted := names.mergeSort fun first second => decide (first ≤ second)
  let below ← sorted.mapM fun name => do
    try walkPath (WalkEntry.join path name) false
    catch _ => return []
  return entry :: below.flatten

def memoryFigures : IO (Option (String × String)) := do
  try
    let text ← IO.FS.readFile "/proc/self/statm"
    let pages := (text.trimAscii.toString.splitOn " ").map
      fun word => (Text.number? word.toList).getD 0
    match pages with
    | _ :: resident :: shared :: _ =>
        return some (decimal ((resident - shared) * 4096) 1048576 2,
          decimal (resident * 4096) 1048576 2)
    | _ => return none
  catch _ => return none

def withTime {α : Type} (action : IO α) : IO (α × Nat) := do
  let before ← IO.monoNanosNow
  let value ← action
  let after ← IO.monoNanosNow
  return (value, after - before)

def machine : Host IO Nat where
  print text := IO.print text
  complain text := IO.eprint text
  timed value := withTime do
    let result ← IO.lazyPure value
    return result
  clock := nanoseconds
  memory := memoryFigures
  readFile path := withTime (readTextFile path)
  isDirectory path := isDirectoryPath path
  walk path := walkPath path true

end PropSat.CommandLine

def main (arguments : List String) : IO UInt32 := do
  let environment ← IO.getEnv "RUST_LOG"
  PropSat.CommandLine.run PropSat.CommandLine.machine environment arguments
