import RuleFlow.CommandLine.Run

/-!
# The program

The host is the machine itself.
-/

namespace RuleFlow

/-- The number of an error, which may be given as its negation. -/
def errorNumber (code : UInt32) : Nat :=
  if code.toNat < 2147483648 then code.toNat else 4294967296 - code.toNat

/-- Why the machine cannot use a file. -/
def fileErrorOf : IO.Error → FileError
  | .noFileOrDirectory .. => .notFound
  | .inappropriateType _ code _ =>
    if errorNumber code = 20 then .notADirectory else .isADirectory
  | .invalidArgument _ code details =>
    if errorNumber code = 36 then .nameTooLong else ⟨.unusable, details⟩
  | .permissionDenied _ code _ =>
    ⟨.unusable, "Permission denied (os error " ++ toString (errorNumber code) ++ ")"⟩
  | .resourceExhausted _ code details =>
    if errorNumber code = 28 then .noSpace else ⟨.unusable, details⟩
  | .userError _ => .notText
  | e => ⟨.unusable, toString e⟩

/-- What an action on files gives, or why it fails. -/
def attempt {α : Type} (act : IO α) : IO (Except FileError α) := do
  match ← act.toBaseIO with
  | .ok a => return .ok a
  | .error e => return .error (fileErrorOf e)

/-- All that is left of the standard input. -/
partial def readAll (stream : IO.FS.Stream) (done : String) : IO String := do
  let line ← stream.getLine
  if line.isEmpty then return done else readAll stream (done ++ line)

/-- The machine as a host. -/
def machine : Host IO where
  load path := attempt (IO.FS.readFile path)
  store path text := attempt (IO.FS.writeFile path text)
  input := attempt do readAll (← IO.getStdin) ""
  environment name := IO.getEnv name

end RuleFlow

/-- Runs the program and leaves with its exit status. -/
def main (arguments : List String) : IO UInt32 := do
  let outcome ← RuleFlow.CommandLine.run RuleFlow.machine arguments
  IO.print outcome.output
  IO.eprint outcome.errors
  return UInt32.ofNat outcome.status
