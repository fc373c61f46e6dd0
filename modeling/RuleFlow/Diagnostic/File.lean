import RuleFlow.Diagnostic.Basic

/-!
# Files that cannot be used

What is wrong with a file decides what becomes of it: where nothing is found, another file may
be tried. The account in words is the operating system's.
-/

namespace RuleFlow

/-- What is wrong with a file. -/
inductive FileFault where
  /-- There is no such file. -/
  | missing
  /-- Its path cannot lead to a file. -/
  | unreachable
  /-- It is there, but cannot be used. -/
  | unusable
  deriving DecidableEq, Inhabited

/-- Why a file cannot be read or written. -/
structure FileError where
  /-- What is wrong with it. -/
  fault : FileFault
  /-- The account of the operating system. -/
  message : String
  deriving DecidableEq, Inhabited

namespace FileError

/-- There is no such file. -/
def notFound : FileError := ⟨.missing, "No such file or directory (os error 2)"⟩

/-- A file stands where the path needs a directory. -/
def notADirectory : FileError := ⟨.unreachable, "Not a directory (os error 20)"⟩

/-- A name in the path, or the whole path, is too long. -/
def nameTooLong : FileError := ⟨.unreachable, "File name too long (os error 36)"⟩

/-- A directory stands where a file is needed. -/
def isADirectory : FileError := ⟨.unusable, "Is a directory (os error 21)"⟩

/-- The device that holds the file is full. -/
def noSpace : FileError := ⟨.unusable, "No space left on device (os error 28)"⟩

/-- The file holds no text. -/
def notText : FileError := ⟨.unusable, "stream did not contain valid UTF-8"⟩

/-- Whether nothing is found at the path. -/
def isAbsent (e : FileError) : Bool := e.fault ≠ .unusable

/-- The diagnostic of the failure. Only a missing file is the fault of the caller. -/
def diagnostic (e : FileError) : Diagnostic :=
  ⟨if e.fault = .missing then .configNotFound else .internalError, e.message, none, none⟩

end FileError
end RuleFlow
