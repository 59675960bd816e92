import RubyOutline.Text.Quoted

namespace RubyOutline

inductive FileFault where
  | notFound
  | exists
  | notDirectory
  | isDirectory
  | nameTooLong
  | nullCharacter
  | tooManyLevels
  deriving DecidableEq, Repr

/-- The number of a fault. A path with a null character in it, or with too many levels to make, is
refused before anything is asked of the file system, so these faults have none. -/
def FileFault.code? : FileFault → Option Nat
  | .notFound => some 2
  | .exists => some 17
  | .notDirectory => some 20
  | .isDirectory => some 21
  | .nameTooLong => some 36
  | .nullCharacter | .tooManyLevels => none

def FileFault.text : FileFault → String
  | .notFound => "No such file or directory"
  | .exists => "File exists"
  | .notDirectory => "Not a directory"
  | .isDirectory => "Is a directory"
  | .nameTooLong => "File name too long"
  | .nullCharacter => "embedded null byte"
  | .tooManyLevels => "maximum recursion depth exceeded"

structure FileError where
  fault : FileFault
  path : String
  deriving DecidableEq, Repr

def FileError.message (e : FileError) : String :=
  match e.fault.code? with
  | some code => "[Errno " ++ toString code ++ "] " ++ e.fault.text ++ ": " ++ quoted e.path
  | none => e.fault.text

end RubyOutline
