/-!
# What the disk refuses

The causes for which an operation on files fails, each with the text that the operating system
gives it.
-/

namespace GlyphTrim

/-- Why an operation on files failed. -/
inductive DiskFault
  | notFound
  | permissionDenied
  | alreadyExists
  | notFolder
  | isFolder
  | nameTooLong
  | tooManyLinks
  /-- The path holds a null character. -/
  | nulInPath
  /-- The bytes of the file are no text. -/
  | notText
  /-- Another cause, in words. -/
  | other (cause : String)
  deriving Repr, DecidableEq

/-- The cause in words. -/
def DiskFault.message : DiskFault → String
  | notFound => "No such file or directory (os error 2)"
  | permissionDenied => "Permission denied (os error 13)"
  | alreadyExists => "File exists (os error 17)"
  | notFolder => "Not a directory (os error 20)"
  | isFolder => "Is a directory (os error 21)"
  | nameTooLong => "File name too long (os error 36)"
  | tooManyLinks => "Too many levels of symbolic links (os error 40)"
  | nulInPath => "file name contained an unexpected NUL byte"
  | notText => "stream did not contain valid UTF-8"
  | other cause => cause

end GlyphTrim
