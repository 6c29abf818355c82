import SourceStyle.Path
import SourceStyle.Token.Fault

/-!
Failures of a run: their causes, their wording and their exit codes.
-/

namespace SourceStyle

/-- Why the system refused an operation on a path or stream. -/
inductive SystemFault where
  | notFound
  | busy
  | alreadyExists
  | notDirectory
  | isDirectory
  | invalidText
  | described (text : String)
deriving DecidableEq, Repr

def SystemFault.message : SystemFault → String
  | notFound => "No such file or directory (os error 2)"
  | busy => "Device or resource busy (os error 16)"
  | alreadyExists => "File exists (os error 17)"
  | notDirectory => "Not a directory (os error 20)"
  | isDirectory => "Is a directory (os error 21)"
  | invalidText => "stream did not contain valid UTF-8"
  | described text => text

/-- The classes of failure, by what the caller can do about them. -/
inductive FailureKind where
  | usage
  | parse
  | io
deriving DecidableEq, Repr

def FailureKind.exitCode : FailureKind → Nat
  | usage => 64
  | parse => 65
  | io => 74

inductive Failure where
  | missingValue (key : String)
  | unsupportedValue (key value : String)
  | outputWithMultipleInputs
  | invalidArguments (message : String)
  | noCacheDirectory
  | cacheDirectory (path : String) (cause : SystemFault)
  | cacheDelete (path : String) (cause : SystemFault)
  | cacheFormat (action path cause : String)
  | io (description path : String) (cause : SystemFault)
  | write (path : String) (cause : SystemFault)
  | parseInput (error : SyntaxError)
  | parseFile (path : String) (error : SyntaxError)
  | inputTimeout
  | standardStream (cause : SystemFault)
  | custom (message : String)
deriving DecidableEq, Repr

namespace Failure

def message : Failure → String
  | missingValue key => "--" ++ key ++ " option expects a value."
  | unsupportedValue key value => "unsupported --" ++ key ++ " value: " ++ value ++ "."
  | outputWithMultipleInputs => "--output argument is only valid for a single input file"
  | invalidArguments text => text
  | noCacheDirectory => "failed to find the user cache directory"
  | cacheDirectory path cause =>
    "failed to create cache directory at: " ++ Path.display path ++ ", " ++ cause.message
  | cacheDelete path cause =>
    "failed to delete cache file at: " ++ Path.display path ++ ", " ++ cause.message
  | cacheFormat action path cause =>
    "Error " ++ action ++ " cache file at \x60" ++ Path.display path ++ "\x60: " ++ cause
  | io description path cause =>
    "IO error with " ++ description ++ " at path \x60" ++ Path.display path ++ "\x60: " ++
      cause.message
  | write path cause => "failed to write file: " ++ Path.display path ++ ", " ++ cause.message
  | parseInput error => "could not parse input: " ++ error.message
  | parseFile path error => "could not parse " ++ Path.display path ++ ": " ++ error.message
  | inputTimeout => "timed out waiting for standard input to be formatted"
  | standardStream cause => "STDIO error: " ++ cause.message
  | custom text => text

def kind : Failure → FailureKind
  | missingValue _ | unsupportedValue _ _ | outputWithMultipleInputs | invalidArguments _ => .usage
  | parseInput _ | parseFile _ _ => .parse
  | noCacheDirectory | cacheDirectory _ _ | cacheDelete _ _ | cacheFormat _ _ _ | io _ _ _
  | write _ _ | inputTimeout | standardStream _ | custom _ => .io

def exitCode (failure : Failure) : Nat :=
  failure.kind.exitCode

/-- The line that reports a failure; a styled report colours its first word. -/
def report (failure : Failure) (styled : Bool) : String :=
  (if styled then "\x1b[38;5;9merror:\x1b[39m" else "error:") ++ " " ++ failure.message ++ "\n"

end Failure
end SourceStyle
