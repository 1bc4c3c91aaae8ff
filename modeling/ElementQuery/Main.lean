/-
This file connects a run to the terminal.
-/

import ElementQuery.CommandLine.Run

namespace ElementQuery.CommandLine

/-- The reason why a file cannot be read, with its number on the system. -/
def reason : IO.Error → String
  | .noFileOrDirectory _ _ _ => "No such file or directory (os error 2)"
  | .permissionDenied _ _ _ => "Permission denied (os error 13)"
  | .inappropriateType _ _ _ => "Is a directory (os error 21)"
  | error => toString error

/-- The content of a file, or the reason why it cannot be read. -/
def readContent (file : Option String) : IO (Except String String) :=
  match file with
  | none => pure (.error "no file is needed")
  | some path => do
      match ← (IO.FS.readBinFile path).toBaseIO with
      | .error error => return .error (reason error)
      | .ok bytes =>
          match String.fromUTF8? bytes with
          | some content => return .ok content
          | none => return .error "stream did not contain valid UTF-8"

def usage : String :=
  "usage: [--html HTML] [--backend BACKEND] [--scope ID] [--first] [--explain] [--json] " ++
    "[--quiet] SELECTORS [FILE]"

/-- Arguments that cannot be read end a run at once. -/
def mainWith (arguments : List String) : IO UInt32 :=
  match readOptions? arguments with
  | none => do
      IO.eprintln usage
      return 2
  | some options => do
      let content ← readContent (neededFile? options)
      let output := run options content
      IO.print output.standard
      IO.eprint output.errors
      return output.code.toUInt32

end ElementQuery.CommandLine

def main (arguments : List String) : IO UInt32 :=
  ElementQuery.CommandLine.mainWith arguments
