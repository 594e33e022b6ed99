import TemplateLint.CommandLine

/-!
# Program

Runs the command line on the files of the machine.
-/

namespace TemplateLint.Main

def systemFault (code : UInt32) (details : String) : ReadFault :=
  .other (details ++ " (os error " ++ toString code ++ ")")

def faultOf : IO.Error → ReadFault
  | .noFileOrDirectory .. => .missing
  | .inappropriateType _ 21 _ => .directory
  | .inappropriateType _ code details => systemFault code details
  | .invalidArgument _ code details => systemFault code details
  | .permissionDenied _ code details => systemFault code details
  | .resourceExhausted _ code details => systemFault code details
  | .otherError code details => systemFault code details
  | e => .other (toString e)

def readFile (path : String) : IO (Except ReadFault String) := do
  try
    match String.fromUTF8? (← IO.FS.readBinFile path) with
    | some text => return .ok text
    | none => return .error .notText
  catch e => return .error (faultOf e)

end TemplateLint.Main

def main (args : List String) : IO UInt32 := do
  let outcome ← TemplateLint.CommandLine.run TemplateLint.Main.readFile args
  (← IO.getStdout).putStr outcome.output
  (← IO.getStderr).putStr outcome.errors
  return outcome.status.toUInt32
