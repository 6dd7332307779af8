import CharacterRules.CommandLine.Command

/-!
The program: it reads the files that a command asks for, prints the outcome and writes its output.
-/

open CharacterRules CommandLine

/-- The fault of a failed access to a file. -/
def faultOf : IO.Error → FileFault
  | .noFileOrDirectory .. => .notFound
  | .inappropriateType .. => .isDirectory
  | e => .other (toString e)

def readFile (path : String) : IO (Except FileFault String) := do
  try
    let content ← IO.FS.readBinFile path
    match String.fromUTF8? content with
    | some text => return .ok text
    | none => return .error .notText
  catch e => return .error (faultOf e)

def writeFile (path content : String) : IO (Except FileFault Unit) := do
  try
    IO.FS.writeFile path content
    return .ok ()
  catch e => return .error (faultOf e)

def main (arguments : List String) : IO UInt32 := do
  match request arguments with
  | .misuse =>
    IO.eprintln usageLine
    return 2
  | .help =>
    IO.println usageLine
    return 0
  | .version command =>
    IO.println (versionLine command)
    return 0
  | .run catalog action =>
    let files ← (readPaths catalog action).mapM fun path => return (path, ← readFile path)
    let read (path : String) : Except FileFault String :=
      (files.lookup path).getD (.error .notFound)
    let o := outcome read (2 ^ 62) catalog action
    let o ← match o.output with
      | none => pure o
      | some (path, content) => pure (o.written (← writeFile path content))
    IO.print o.text
    IO.eprint o.remarkText
    return UInt32.ofNat o.exitCode
