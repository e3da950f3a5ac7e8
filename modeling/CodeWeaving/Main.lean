import CodeWeaving.CommandLine

/-! The program: reads the documents, weaves, and says and writes what came of it. -/
open CodeWeaving CommandLine

/-- Runs a request. Nothing is said before all documents are read. -/
def CodeWeaving.CommandLine.Request.run (r : Request) : IO UInt32 := do
  let texts ← r.documents.read fun path => IO.FS.readFile path
  match texts.weave with
  | .error e => do
    IO.eprintln e.message
    pure 1
  | .ok woven => match woven.checked with
    | none => do
      IO.eprintln Event.overflow.message
      pure 101
    | some woven => do
      IO.print (r.report woven)
      match r.output with
      | none => pure ()
      | some path => IO.FS.writeFile path (outputText woven)
      pure 0

def main (arguments : List String) : IO UInt32 := do
  match CommandLine.parse arguments with
  | .error e => do
    IO.eprintln e.message
    pure 2
  | .ok .help => do
    IO.print CommandLine.help
    pure 0
  | .ok .version => do
    IO.print CommandLine.version
    pure 0
  | .ok (.weave r) =>
    try r.run
    catch e => do
      IO.eprintln (toString e)
      pure 1
