import NetReach.Cli.Run

/-! # The program

Reads the file that the arguments name, if any, and prints the response. -/

open NetReach Cli

/-- What is found at a path. -/
def contentAt (path : String) : IO PathContent := do
  let opened ← try pure (some (← IO.FS.Handle.mk path .read)) catch _ => pure none
  match opened with
  | none => return .nothing
  | some file => try return .text (← file.readToEnd) catch _ => return .noText

/-- What is found at the path that the network is read from. -/
def contentFor (args : List String) : IO PathContent := do
  match Arguments.of? args with
  | some ⟨.file path, _⟩ => contentAt path
  | _ => return .nothing

/-- Answer a call of the program. -/
def main (args : List String) : IO UInt32 := do
  let content ← contentFor args
  let response := respond (fun _ => content) args
  IO.print response.stdout
  unless response.stderr.isEmpty do
    IO.eprintln response.stderr
  return UInt32.ofNat response.code
