import HandPath.Command

/-!
# HandPath.Main — the command line
-/

def main (arguments : List String) : IO UInt32 :=
  match HandPath.Command.run arguments with
  | .ok output => do
    IO.print output.text
    return output.status
  | .error f => do
    IO.eprintln f.message
    return 1
