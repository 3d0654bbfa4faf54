/-
The command line. The first argument names the command: `assemble`, `disassemble` or `tree`.
-/
import WordMachine.Command

namespace WordMachine.Command

/-- The content of a file, if it can be read. -/
def contentOf (name : String) : IO (Option (String × List UInt8)) := do
  try return some (name, (← IO.FS.readBinFile name).toList)
  catch _ => return none

/-- The folder in a file's name, if it has one. -/
def folder? (name : String) : Option String :=
  match name.toList.reverse.dropWhile (· ≠ '/') with
  | _ :: rest => some (String.ofList rest.reverse)
  | [] => none

/-- The files that arguments name. The folders that they name are taken to be there. -/
def directoryOf (arguments : List String) : IO Directory := do
  let names := arguments.flatMap fun s =>
    [s, ((s.splitOn "=").drop 1).headD s, String.ofList (s.toList.drop 2)]
  return { files := ← names.filterMapM contentOf, folders := names.filterMap folder? }

/-- Runs a command, prints what it prints and writes the files that it changed. -/
def run (command : List String → Directory → Outcome) (arguments : List String) :
    IO UInt32 := do
  let before ← directoryOf arguments
  let outcome := command arguments before
  IO.print outcome.out
  IO.eprint outcome.err
  for (name, content) in outcome.directory.files do
    if before.read? name ≠ some content then
      try IO.FS.writeBinFile name ⟨content.toArray⟩
      catch _ =>
        IO.eprintln (Assembly.FileError.output name .missing).message
        return 1
  return outcome.code.toUInt32

end WordMachine.Command

open WordMachine.Command in
def main (arguments : List String) : IO UInt32 :=
  match arguments with
  | "assemble" :: rest => run assemble rest
  | "disassemble" :: rest => run disassemble rest
  | "tree" :: rest => run showTree rest
  | _ => do
    IO.eprintln "usage: assemble | disassemble | tree, and the arguments of the command"
    return 2
