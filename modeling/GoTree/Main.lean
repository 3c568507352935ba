import GoTree.CommandLine

/-!
# The program

Reads the files that the arguments name, runs the command, and prints its outcome.
-/

namespace GoTree

/-- Reads a stream to its end, after what was read before. -/
partial def readToEnd (stream : IO.FS.Stream) (read : ByteArray) : IO ByteArray := do
  let chunk ← stream.read 65536
  if chunk.isEmpty then pure read else readToEnd stream (read ++ chunk)

/-- Reads the files with the given paths, as far as they can be read. -/
def readFiles : List String → IO (List (String × ByteArray))
  | [] => pure []
  | path :: rest => do
    let others ← readFiles rest
    try
      let bytes ← IO.FS.readBinFile path
      pure ((path, bytes) :: others)
    catch _ => pure others

end GoTree

open GoTree in
/-- Maps Go source files to generic trees. -/
def main (args : List String) : IO UInt32 := do
  let paths := args.filter (· != stdinPath)
  let files ← readFiles paths
  let stdin ← if args.contains stdinPath then readToEnd (← IO.getStdin) .empty else pure .empty
  let outcome := runCommand args ⟨fun path => files.lookup path, stdin⟩
  (← IO.getStdout).putStr outcome.stdout
  (← IO.getStderr).putStr outcome.stderr
  pure outcome.code.toUInt32
