import DeadCode.CommandLine.Run

/-!
# DeadCode.Main

The program. Everything but the access to the disk is in `DeadCode.CommandLine.Run`.
-/

open DeadCode

/-- What a reading gives, or nothing when it fails. -/
def attempt (action : IO α) : IO (Option α) := do
  try return some (← action) catch _ => return none

/-- The tree at a path of the disk, without directories that are left out and files that do not take
part. -/
partial def readTree (path : String) : IO (Option FileTree) := do
  let some real ← attempt (IO.FS.realPath path) | return none
  if ← real.isDir then
    let mut entries := []
    for entry in (← attempt real.readDir).getD #[] do
      let name := entry.fileName
      if ← entry.path.isDir then
        if FileTree.isIgnored name then continue
      else if !FileTree.isLoaded name then continue
      if let some tree ← readTree entry.path.toString then
        entries := (name, tree) :: entries
    return some (.directory entries)
  else
    return (← attempt (IO.FS.readBinFile real)).map FileTree.file

/-- Access to the disk. -/
def diskAccess : FileAccess IO where
  readFile path := attempt (IO.FS.readBinFile path)
  readTree := readTree
  nameOf path := do return (← attempt (IO.FS.realPath path)).bind (·.fileName)

/-- Run the command line. -/
def main (args : List String) : IO UInt32 := do
  let result ← CommandLine.run diskAccess args
  IO.print result.output
  IO.eprint result.errors
  return result.exitCode.toUInt32
