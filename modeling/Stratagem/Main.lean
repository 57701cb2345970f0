import Std.Time.Format
import Stratagem.Command.Run

/-!
The command line: the paths that a command looks at are read into a tree of files, the command
runs over the tree, and what changed in it is written back.
-/

namespace Stratagem

/-- What stands at a path. -/
def entryAt (p : Path) : IO (Option Entry) := do
  let place := (← IO.currentDir) / p.text
  if ← place.isDir then return some .directory
  if ← place.pathExists then
    return some (.file (.bytes (← IO.FS.readBinFile place).toList))
  return none

/-- The part of the file system that some paths lead through. -/
def snapshot (paths : List Path) : IO FileTree := do
  let mut files := FileTree.empty
  for p in paths.flatMap fun p => p.resolved.ancestors ++ [p] do
    if let some entry ← entryAt p then
      files := files.set p entry
  return files

def bytesOf : Contents → ByteArray
  | .text s => s.toUTF8
  | .bytes bs => ⟨bs.toArray⟩

/-- Write back what changed. -/
def store (before after : FileTree) : IO Unit := do
  for (p, entry) in after.entries do
    if entry = .directory && !before.isDirectory p then
      IO.FS.createDirAll p.text
  for (p, contents) in after.changes before do
    IO.FS.writeBinFile p.text (bytesOf contents)

def readClock : IO Clock := do
  let now ← Std.Time.PlainDateTime.now
  let today := now.date.toSQLDateString
  return ⟨today, today ++ " " ++ now.time.toTime24Hour⟩

end Stratagem

open Stratagem

def main (args : List String) : IO UInt32 := do
  let clock ← readClock
  let files ← snapshot (((Command.parse? args).map (Command.paths clock)).getD [])
  let outcome := runArguments clock files args
  store files outcome.session.files
  IO.print outcome.session.output
  IO.eprint outcome.session.errorOutput
  if let some reason := outcome.failure then
    IO.eprintln reason.message
  return outcome.exitCode.toUInt32
