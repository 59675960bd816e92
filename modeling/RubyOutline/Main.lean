import RubyOutline.Files.ParseTable
import RubyOutline.Json.Reader
import RubyOutline.ParseTree.OfJson
import RubyOutline.Run.Basic

namespace RubyOutline.Command

/-- The entry of a directory, with all that lies below it. -/
partial def entryOf (found : IO.FS.DirEntry) : IO (String × Entry) := do
  if ← found.path.isDir then
    let entries ← (← found.path.readDir).toList.mapM entryOf
    return (found.fileName, .directory entries)
  else
    let bytes ← IO.FS.readBinFile found.path
    return (found.fileName, .file bytes.toList)

/-- The current directory as a file system of its own. -/
def currentFiles : IO FileSystem := do
  let entries ← (← (← IO.currentDir).readDir).toList.mapM entryOf
  let fs := FileSystem.initial ["home", "current"]
  return { fs with root := fs.root.put fs.current (.directory entries) }

def known? (item : Json) : Option (String × ParseTree) := do
  let text ← (← item.get? "text").string?
  let tree ← ParseTree.ofJson? (← item.get? "tree")
  return (text, tree)

/-- The parse trees that a text brings; a text that cannot be read brings none. -/
def tableOf (text : String) : ParseTable :=
  (((Json.parse? text).bind Json.array?).getD []).filterMap known?

partial def readAll (input : IO.FS.Stream) (text : String) : IO String := do
  let line ← input.getLine
  if line.isEmpty then return text else readAll input (text ++ line)

/-- Write the files that a run has made or changed. -/
def writeFiles (before after : FileSystem) : IO Unit := do
  let old := before.files
  for (path, bytes) in after.files do
    if !old.contains (path, bytes) then
      let (directory, _) := Path.splitLast path
      if !directory.isEmpty then IO.FS.createDirAll directory
      IO.FS.writeBinFile path (ByteArray.mk bytes.toArray)

end RubyOutline.Command

open RubyOutline in
/-- The files are those below the current directory. Standard input brings their parse trees, as a
JSON list of objects with a `text` and its `tree`. -/
def main (arguments : List String) : IO UInt32 := do
  let files ← Command.currentFiles
  let table := Command.tableOf (← Command.readAll (← IO.getStdin) "")
  let settings := Settings.ofVariables (← IO.getEnv "FEATMAP_DEBUG")
    (← IO.getEnv "FEATMAP_NO_COLORS")
  let outcome := Run.command { files, parser := table.parser, settings } arguments
  IO.print outcome.stdout
  IO.eprint outcome.stderr
  Command.writeFiles files outcome.files
  match outcome.ending with
  | .exit status => return UInt32.ofNat status
  | .crash cause =>
    IO.eprintln cause.message
    return 1
