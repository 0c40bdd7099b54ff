import FormTree.Cli
import Std.Time.DateTime.Timestamp

/-!
The program: the commands run on the machine itself.
-/

namespace FormTree.Cli

def fileError : IO.Error → FileError
  | .noFileOrDirectory _ _ _ => .notFound
  | .permissionDenied _ _ _ => .denied
  | .inappropriateType _ 21 _ | .illegalOperation 21 _ => .isDirectory
  | .inappropriateType _ _ _ => .notDirectory
  | e => .other (toString e)

def guarded {α : Type} (path : String) (action : IO α) : IO (Except FileError α) := do
  if path.toList.contains '\x00' then
    return .error .zeroInPath
  try
    return .ok (← action)
  catch e => return .error (fileError e)

def machine : Host IO where
  read path := guarded path (IO.FS.readBinFile path)
  contains path := do
    match ← guarded path (IO.FS.Handle.mk path .read) with
    | .ok _ => return true
    | .error _ => return false
  write path content := guarded path (IO.FS.writeBinFile path content)
  append path content := guarded path do
    let handle ← IO.FS.Handle.mk path .append
    handle.write content
    handle.flush
  out text := do
    (← IO.getStdout).putStr text
  err text := do
    (← IO.getStderr).putStr text
  configPath := IO.getEnv "SCHEMA_FORMS_CONFIG"
  now := do
    let time ← Std.Time.Timestamp.now
    return time.toMillisecondsSinceUnixEpoch.val.toNat

end FormTree.Cli

def main (args : List String) : IO UInt32 := FormTree.Cli.run FormTree.Cli.machine args
