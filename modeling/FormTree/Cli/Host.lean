import FormTree.Files

/-!
What the command line needs of the machine it runs on, and a machine that is a
value: a store of files, a clock that stands still and the text written so far.
-/

namespace FormTree.Cli

/-- The effects of the command line. -/
structure Host (m : Type → Type) where
  read (path : String) : m (Except FileError ByteArray)
  contains (path : String) : m Bool
  write (path : String) (content : ByteArray) : m (Except FileError Unit)
  append (path : String) (content : ByteArray) : m (Except FileError Unit)
  out (text : String) : m Unit
  err (text : String) : m Unit
  configPath : m (Option String)
  /-- The time in milliseconds. -/
  now : m Nat

structure Machine where
  files : Files
  configPath : Option String := none
  time : Nat := 0
  out : String := ""
  err : String := ""

namespace Machine

/-- Changes the files, or leaves all as it is where that fails. -/
def change (f : Files → Except FileError Files) : StateM Machine (Except FileError Unit) :=
  fun m =>
    match f m.files with
    | .ok files => (.ok (), { m with files })
    | .error reason => (.error reason, m)

def host : Host (StateM Machine) where
  read path m := (m.files.read path, m)
  contains path m := (m.files.contains path, m)
  write path content := change fun files => files.write path content
  append path content := change fun files => files.append path content
  out text m := ((), { m with out := m.out ++ text })
  err text m := ((), { m with err := m.err ++ text })
  configPath m := (m.configPath, m)
  now m := (m.time, m)

end Machine
end FormTree.Cli
