import Sulti.Console.Command

/-!
A folder of files held in memory. Reading from it fails in the words of the
operating system.
-/

namespace Sulti.Console

structure Folder where
  files : List (String × ByteArray)

namespace Folder

def missing : String := "No such file or directory (os error 2)"

def isDirectory : String := "Is a directory (os error 21)"

/-- The bytes of the file at a path. The path of the folder itself is no file. -/
def read (f : Folder) : Files := fun path =>
  if path = "." ∨ path = "./" then
    .error isDirectory
  else
    let name := if path.startsWith "./" then (path.drop 2).toString else path
    match f.files.lookup name with
    | some bytes => .ok bytes
    | none => .error missing

end Folder

end Sulti.Console
