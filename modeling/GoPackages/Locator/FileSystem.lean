import GoPackages.Error

/-!
What a locator needs of a file system, as answers to questions about paths.
-/
namespace GoPackages

structure FileSystem where
  isDirectory : String → Bool
  /-- The names of the regular files directly inside a directory, in any order, or why they could
  not be listed. -/
  fileNames : String → Except String (List String)
  readText : String → Except ReadFailure String

def FileSystem.read (fs : FileSystem) (path : String) : Except Error String :=
  (fs.readText path).mapError (Error.ofRead path)

end GoPackages
