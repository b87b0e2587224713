import Reckoner.Text.Basic
/-!
# Directories

A directory is named by a path. Two paths that differ only in empty parts and in single points name the same one.
-/
namespace Reckoner.Directory

/-- The parts of a path that say something. -/
def parts (path : Text) : List Text :=
  (Text.parts (.scalar '/') path).filter fun part => !(part.isEmpty || part == Text.ofString ".")

/-- Where a path begins: at the root if it begins with a slash, and with exactly two slashes at a place of its own. -/
def root (path : Text) : Text :=
  match (path.takeWhile (· == .scalar '/')).length with
  | 0 => []
  | 2 => "//"
  | _ => "/"

/-- The path of a file in a directory. -/
def file (path name : Text) : Text := root path ++ Text.join "/" (parts path ++ [name])

/-- Do two paths name the same directory? -/
def same (a b : Text) : Bool := root a == root b && parts a == parts b

theorem same_self (path : Text) : same path path = true := by simp [same]

end Reckoner.Directory
