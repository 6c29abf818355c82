import SourceStyle.Path

/-!
What a run knows of its host: where relative paths start, and where users keep caches and their
files.
-/

namespace SourceStyle

structure Host where
  workingDirectory : String
  cacheDirectory : Option String := none
  home : Option String := none
deriving DecidableEq, Repr

namespace Host

/-- The host that environment variables describe. The cache directory is the one named, if that is
absolute, or else the usual one in the home directory; an empty home is none. -/
def ofEnvironment (workingDirectory : String) (home cacheHome : Option String) : Host :=
  let home := home.filter (· != "")
  { workingDirectory
    cacheDirectory := (cacheHome.filter Path.isAbsolute).or (home.map (Path.join · ".cache"))
    home }

/-- The path that an argument names: a leading tilde is the home directory, and a relative path is
inside the working directory. -/
def expandPath (host : Host) (path : String) : String :=
  Path.join host.workingDirectory (Path.expandTilde host.home path)

end Host
end SourceStyle
