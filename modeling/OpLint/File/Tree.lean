import OpLint.File.Path

/-!
# Files and directories

A file system says what is found at a path. One way to get a file system is from
a whole machine; a path is then followed segment by segment, from the root directory
on. A link leads on along the path that it holds. Paths and names that are too long,
paths that hold a NUL character, and paths with too many links lead nowhere. What is
in a directory is what a search sees of it, and a search passes over links.
-/

namespace OpLint

inductive Entry
  | file (content : ByteArray)
  /-- What can be read but is no file, such as a device. No search finds it. -/
  | device (content : ByteArray)
  | directory (entries : List (String × Entry))
  deriving Inhabited

inductive FileError
  | notFound
  | notDirectory
  | isDirectory
  | nameTooLong
  | tooManyLinks
  | nulInName
  | notText
  deriving DecidableEq, Repr

def FileError.message : FileError → String
  | notFound => "No such file or directory (os error 2)"
  | notDirectory => "Not a directory (os error 20)"
  | isDirectory => "Is a directory (os error 21)"
  | nameTooLong => "File name too long (os error 36)"
  | tooManyLinks => "Too many levels of symbolic links (os error 40)"
  | nulInName => "file name contained an unexpected NUL byte"
  | notText => "stream did not contain valid UTF-8"

abbrev FileSystem := Path → Except FileError Entry

namespace FileSystem

/-- A path has at most this many bytes. -/
def longestPath : Nat := 4095

/-- Why a path is refused before it is followed. -/
def refusal? (p : Path) : Option FileError :=
  if p.text.toList.contains '\x00' then some .nulInName
  else if p.text.isEmpty then some .notFound
  else if longestPath < p.text.utf8ByteSize then some .nameTooLong
  else none

end FileSystem

/-- What a machine holds: everything but links in one tree, and the links, each with the
names under which it stands, seen from the root directory. -/
structure Machine where
  root : Entry
  links : List (List String × Path)

/-- An entry with the directories above it, the nearest first, each with the name that
leads on from it. -/
structure Spot where
  entry : Entry
  above : List (String × Entry)

namespace Spot

/-- The names that lead to a spot from the root directory. -/
def place (s : Spot) : List String :=
  (s.above.map Prod.fst).reverse

def enter (s : Spot) (name : String) (e : Entry) : Spot :=
  ⟨e, (name, s.entry) :: s.above⟩

/-- The directory above. The root directory is its own parent. -/
def parent (s : Spot) : Spot :=
  match s.above with
  | [] => s
  | (_, directory) :: above => ⟨directory, above⟩

end Spot

namespace Machine

/-- A name has at most this many bytes. -/
def longestName : Nat := 255

/-- A path leads through at most this many links. -/
def mostLinks : Nat := 40

def top (m : Machine) : Spot :=
  ⟨m.root, []⟩

/-- Follows segments up to the first link. There `detour` goes on, given the directory of
the link, what the link holds, and the segments behind it. A name is looked at only in a
directory, and one that is too long is refused there. -/
def follow (m : Machine) (detour : Spot → Path → List String → Except FileError Spot)
    (s : Spot) : List String → Except FileError Spot
  | [] => .ok s
  | segment :: segments =>
    match s.entry with
    | .file _ | .device _ => .error .notDirectory
    | .directory entries =>
      if Path.isIdle segment then m.follow detour s segments
      else if segment = ".." then m.follow detour s.parent segments
      else if longestName < segment.utf8ByteSize then .error .nameTooLong
      else
        match m.links.lookup (s.place ++ [segment]) with
        | some target => detour s target segments
        | none =>
          match entries.lookup segment with
          | none => .error .notFound
          | some e => m.follow detour (s.enter segment e) segments

/-- Follows segments through so many links at most. What a link holds may be refused like
any path, and starts in the directory of the link unless it is absolute. -/
def locate (m : Machine) : Nat → Spot → List String → Except FileError Spot
  | 0 => m.follow fun _ _ _ => .error .tooManyLinks
  | links + 1 => m.follow fun s target segments =>
    match FileSystem.refusal? target with
    | some cause => .error cause
    | none => m.locate links (if target.isAbsolute then m.top else s) (target.segments ++ segments)

end Machine

namespace Entry

mutual

/-- All files of an entry, each with its path and its name. -/
def filesBelow (path : Path) (name : String) : Entry → List (Path × String × ByteArray)
  | file content => [(path, name, content)]
  | device _ => []
  | directory entries => filesIn path entries

def filesIn (path : Path) : List (String × Entry) → List (Path × String × ByteArray)
  | [] => []
  | (name, e) :: entries => e.filesBelow (path.join ⟨name⟩) name ++ filesIn path entries

end

mutual

/-- The paths of all directories of an entry. -/
def directoriesBelow (path : Path) : Entry → List Path
  | file _ | device _ => []
  | directory entries => path :: directoriesIn path entries

def directoriesIn (path : Path) : List (String × Entry) → List Path
  | [] => []
  | (name, e) :: entries => e.directoriesBelow (path.join ⟨name⟩) ++ directoriesIn path entries

end

end Entry

namespace FileSystem

/-- The file system of a machine, in whose root directory every path starts. -/
def ofMachine (m : Machine) : FileSystem := fun p =>
  match refusal? p with
  | some cause => .error cause
  | none => (m.locate Machine.mostLinks m.top p.segments).map Spot.entry

/-- The file system of a machine without links. -/
def ofRoot (root : Entry) : FileSystem :=
  ofMachine ⟨root, []⟩

/-- The first directory that a search through `entries` cannot enter, and why: a path
grows with every directory entered, and may be refused in the end. -/
def impasse? (path : Path) (entries : List (String × Entry)) : Option (Path × FileError) :=
  let refused := (Entry.directoriesIn path entries).filterMap fun p => (refusal? p).map (p, ·)
  (refused.mergeSort fun a b => (a.1.order b.1).isLE).head?

def isFile (fs : FileSystem) (p : Path) : Bool :=
  match fs p with
  | .ok (.file _) => true
  | _ => false

/-- The text of a content. -/
def textOf (content : ByteArray) : Except FileError String :=
  match String.fromUTF8? content with
  | some text => .ok text
  | none => .error .notText

def readText (fs : FileSystem) (p : Path) : Except FileError String := do
  match ← fs p with
  | .file content | .device content => textOf content
  | .directory _ => throw .isDirectory

end FileSystem

end OpLint
