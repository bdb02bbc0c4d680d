import StyleFlip.Options.Decode

/-!
Finding and loading an options file. The files of interest are given as a listing of paths below one directory; above
it no options file is looked for. A directory is there if it is listed or if something below it is.
-/
namespace StyleFlip

/-- A path below the directory of a listing, as the parts between its slashes. -/
abbrev Path := List Text

namespace Path

/-- Whether a part of a path leads nowhere: it is empty or a single dot. -/
def isIdle (part : Text) : Bool := part.isEmpty || part == ['.']

/-- The parts of a path that is written with slashes. After a slash at its end comes an empty part. -/
def ofText (text : Text) : Path := Text.splitAt '/' text

/-- The path written with slashes. -/
def text (path : Path) : Text := Text.join ['/'] path

/-- The parts that lead somewhere. -/
def names (path : Path) : Path := path.filter fun part => !isIdle part

/-- The path without idle parts at its end. -/
def trimEnd (path : Path) : Path := (path.reverse.dropWhile isIdle).reverse

/-- The path one step up; a path that leads nowhere has none. -/
def parent? (path : Path) : Option Path :=
  match path.trimEnd with
  | [] => none
  | trimmed => some (trimEnd trimmed.dropLast)

/-- The path of a file in the directory at a path. A slash at the end of the path is not doubled, and idle parts at its
start are left out. -/
def child (path : Path) (name : Text) : Path :=
  let directory := if path.getLast? == some [] then path.dropLast else path
  (directory ++ [name]).dropWhile isIdle

theorem length_of_parent? {path above : Path} (found : path.parent? = some above) : above.length < path.length := by
  have trimEnd_le (path : Path) : path.trimEnd.length ≤ path.length := by
    rw [trimEnd, List.length_reverse]
    exact Nat.le_trans (List.dropWhile_sublist _).length_le (Nat.le_of_eq List.length_reverse)
  unfold parent? at found
  split at found
  · cases found
  · rename_i nonempty
    cases found
    have first := trimEnd_le path
    have second := trimEnd_le path.trimEnd.dropLast
    have positive := List.length_pos_iff.mpr nonempty
    rw [List.length_dropLast] at second
    omega

end Path

/-- What is listed under a path. -/
inductive Listed where
  | directory
  | file (bytes : ByteArray)

/-- The files and directories below one directory. -/
abbrev Listing := List (Path × Listed)

namespace Listing

/-- What is listed under a path: the last thing given for it, or a directory on the way to something listed. -/
def entryAt? (listing : Listing) (path : Path) : Option Listed :=
  match listing.reverse.find? fun (listed, _) => listed == path with
  | some (_, found) => some found
  | none => if path.isEmpty || listing.any fun (listed, _) => path.isPrefixOf listed then some .directory else none

def isDirectory (listing : Listing) (path : Path) : Bool :=
  match listing.entryAt? path with
  | some .directory => true
  | _ => false

/-- Follows a path from a place. The name `..` leads back, and every step starts from a directory. -/
def follow? (listing : Listing) (place : Path) : Path → Option Path
  | [] => some place
  | name :: rest =>
    if !listing.isDirectory place then none
    else if name = "..".toList then (if place.isEmpty then none else listing.follow? place.dropLast rest)
    else listing.follow? (place ++ [name]) rest

/-- What a path leads to. A path with an idle part at its end leads to a directory only. -/
def find? (listing : Listing) (path : Path) : Option Listed :=
  match listing.follow? [] path.names with
  | none => none
  | some place =>
    if path.getLast?.any Path.isIdle && !listing.isDirectory place then none else listing.entryAt? place

end Listing

/-- Why options could not be loaded. -/
inductive FileError where
  | notFound
  /-- The path is no file, or the file is not UTF-8. -/
  | unreadable
  | options (error : OptionsError)

namespace Options

def fileName : Text := "rtl.toml".toList

/-- The first options file in the directory at `start` or above it. The directory need not be there. -/
def nearestFile? (listing : Listing) (start : Path) : Option Path :=
  if (listing.find? (start.child fileName)).isSome then some (start.child fileName)
  else match _above : start.parent? with
    | none => none
    | some outer => nearestFile? listing outer
termination_by start.length
decreasing_by exact Path.length_of_parent? _above

/-- The options in the file at a path. -/
def readFile (listing : Listing) (path : Path) : Except FileError Options :=
  match listing.find? path with
  | some (.file bytes) =>
    match String.fromUTF8? bytes with
    | some content => (ofText .toml content.toList).mapError .options
    | none => .error .unreadable
  | _ => .error .unreadable

/-- The options in the file at a path that has to be there. -/
def readRequired (listing : Listing) (path : Path) : Except FileError Options :=
  if (listing.find? path).isSome then readFile listing path else .error .notFound

/-- The options in the first file found from a directory upwards, or the defaults if there is none. The way up starts
from the place that the path leads to. -/
def readNearest (listing : Listing) (directory : Path) : Except FileError Options :=
  match nearestFile? listing ((listing.follow? [] directory.names).getD directory) with
  | some path => readFile listing path
  | none => .ok {}

end Options
end StyleFlip
