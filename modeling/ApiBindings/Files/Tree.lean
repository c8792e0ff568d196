import ApiBindings.Fault
import ApiBindings.Files.Path

/-!
Files and directories as far as they are known. A place is the list of names on the way to it from
the root; paths that do not begin with a slash start at the home of the tree.
-/

namespace ApiBindings

abbrev Place := List String

namespace Path

/-- Of the halves of pairs a name may hold those that stand for bytes without a character. -/
def isNameable (c : Char) : Bool :=
  !Text.carriesHalf c || Text.inRanges (Text.codePoint c) [(0xdc80, 0xdcff)]

/-- What is wrong with a path as such. -/
def misuse? (path : String) : Option Misuse :=
  if !path.toList.all isNameable then some .unencodable
  else if path.toList.contains '\x00' then some .invalidValue
  else none

end Path

structure FileTree where
  home : Place
  files : List (Place × String)
  /-- Directories that were made; those that hold files need not be among them. -/
  directories : List Place
deriving DecidableEq

namespace FileTree

def file? (t : FileTree) (place : Place) : Option String := t.files.lookup place

def isDirectory (t : FileTree) (place : Place) : Bool :=
  (t.home :: t.directories).any (place.isPrefixOf ·)
    || t.files.any fun f => place.length < f.1.length && place.isPrefixOf f.1

def isKnown (t : FileTree) (place : Place) : Bool := (t.file? place).isSome || t.isDirectory place

def longestName : Nat := 255

/-- The bytes of a name. A half of a pair in it stands for one of them. -/
def nameSize (name : String) : Nat :=
  name.toList.foldl (fun size c => size + if Text.carriesHalf c then 1 else c.utf8Size) 0

/-- The place that the parts of a path lead to from `here`. All but the last one must be
directories. -/
def walk (t : FileTree) (here : Place) : List String → Except FileProblem Place
  | [] => .ok here
  | part :: rest =>
    if (t.file? here).isSome then .error .notADirectory
    else if !t.isDirectory here then .error .notFound
    else if part = "" ∨ part = "." then walk t here rest
    else if part = ".." then walk t here.dropLast rest
    else if nameSize part > longestName then .error .nameTooLong
    else walk t (here ++ [part]) rest

def startOf (t : FileTree) (path : String) : Place :=
  if Text.beginsWith "/" path then [] else t.home

def locate (t : FileTree) (path : String) : Except FileProblem Place :=
  if path = "" then .error .notFound else t.walk (t.startOf path) (Path.parts path)

def exists? (t : FileTree) (path : String) : Bool :=
  match t.locate path with
  | .ok place => t.isKnown place
  | .error _ => false

def isDirectoryAt (t : FileTree) (path : String) : Bool :=
  match t.locate path with
  | .ok place => t.isDirectory place
  | .error _ => false

def withLineFeeds : List Char → List Char
  | [] => []
  | '\r' :: '\n' :: rest => '\n' :: withLineFeeds rest
  | '\r' :: rest => '\n' :: withLineFeeds rest
  | c :: rest => c :: withLineFeeds rest

def read (t : FileTree) (path : String) : Except FileProblem String := do
  let place ← t.locate path
  match t.file? place with
  | some text => return Text.receivedText (String.ofList (withLineFeeds text.toList))
  | none => .error (if t.isDirectory place then .isADirectory else .notFound)

def putFile (place : Place) (text : String) : List (Place × String) → List (Place × String)
  | [] => [(place, text)]
  | f :: rest => if f.1 = place then (place, text) :: rest else f :: putFile place text rest

/-- The place of a file that may be new; a slash at the end asks for a directory. -/
def locateNew (t : FileTree) (path : String) : Except FileProblem Place :=
  match t.locate path with
  | .ok place => .ok place
  | .error .notFound =>
    if Text.endsWith "/" path && (t.locate (Path.trimmed path)).isOk then .error .isADirectory
    else .error .notFound
  | .error problem => .error problem

def write (t : FileTree) (path text : String) : Except FileProblem FileTree := do
  let place ← t.locateNew path
  if t.isDirectory place then .error .isADirectory
  else return { t with files := putFile place text t.files }

def makeWay (t : FileTree) (here : Place) : List String → Except FileProblem FileTree
  | [] => if (t.file? here).isSome then .error .exists else .ok t
  | part :: rest =>
    if (t.file? here).isSome then .error .notADirectory
    else if part = "" ∨ part = "." then makeWay t here rest
    else if part = ".." then makeWay t here.dropLast rest
    else if nameSize part > longestName then .error .nameTooLong
    else
      let next := here ++ [part]
      if t.isKnown next then makeWay t next rest
      else makeWay { t with directories := t.directories ++ [next] } next rest

def makeDirectories (t : FileTree) (path : String) : Except FileProblem FileTree :=
  t.makeWay (t.startOf path) (Path.parts path)

end FileTree

end ApiBindings
