/-
Walks along the parts of a path. At each name a walk meets a directory, a symbolic link, or neither.
It goes into directories and through links, up to a name that is the last one; a link may take it
anywhere, so the number of links that it goes through is bounded.
-/
import CoveragePages.Files.Store

namespace CoveragePages

open CoveragePages.Path

/-- What a walk meets under some names. -/
inductive Turn where
  | enter
  | follow (target : Path)

/-- What there is to meet under all names. -/
abbrev Look := Location → Except FileError Turn

/-- Whether there is a link. -/
def Look.isLink (look : Look) (place : Location) : Bool :=
  match look place with
  | .ok (.follow _) => true
  | _ => false

/-- Where a path leads: to a directory that is there, or to a name in one, maybe with a slash. -/
inductive Spot where
  | directory (place : Location)
  | name (directory : Location) (name : Part) (slash : Bool)
  deriving DecidableEq

/-- The names that a path leads to. -/
def Spot.place : Spot → Location
  | directory place => place
  | name above last _ => above ++ [last]

/-- Where a walk stops: at its end, or at a link, with the parts that are left. -/
inductive Stop where
  | spot (spot : Spot)
  | link (directory : Location) (target : Path) (rest : List Part)

/-- The most links that a walk goes through. -/
def maxLinks : Nat := 40

/-- Where the walk along a path starts from a directory. -/
def Path.startIn (p : Path) (directory : Location) : Location := if p.isAbsolute then [] else directory

/-- Accepts a name that may stand in a directory. -/
def checkName (name : Part) : Except FileError Unit :=
  if maxNameBytes < name.length then .error .nameTooLong else .ok ()

namespace Look

/-- Goes along parts up to the first link. The last name need not be there; `follow` says that a link
there counts as well. -/
def advance (look : Look) (follow : Bool) : Location → List Part → Except FileError Stop
  | place, [] => .ok (.spot (.directory place))
  | place, part :: rest =>
    if part = [] ∨ part = here then advance look follow place rest
    else if part = up then advance look follow place.dropLast rest
    else do
      checkName part
      let next := place ++ [part]
      if rest.all (·.isEmpty) && !(follow && look.isLink next) then
        return .spot (.name place part (!rest.isEmpty))
      else match ← look next with
        | .enter => advance look follow next rest
        | .follow target => return .link place target rest

/-- Goes along parts, through some number of links at most. -/
def resolve (look : Look) (follow : Bool) (links : Nat) (place : Location) (parts : List Part) :
    Except FileError Spot :=
  match look.advance follow place parts with
  | .error e => .error e
  | .ok (.spot spot) => .ok spot
  | .ok (.link directory target rest) =>
    match links with
    | 0 => .error .tooManyLinks
    | links + 1 => resolve look follow links (target.startIn directory) (target.pieces ++ rest)

end Look

end CoveragePages
