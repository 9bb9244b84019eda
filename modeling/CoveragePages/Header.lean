/-
The summary header of a page: what the coverage run reports, and what is displayed of it.
-/
import CoveragePages.Coverage.Classes

namespace CoveragePages

/-! ## Headers -/

/-- The summary of a coverage run. -/
structure Header where
  command : String
  date : String
  covered : UInt64
  instrumented : UInt64
  deriving DecidableEq

namespace Header

def toJson (header : Header) : Json :=
  .object
    [("command", .string header.command), ("date", .string header.date),
      ("covered", .ofNat header.covered.toNat),
      ("instrumented", .ofNat header.instrumented.toNat)]

/-- A draft of a header. -/
structure Draft where
  command : Option String := none
  date : Option String := none
  covered : Option Nat := none
  instrumented : Option Nat := none

/-- Reads a count of lines, which must fit 64 bits. -/
def readCount : Json.Reader Nat := Json.readNat UInt64.size "u64"

def shape : Json.Shape Draft Header where
  title := "struct Header"
  fields :=
    [.of "command" Json.readString fun d x => { d with command := some x },
      .of "date" Json.readString fun d x => { d with date := some x },
      .of "covered" readCount fun d x => { d with covered := some x },
      .of "instrumented" readCount fun d x => { d with instrumented := some x }]
  empty := {}
  finish d := do
    return {
      command := ← Json.required "command" d.command
      date := ← Json.required "date" d.date
      covered := .ofNat (← Json.required "covered" d.covered)
      instrumented := .ofNat (← Json.required "instrumented" d.instrumented) }
  strict := false
  lenient := false
  named := true

def reader : Json.Reader Header := shape.read

end Header

/-! ## What is displayed -/

/-- What a page displays of a header. -/
structure HeaderView where
  percentText : String
  percentClass : CoverageClass
  title : String
  command : String
  date : String
  covered : String
  instrumented : String

namespace HeaderView

/-- The start of every page title. -/
def titleStart : String := "Coverage report - "

/-- What is displayed of a header under some limits. -/
def ofHeader (header : Header) (limits : Limits) : HeaderView where
  percentText := CoveragePages.percentText (coverageRatio header.covered header.instrumented)
  percentClass := .ofCounts header.covered header.instrumented limits
  title := titleStart ++ header.command
  command := header.command
  date := header.date
  covered := toString header.covered.toNat
  instrumented := toString header.instrumented.toNat

def toJson (view : HeaderView) : Json :=
  .object
    [("percent_text", .string view.percentText), ("percent_class", view.percentClass.toJson),
      ("title", .string view.title), ("command", .string view.command),
      ("date", .string view.date), ("covered", .string view.covered),
      ("instrumented", .string view.instrumented)]

end HeaderView

end CoveragePages
