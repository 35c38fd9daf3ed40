import Harjus.Application
import Harjus.Lib.Writes

/-!
# `Harjus.Refresh`: the meaning of an incremental refresh

An incremental refresh says which levels of the book have changed. A book is a level (a price
and a quantity) in each cell, one cell for each side of each symbol.

`Reads` says what the entries of a message mean, without the parser: an entry is about its own
symbol or else about the symbol of the entry before it, and a NEW or CHANGE entry of type BID
or OFFER with a size carries the new level of a cell. `changes` lists these levels as writes,
so `overwrite` of `Harjus.Lib.Writes` is the book that the message asks for.
-/

set_option autoImplicit false

namespace Harjus

open Harjus.Lib

/-- The two sides of a book. -/
inductive BookSide where
  | bid
  | offer
  deriving DecidableEq, Repr

/-- The `MDEntryType` of a side. -/
def BookSide.entryType : BookSide → Char
  | .bid => FIX.MDEntryType_BID
  | .offer => FIX.MDEntryType_OFFER

/-- A price with the quantity offered at it. -/
structure Level where
  price : PreciseNumber
  qty : PreciseNumber
  deriving DecidableEq, Repr

/-- The level `PreciseNumber{}` at `PreciseNumber{}`. -/
instance : Zero Level := ⟨⟨0, 0⟩⟩

/-- A side of a symbol. -/
abbrev Cell := String × BookSide

/-- The level in a cell of the book. -/
def Book.level (book : Book) : Cell → Level
  | (symbol, .bid) => ⟨(book symbol).bidPrice, (book symbol).bidQty⟩
  | (symbol, .offer) => ⟨(book symbol).askPrice, (book symbol).askQty⟩

/-- What an entry means: the symbol it is about and the new level of a side, if it has one. -/
structure Line where
  symbol : String
  change : Option (BookSide × Level)

/-- The levels that a list of lines sets, in order. -/
def changes (lines : List Line) : List (Cell × Level) :=
  lines.filterMap fun line => line.change.map fun (side, level) => ((line.symbol, side), level)

namespace Refresh

/-- The actions that set a level. -/
def Sets (action : Char) : Prop :=
  action = FIX.MDUpdateAction_NEW ∨ action = FIX.MDUpdateAction_CHANGE

instance (action : Char) : Decidable (Sets action) := inferInstanceAs (Decidable (_ ∨ _))

/-- What an entry says apart from its symbol. -/
inductive Says (app : Application) (entry : FIX.NoMDEntries) :
    Option (BookSide × Level) → Prop
  | level {action : Char} {side : BookSide} {price size : String} {level : Level}
      (hType : entry.mdEntryType = some side.entryType)
      (hAction : entry.mdUpdateAction = some action) (hSets : Sets action)
      (hPrice : entry.mdEntryPx = some price)
      (hPriceNumber : app.preciseNumber price = some level.price)
      (hSize : entry.mdEntrySize = some size)
      (hSizeNumber : app.preciseNumber size = some level.qty) : Says app entry (some (side, level))
  | otherAction {entryType action : Char} (hType : entry.mdEntryType = some entryType)
      (hAction : entry.mdUpdateAction = some action) (hOther : ¬ Sets action) :
      Says app entry none
  | noSize {entryType action : Char} {price : String}
      (hType : entry.mdEntryType = some entryType)
      (hAction : entry.mdUpdateAction = some action)
      (hPrice : entry.mdEntryPx = some price) (hSize : entry.mdEntrySize = none) :
      Says app entry none
  | otherType {entryType action : Char} {price : String}
      (hType : entry.mdEntryType = some entryType)
      (hOther : ∀ side : BookSide, entryType ≠ side.entryType)
      (hAction : entry.mdUpdateAction = some action)
      (hPrice : entry.mdEntryPx = some price) : Says app entry none

/-- The entries, after an entry about the symbol `previous`, mean the lines. -/
inductive Reads (app : Application) : Option String → List FIX.NoMDEntries → List Line → Prop
  | nil {previous : Option String} : Reads app previous [] []
  | cons {previous : Option String} {symbol : String} {entry : FIX.NoMDEntries}
      {change : Option (BookSide × Level)} {entries : List FIX.NoMDEntries} {lines : List Line}
      (hSymbol : entry.symbol.or previous = some symbol) (hKnown : symbol ∈ app.symbolMap)
      (hSays : Says app entry change) (hRest : Reads app (some symbol) entries lines) :
      Reads app previous (entry :: entries) (⟨symbol, change⟩ :: lines)

end Refresh

end Harjus
