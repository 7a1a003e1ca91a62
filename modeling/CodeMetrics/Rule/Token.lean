import CodeMetrics.Document.Writer
import CodeMetrics.Node.Literal
import CodeMetrics.Rule.Condition

/-!
# `CodeMetrics.Rule.Token`: operators and operands that a node adds

A `Token` describes the identifiers that a node adds to a tally: a fixed text, the value of
a field, a text composed of pieces, or one of two by a condition. `Token.read` gives them
at a node, in the order they are tallied.
-/

set_option autoImplicit false

namespace CodeMetrics

/-- A token as it is tallied: a text as it is, any other value as document text. Null is
no token. -/
def Document.identifier? : Document → Option String
  | .null => none
  | .string s => some s
  | d => some (d.write spaced)

/-- The tokens of a value: those of its items for a list, itself otherwise. -/
def Document.identifiers : Document → List String
  | .list items => items.filterMap identifier?
  | d => d.identifier?.toList

/-- A piece of a composed token. -/
inductive Piece where
  | text (t : String)
  /-- The value of a field. A missing field is shown like null. -/
  | shown (key : String)
  /-- The value of a field, nothing if it is missing. -/
  | shownOrNothing (key : String)
  /-- The field `name` of the record under `key`, nothing if it is missing. -/
  | inner (key name : String)

/-- The tokens that a node adds to a tally. -/
inductive Token where
  | nothing
  | text (t : String)
  | choose (c : Condition) (yes no : Token)
  /-- The tokens of the value of a field. -/
  | field (key : String)
  /-- The tokens of a value that does not depend on the node. -/
  | given (value : Document)
  /-- One token made of pieces. -/
  | composed (pieces : List Piece)
  /-- The value of a field as a program spells it. -/
  | literal (key : String)
  /-- The tokens of the field `name` of the record under `key`, none if it is not set. -/
  | inner (key name : String)

namespace Piece

/-- The text of a piece at a node. -/
def read (node : Document) : Piece → Except Fault String
  | .text t => .ok t
  | .shown key => .ok (node.get key).display
  | .shownOrNothing key => .ok (((node.field? key).map Document.display).getD "")
  | .inner key name => do return ((← node.getIn key name).map Document.display).getD ""

/-- The texts of all pieces, one after the other. -/
def readAll (node : Document) : List Piece → Except Fault String
  | [] => .ok ""
  | piece :: rest => do
    let here ← piece.read node
    let after ← readAll node rest
    return here ++ after

end Piece

namespace Token

/-- A token that counts only under a condition. -/
def when (c : Condition) (t : String) : Token :=
  .choose c (.text t) .nothing

/-- The identifiers at a node, in the order they are tallied. -/
def read (s : Settings) (p : Placed) : Token → Except Fault (List String)
  | .nothing => .ok []
  | .text t => .ok [t]
  | .choose c yes no => do if ← c.holds s p then yes.read s p else no.read s p
  | .field key => .ok (p.node.get key).identifiers
  | .given value => .ok value.identifiers
  | .composed pieces => do return [← Piece.readAll p.node pieces]
  | .literal key => .ok [(p.node.get key).literalText]
  | .inner key name => do
    let value := (← p.node.getIn key name).getD .null
    return if value.truthy then value.identifiers else []

/-- The identifiers of several tokens at a node. -/
def readAll (s : Settings) (p : Placed) : List Token → Except Fault (List String)
  | [] => .ok []
  | token :: rest => do
    let here ← token.read s p
    let after ← readAll s p rest
    return here ++ after

end Token

end CodeMetrics
