import CodeMetrics.Node

/-!
# `CodeMetrics.Node.Literal`: the texts of literals

`literalText` writes the value of a literal the way a program spells it: texts in double
quotes, whole numbers without a point, the words null, true and false. A text always starts
with a quote and nothing else does, so texts are never confused with other values.

`stringValue` is the text that a string literal, or a template without expressions, stands
for.
-/

set_option autoImplicit false

namespace CodeMetrics.Document

/-- The value of a literal as a program spells it. -/
def literalText : Document → String
  | .string s => Text.quoted s
  | .null => "null"
  | .bool b => if b then "true" else "false"
  | .float x =>
    let b := Binary.ofFloat x
    if b.isWhole then Decimal.intText b.truncate else display (.float x)
  | d => d.display

/-- What a template without expressions stands for: the cooked text of its only part. -/
def templateValue (d : Document) : Except Fault (Option Document) :=
  if (d.get "expressions").truthy then .ok none
  else do
    let quasis := d.get "quasis"
    if (← quasis.count) = 1 then
      match ← quasis.first with
      | .object part =>
        let cooked ← (Document.object part).getIn "value" "cooked"
        return cooked.filter fun text => !text.isNull
      | _ => .error .fieldOfNonObject
    else return none

/-- The value of a string literal or of a template without expressions. -/
def stringValue (d : Document) : Except Fault (Option Document) :=
  match d.kind? with
  | some "Literal" | some "StringLiteral" =>
    match d.get "value" with
    | .string s => .ok (some (.string s))
    | _ => .ok none
  | some "TemplateLiteral" => templateValue d
  | _ => .ok none

end CodeMetrics.Document
