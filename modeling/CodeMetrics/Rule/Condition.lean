import CodeMetrics.Fault
import CodeMetrics.Node
import CodeMetrics.Settings

/-!
# `CodeMetrics.Rule.Condition`: questions about a node

What a node contributes can depend on its fields, on its parent and on the settings. A
`Condition` says on what, as data, and `Condition.holds` answers it at a node. The settings
enter a rule through `Condition.flag` only. Asking fails where a length is asked of a field
that has none.
-/

set_option autoImplicit false

namespace CodeMetrics

/-- A question about a node, its parent and the settings. -/
inductive Condition where
  | always
  /-- The field counts as set. -/
  | truthy (key : String)
  /-- The field is there and not null. -/
  | present (key : String)
  /-- The field is an object. -/
  | isObject (key : String)
  /-- The field is one of the texts. -/
  | oneOf (key : String) (texts : List String)
  /-- The field is a node of the given kind. -/
  | childKind (key : String) (kind : String)
  /-- The field has more than one element. -/
  | several (key : String)
  /-- The parent is of one of the given kinds. -/
  | under (kinds : List String)
  /-- The setting is on. -/
  | flag (f : Flag)
  | not (c : Condition)
  | and (a b : Condition)
  | or (a b : Condition)

namespace Condition

/-- Whether the condition holds. The second part of a joined condition is asked only if
the first does not decide. -/
def holds (s : Settings) (p : Placed) : Condition → Except Fault Bool
  | .always => .ok true
  | .truthy key => .ok (p.node.get key).truthy
  | .present key => .ok !(p.node.get key).isNull
  | .isObject key => .ok (p.node.get key).isObject
  | .oneOf key texts => .ok ((p.node.get key).isOneOf texts)
  | .childKind key kind => .ok ((p.node.get key).kindIn [kind])
  | .several key => do return decide (1 < (← (p.node.get key).count))
  | .under kinds => .ok (p.parent.kindIn kinds)
  | .flag f => .ok (s.on f)
  | .not c => do return !(← c.holds s p)
  | .and a b => do if ← a.holds s p then b.holds s p else return false
  | .or a b => do if ← a.holds s p then return true else b.holds s p

end Condition

end CodeMetrics
