import CodeMetrics.Dialect

/-!
# `CodeMetrics.Dialect.Estree`: the rules of the ESTree dialect

The rules for trees in the ESTree form, one for each kind of node. The conditions and
tokens that several rules share come first.
-/

set_option autoImplicit false

namespace CodeMetrics.Estree

open Condition (truthy present oneOf under flag several childKind)

/-! ### Shared parts -/

/-- An expression that is a statement is counted as that statement, so it adds no line. -/
def isStatement : Condition := under ["ExpressionStatement"]

/-- The entry of an object literal, as opposed to one of a pattern. -/
def isObjectEntry : Condition := under ["ObjectExpression", "RecordExpression"]

/-- One logical line for an import or export if those are counted. -/
def moduleLine : Count := .choose (flag .esmLloc) 1 0

/-- A token of an import or export, if those are counted. -/
def moduleToken (t : String) : Token := .when (flag .esmHalstead) t

/-- Names and sources of imports and exports are passed over unless they are counted. -/
def moduleSkip (keys : List String) : Skip :=
  .when (.not (flag .esmHalstead)) keys

/-- The keyword of a function, marked for a generator. -/
def functionKeyword (keyword : String) : Token :=
  .choose (truthy "generator") (.text (keyword ++ "*")) (.text keyword)

/-- The tokens of a function. -/
def functionTokens (keyword : String) : List Token :=
  [.when (truthy "async") "async", functionKeyword keyword]

/-- Whether a property is read or written through a function. -/
def isAccessor : Condition := oneOf "kind" ["get", "set"]

/-- The path added by a logical operator: always for an and, by a setting for an or. -/
def logicalPath : Count :=
  .choose
    (.or (oneOf "operator" ["&&", "&&="])
      (.and (oneOf "operator" ["||", "??", "||=", "??="]) (flag .logicalor)))
    1 0

/-- A path for a loop over keys or items, by a setting. -/
def iterationPath : Count := .choose (flag .forin) 1 0

/-- A path for each case of a switch that has a test and a body. -/
def casePath : Count :=
  .choose (.and (flag .switchcase) (.and (present "test") (truthy "consequent"))) 1 0

/-- Access by a point or by brackets, marked if it is optional. -/
def memberToken : Token :=
  .choose (truthy "optional")
    (.choose (truthy "computed") (.text "?[]") (.text "?."))
    (.choose (truthy "computed") (.text "[]") (.text "."))

/-- A call, marked if it is optional. -/
def callToken : Token :=
  .choose (truthy "optional") (.text "?.()") (.text "()")

/-- The operator of a property: its accessor keyword, or a colon if it is written with one. -/
def propertyToken : Token :=
  .choose isAccessor (.field "kind")
    (.choose (.or (truthy "method") (truthy "shorthand")) .nothing (.text ":"))

/-- The operator of a step up or down, with the side it stands on. -/
def updateToken : Token :=
  .choose (truthy "prefix")
    (.composed [.shown "operator", .text " (prefix)"])
    (.composed [.shown "operator", .text " (postfix)"])

/-- A regular expression between slashes, a big number with its mark, or any other value
as a program spells it. -/
def literalToken : Token :=
  .choose (.isObject "regex")
    (.composed [.text "/", .inner "regex" "pattern", .text "/", .inner "regex" "flags"])
    (.choose (present "bigint")
      (.composed [.shown "bigint", .text "n"])
      (.literal "value"))

/-- A class and its base class. -/
def classTokens : List Token :=
  [.text "class", .when (truthy "superClass") "extends"]

/-- What belongs to the scope around a class. -/
def classScopeKeys : ScopeKeys := .fixed ["decorators", "id", "superClass"]

/-- A rule for a function that is not an arrow. -/
def functionRule : Rule :=
  { lloc := .fixed 1
    operators := functionTokens "function"
    opens := some .function
    scopeKeys := .fixed ["id", "params"]
    naming := some .ownThenBinding }

/-- A rule that only adds one logical line and one operator. -/
def statementRule (operator : String) : Rule :=
  { lloc := .fixed 1, operators := [.text operator] }

/-- A rule that only adds one operator. -/
def operatorRule (operator : String) : Rule :=
  { operators := [.text operator] }

/-! ### The rules -/

/-- The rule for each kind of node. -/
def rules : List (String × Rule) :=
  [("ArrayExpression",
    { operators := [.text "[]", .when (several "elements") ","] }),
   ("ArrayPattern", operatorRule "[]"),
   ("ArrowFunctionExpression",
    { lloc := .fixed 1
      operators := functionTokens "arrowfunction"
      opens := some .function
      scopeKeys := .fixed ["params"]
      naming := some .binding }),
   ("AssignmentExpression", { cyclomatic := logicalPath, operators := [.field "operator"] }),
   ("AssignmentPattern", operatorRule "="),
   ("AwaitExpression", operatorRule "await"),
   ("BinaryExpression", { operators := [.field "operator"] }),
   ("BlockStatement", {}),
   ("BreakStatement", statementRule "break"),
   ("CallExpression",
    { lloc := .choose isStatement 0 1
      operators := [callToken]
      dependency := some .call }),
   ("CatchClause",
    { lloc := .fixed 1
      cyclomatic := .choose (flag .trycatch) 1 0
      operators := [.text "catch"] }),
   ("ChainExpression", {}),
   ("ClassBody", {}),
   ("ClassDeclaration",
    { lloc := .fixed 1
      operators := classTokens
      opens := some .classBody
      scopeKeys := classScopeKeys
      naming := some .ownThenBinding }),
   ("ClassExpression",
    { operators := classTokens
      opens := some .classBody
      scopeKeys := classScopeKeys
      naming := some .ownThenBinding }),
   ("ConditionalExpression",
    { lloc := .choose isStatement 1 0
      cyclomatic := .fixed 1
      operators := [.text ":?"] }),
   ("ContinueStatement", statementRule "continue"),
   ("DebuggerStatement", statementRule "debugger"),
   ("DoWhileStatement",
    { lloc := .fixed 2, cyclomatic := .fixed 1, operators := [.text "dowhile"] }),
   ("EmptyStatement", {}),
   ("ExportAllDeclaration",
    { lloc := moduleLine
      operators := [moduleToken "export", moduleToken "*", moduleToken "from"]
      skip := moduleSkip ["exported", "source"]
      dependency := some .source }),
   ("ExportDefaultDeclaration",
    { lloc := moduleLine
      operators := [moduleToken "export", moduleToken "default"] }),
   ("ExportNamedDeclaration",
    { lloc := moduleLine
      operators :=
        [moduleToken "export", .when (.and (flag .esmHalstead) (present "source")) "from"]
      skip := moduleSkip ["specifiers", "source"]
      dependency := some .source }),
   ("ExportSpecifier", {}),
   ("ExpressionStatement", { lloc := .fixed 1 }),
   ("ForInStatement",
    { lloc := .fixed 1, cyclomatic := iterationPath, operators := [.text "forin"] }),
   ("ForOfStatement",
    { lloc := .fixed 1
      cyclomatic := iterationPath
      operators := [.text "forof", .when (truthy "await") "await"] }),
   ("ForStatement",
    { lloc := .fixed 1
      cyclomatic := .choose (present "test") 1 0
      operators := [.text "for"] }),
   ("FunctionDeclaration", functionRule),
   ("FunctionExpression", functionRule),
   ("Identifier", { operands := [.field "name"] }),
   ("IfStatement",
    { lloc := .choose (truthy "alternate") 2 1
      cyclomatic := .fixed 1
      operators := [.text "if", .when (truthy "alternate") "else"] }),
   ("ImportDeclaration",
    { lloc := moduleLine
      operators := [moduleToken "import", moduleToken "from"]
      skip := moduleSkip ["specifiers", "source"]
      dependency := some .source }),
   ("ImportDefaultSpecifier", {}),
   ("ImportExpression",
    { lloc := .choose isStatement 0 1
      operators := [.text "import()"]
      dependency := some .source }),
   ("ImportNamespaceSpecifier", operatorRule "*"),
   ("ImportSpecifier", {}),
   ("LabeledStatement", {}),
   ("Literal", { operands := [literalToken] }),
   ("LogicalExpression", { cyclomatic := logicalPath, operators := [.field "operator"] }),
   ("MemberExpression", { operators := [memberToken] }),
   ("MetaProperty",
    { operands := [.composed [.inner "meta" "name", .text ".", .inner "property" "name"]]
      skip := .when .always ["meta", "property"] }),
   ("MethodDefinition",
    { operators := [.when (truthy "static") "static", .choose isAccessor (.field "kind") .nothing] }),
   ("NewExpression",
    { lloc := .choose (childKind "callee" "FunctionExpression") 1 0
      operators := [.text "new"] }),
   ("ObjectExpression", operatorRule "\x7b\x7d"),
   ("ObjectPattern", operatorRule "\x7b\x7d"),
   ("ParenthesizedExpression", {}),
   ("PrivateIdentifier", { operands := [.composed [.text "#", .shown "name"]] }),
   ("Program", {}),
   ("Property",
    { lloc := .choose isObjectEntry 1 0
      operators := [propertyToken]
      skip := .when (truthy "shorthand") ["key"] }),
   ("PropertyDefinition",
    { lloc := .fixed 1
      operators := [.when (truthy "static") "static", .when (present "value") "="] }),
   ("RestElement", operatorRule "..."),
   ("ReturnStatement", statementRule "return"),
   ("SequenceExpression", operatorRule ","),
   ("SpreadElement", operatorRule "..."),
   ("StaticBlock", operatorRule "static"),
   ("Super", operatorRule "super"),
   ("SwitchCase",
    { lloc := .fixed 1
      cyclomatic := casePath
      operators := [.choose (present "test") (.text "case") (.text "default")] }),
   ("SwitchStatement", statementRule "switch"),
   ("TaggedTemplateExpression", {}),
   ("TemplateElement",
    { operands := [.choose (flag .templateHalstead) (.inner "value" "raw") .nothing] }),
   ("TemplateLiteral",
    { operators := [.when (flag .templateHalstead) "``"]
      skip := .when (.not (flag .templateHalstead)) ["quasis"] }),
   ("ThisExpression", operatorRule "this"),
   ("ThrowStatement", statementRule "throw"),
   ("TryStatement",
    { lloc := .fixed 1
      operators := [.text "try", .when (truthy "finalizer") "finally"] }),
   ("UnaryExpression", { operators := [.field "operator"] }),
   ("UpdateExpression", { operators := [updateToken] }),
   ("VariableDeclaration", { operators := [.field "kind"] }),
   ("VariableDeclarator", { lloc := .fixed 1, operators := [.when (present "init") "="] }),
   ("WhileStatement",
    { lloc := .fixed 1, cyclomatic := .fixed 1, operators := [.text "while"] }),
   ("WithStatement", statementRule "with"),
   ("YieldExpression",
    { operators := [.choose (truthy "delegate") (.text "yield*") (.text "yield")] })]

/-- The ESTree dialect. -/
def dialect : Dialect :=
  { name := "estree", rules }

end CodeMetrics.Estree
