import QueryGraph.Literal
import QueryGraph.Render.Extraction

namespace QueryGraph

/-- The text of an expression, and how strongly its outermost construct binds. -/
structure Fragment where
  text : List Char
  precedence : Nat
  deriving DecidableEq, Repr, Inhabited

namespace Fragment

def atom (text : List Char) : Fragment :=
  ⟨text, Operator.atomPrecedence⟩

/-- The text, in parentheses if asked for. -/
def wrapped (fragment : Fragment) (wrap : Bool) : List Char :=
  if wrap then '(' :: (fragment.text ++ [')']) else fragment.text

/-- Texts with commas between them. -/
def commas (texts : List (List Char)) : List Char :=
  List.intercalate [',', ' '] texts

def entries (values : List (String × Fragment)) : List Char :=
  commas (values.map fun entry => entry.1.toList ++ '=' :: entry.2.text)

def binary (op : Operator) (left right : Fragment) : Fragment :=
  let level := op.precedence
  if op = .index then
    ⟨left.wrapped (decide (left.precedence < level)) ++ '[' :: (right.text ++ [']']), level⟩
  else
    let wrapLeft := decide (left.precedence < level) ||
      (op.isComparison && left.precedence == level)
    let wrapRight := decide (right.precedence ≤ level)
    ⟨left.wrapped wrapLeft ++ ' ' :: (op.symbol.toList ++ ' ' :: right.wrapped wrapRight), level⟩

def lookup (on : Fragment) (key : String) : Fragment :=
  let level := Operator.postfixPrecedence
  ⟨on.wrapped (decide (on.precedence < level)) ++ '.' :: key.toList, level⟩

def list (values : List Fragment) : Fragment :=
  atom ('[' :: (commas (values.map (·.text)) ++ [']']))

def dict (values : List (String × Fragment)) : Fragment :=
  atom ('\x7b' :: (entries values ++ ['\x7d']))

def table (inner : Fragment) : Fragment :=
  atom ("table(".toList ++ inner.text ++ [')'])

def reference (name : String) : Fragment :=
  atom ('$' :: name.toList)

def call (space name : String) (arguments : List (String × Fragment)) : List Char :=
  space.toList ++ '.' :: (name.toList ++ '(' :: (entries arguments ++ [')']))

/-- A pipeline without steps is marked as one all the same. -/
def pipeline (base : Fragment) (steps : List (List Char)) : Fragment :=
  let level := Operator.pipelinePrecedence
  ⟨base.wrapped (decide (base.precedence ≤ level)) ++
    steps.flatMap fun step => ' ' :: '|' :: ' ' :: step, level⟩

def conditional (condition thenDo elseDo : Fragment) : Fragment :=
  ⟨"if ".toList ++ condition.text ++ " then ".toList ++ thenDo.text ++ " else ".toList ++
    elseDo.text, Operator.conditionalPrecedence⟩

end Fragment

/-- The back end for text. -/
def Backend.text : Backend Fragment (List Char) where
  constant value := Fragment.atom value.text
  binary := Fragment.binary
  lookup := Fragment.lookup
  list := Fragment.list
  dict := Fragment.dict
  table := Fragment.table
  reference := Fragment.reference
  placeholder := Fragment.atom ['@']
  call := Fragment.call
  pipeline := Fragment.pipeline
  conditional := Fragment.conditional

/-- Every statement on a line of its own, then the final expression. -/
def Rendering.layout (rendering : Rendering Fragment) : List Char :=
  (rendering.statements.flatMap fun statement =>
    statement.name.toList ++ ' ' :: '=' :: ' ' :: (statement.body.text ++ [';', '\n'])) ++
    rendering.final.text

/-- Renders roots as text. -/
def Graph.print (graph : Graph) (roots : List NodeId) (bindings : Bindings)
    (options : Options) : Except RenderError String := do
  let rendering ← graph.extract Backend.text roots bindings options
  return String.ofList rendering.layout

end QueryGraph
