namespace QueryGraph

inductive Operator where
  | equal
  | notEqual
  | lessThan
  | greaterThan
  | lessEqual
  | greaterEqual
  | add
  | subtract
  | multiply
  | divide
  | modulo
  | and
  | or
  /-- Access with a computed key, written `on[key]`. -/
  | index
  deriving DecidableEq, Repr

namespace Operator

def all : List Operator :=
  [equal, notEqual, lessThan, greaterThan, lessEqual, greaterEqual, add, subtract, multiply,
    divide, modulo, and, or, index]

def symbol : Operator → String
  | equal => "=="
  | notEqual => "!="
  | lessThan => "<"
  | greaterThan => ">"
  | lessEqual => "<="
  | greaterEqual => ">="
  | add => "+"
  | subtract => "-"
  | multiply => "*"
  | divide => "/"
  | modulo => "%"
  | and => "and"
  | or => "or"
  | index => "[]"

/-- The operator of a symbol. -/
def ofSymbol? (symbol : String) : Option Operator :=
  all.find? fun op => op.symbol == symbol

/-- Conditionals bind weakest, then pipelines, then the operators. -/
def conditionalPrecedence : Nat := 1

def pipelinePrecedence : Nat := 2

/-- Binding strength of lookups and indexing. -/
def postfixPrecedence : Nat := 8

/-- Binding strength of what needs no parentheses anywhere. -/
def atomPrecedence : Nat := 9

def precedence : Operator → Nat
  | or => 3
  | and => 4
  | equal | notEqual | lessThan | greaterThan | lessEqual | greaterEqual => 5
  | add | subtract => 6
  | multiply | divide | modulo => 7
  | index => postfixPrecedence

/-- Comparisons do not chain. -/
def isComparison (op : Operator) : Bool :=
  op.precedence == equal.precedence

end Operator

end QueryGraph
