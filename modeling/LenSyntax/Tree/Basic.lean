import LenSyntax.Position

/-! Syntax trees. Every node has a kind, a text, the span of the source that it stands for and its
children in source order. -/
namespace LenSyntax

/-- The text of a node is the bound name, the parameter, the field name, the operator or the value
of the literal; of an error it is the message, and of all other kinds it is empty. -/
inductive NodeKind where
  | program
  | binding
  | number
  | string
  | boolean
  | identifier
  | unary
  | binary
  | call
  | group
  | lambda
  | product
  | field
  | error
  deriving DecidableEq, Repr

namespace NodeKind

def all : List NodeKind :=
  [program, binding, number, string, boolean, identifier, unary, binary, call, group, lambda,
    product, field, error]

def name : NodeKind → Text
  | program => "PROGRAM"
  | binding => "BINDING"
  | number => "NUMBER"
  | string => "STRING"
  | boolean => "BOOLEAN"
  | identifier => "IDENTIFIER"
  | unary => "UNARY"
  | binary => "BINARY"
  | call => "CALL"
  | group => "GROUP"
  | lambda => "LAMBDA"
  | product => "PRODUCT"
  | field => "FIELD"
  | error => "ERROR"

def ofName? (name : Text) : Option NodeKind := all.find? (·.name = name)

theorem mem_all (k : NodeKind) : k ∈ all := by cases k <;> decide

end NodeKind

inductive SyntaxTree where
  | node (kind : NodeKind) (text : Text) (span : Span) (children : List SyntaxTree)

namespace SyntaxTree

def kind : SyntaxTree → NodeKind
  | node kind _ _ _ => kind

def text : SyntaxTree → Text
  | node _ text _ _ => text

def span : SyntaxTree → Span
  | node _ _ span _ => span

def children : SyntaxTree → List SyntaxTree
  | node _ _ _ children => children

@[simp] theorem kind_node (k : NodeKind) (t : Text) (s : Span) (cs : List SyntaxTree) :
    (node k t s cs).kind = k := rfl

@[simp] theorem text_node (k : NodeKind) (t : Text) (s : Span) (cs : List SyntaxTree) :
    (node k t s cs).text = t := rfl

@[simp] theorem span_node (k : NodeKind) (t : Text) (s : Span) (cs : List SyntaxTree) :
    (node k t s cs).span = s := rfl

@[simp] theorem children_node (k : NodeKind) (t : Text) (s : Span) (cs : List SyntaxTree) :
    (node k t s cs).children = cs := rfl

mutual

/-- The number of nodes of a tree. -/
def size : SyntaxTree → Nat
  | node _ _ _ children => sizeAll children + 1

/-- The number of nodes of several trees. -/
def sizeAll : List SyntaxTree → Nat
  | [] => 0
  | t :: ts => t.size + sizeAll ts

end

end SyntaxTree
end LenSyntax
