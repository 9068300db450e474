/-!
# Operators

The fifteen operators, of one or two characters each. A sign is not told apart from a sum or a
difference here.
-/

set_option autoImplicit false

namespace StreamLexer

inductive Operator where
  | logicalNot | multiply | divide | modulo | plus | minus | lessThan | lessOrEqual | greaterThan
  | greaterOrEqual | equal | notEqual | logicalAnd | logicalOr | assign
deriving DecidableEq, Repr

namespace Operator

/-- Every operator, in the order in which operators compare. -/
def all : List Operator :=
  [logicalNot, multiply, divide, modulo, plus, minus, lessThan, lessOrEqual, greaterThan,
   greaterOrEqual, equal, notEqual, logicalAnd, logicalOr, assign]

def spelling : Operator → String
  | logicalNot => "!"
  | multiply => "*"
  | divide => "/"
  | modulo => "%"
  | plus => "+"
  | minus => "-"
  | lessThan => "<"
  | lessOrEqual => "<="
  | greaterThan => ">"
  | greaterOrEqual => ">="
  | equal => "=="
  | notEqual => "!="
  | logicalAnd => "&&"
  | logicalOr => "||"
  | assign => "="

def ofSpelling? (text : String) : Option Operator :=
  match text with
  | "!" => some logicalNot
  | "*" => some multiply
  | "/" => some divide
  | "%" => some modulo
  | "+" => some plus
  | "-" => some minus
  | "<" => some lessThan
  | "<=" => some lessOrEqual
  | ">" => some greaterThan
  | ">=" => some greaterOrEqual
  | "==" => some equal
  | "!=" => some notEqual
  | "&&" => some logicalAnd
  | "||" => some logicalOr
  | "=" => some assign
  | _ => none

instance : Ord Operator where
  compare a b := compare (all.idxOf a) (all.idxOf b)

theorem mem_all (operator : Operator) : operator ∈ all := by
  cases operator <;> decide

theorem ofSpelling?_spelling (operator : Operator) :
    ofSpelling? operator.spelling = some operator := by
  cases operator <;> decide +kernel

theorem spelling_of_ofSpelling? {text : String} {operator : Operator}
    (h : ofSpelling? text = some operator) : operator.spelling = text := by
  simp only [ofSpelling?] at h
  split at h <;> cases h <;> rfl

end Operator

end StreamLexer
