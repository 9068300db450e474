/-!
# Keywords

The reserved words of the state-machine language, with one spelling each. Spellings are exact and
case-sensitive.
-/

set_option autoImplicit false

namespace StreamLexer

inductive Keyword where
  | boolKw | breakKw | caseKw | continueKw | defaultKw | elseKw | enumKw | falseKw | floatKw
  | functionKw | ifKw | mutatorKw | stateKw | stringKw | structKw | switchKw | trueKw | varKw
  | whileKw
deriving DecidableEq, Repr

namespace Keyword

/-- Every keyword, in the order in which keywords compare. -/
def all : List Keyword :=
  [boolKw, breakKw, caseKw, continueKw, defaultKw, elseKw, enumKw, falseKw, floatKw, functionKw,
   ifKw, mutatorKw, stateKw, stringKw, structKw, switchKw, trueKw, varKw, whileKw]

def spelling : Keyword → String
  | boolKw => "bool"
  | breakKw => "break"
  | caseKw => "case"
  | continueKw => "continue"
  | defaultKw => "default"
  | elseKw => "else"
  | enumKw => "enum"
  | falseKw => "false"
  | floatKw => "float"
  | functionKw => "function"
  | ifKw => "if"
  | mutatorKw => "mutator"
  | stateKw => "state"
  | stringKw => "string"
  | structKw => "struct"
  | switchKw => "switch"
  | trueKw => "true"
  | varKw => "var"
  | whileKw => "while"

def ofSpelling? (text : String) : Option Keyword :=
  match text with
  | "bool" => some boolKw
  | "break" => some breakKw
  | "case" => some caseKw
  | "continue" => some continueKw
  | "default" => some defaultKw
  | "else" => some elseKw
  | "enum" => some enumKw
  | "false" => some falseKw
  | "float" => some floatKw
  | "function" => some functionKw
  | "if" => some ifKw
  | "mutator" => some mutatorKw
  | "state" => some stateKw
  | "string" => some stringKw
  | "struct" => some structKw
  | "switch" => some switchKw
  | "true" => some trueKw
  | "var" => some varKw
  | "while" => some whileKw
  | _ => none

instance : Ord Keyword where
  compare a b := compare (all.idxOf a) (all.idxOf b)

theorem mem_all (keyword : Keyword) : keyword ∈ all := by
  cases keyword <;> decide

theorem ofSpelling?_spelling (keyword : Keyword) : ofSpelling? keyword.spelling = some keyword := by
  cases keyword <;> decide +kernel

theorem spelling_of_ofSpelling? {text : String} {keyword : Keyword}
    (h : ofSpelling? text = some keyword) : keyword.spelling = text := by
  simp only [ofSpelling?] at h
  split at h <;> cases h <;> rfl

end Keyword

end StreamLexer
