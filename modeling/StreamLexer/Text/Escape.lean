/-!
# Escapes of string literals

A string literal stands between double quotes. Six characters have a written form of their own, a
backslash and one letter; every other character is written as itself. What a letter stands for and
how a character is written are decided apart from each other.
-/

set_option autoImplicit false

namespace StreamLexer.Escape

/-- The character that a letter stands for behind a backslash. -/
def meaningOf? (letter : Char) : Option Char :=
  match letter with
  | '"' => some '"'
  | '\\' => some '\\'
  | 'n' => some '\n'
  | 't' => some '\t'
  | 'r' => some '\r'
  | '0' => some '\x00'
  | _ => none

def encodeChar (c : Char) : List Char :=
  match c with
  | '"' => ['\\', '"']
  | '\\' => ['\\', '\\']
  | '\n' => ['\\', 'n']
  | '\t' => ['\\', 't']
  | '\r' => ['\\', 'r']
  | '\x00' => ['\\', '0']
  | c => [c]

def encode (content : List Char) : List Char :=
  content.flatMap encodeChar

def quote (content : List Char) : List Char :=
  '"' :: encode content ++ ['"']

end StreamLexer.Escape
