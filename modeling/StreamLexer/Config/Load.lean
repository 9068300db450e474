import StreamLexer.Config.Basic
import StreamLexer.Text.Utf8
import StreamLexer.Toml.Document

/-!
# Configurations as TOML

A configuration is written as up to three pairs. Read back, a pair that is missing stands for its
default, other names are passed over, and the settings have to be usable.
-/

set_option autoImplicit false

namespace StreamLexer

namespace Config

inductive LoadError where
  | missingFile
  | notUtf8
  | malformed
  | unusable (defect : Defect)
deriving DecidableEq, Repr

def natural : Toml.Node → Option Nat
  | .integer value => if 0 ≤ value then some value.toNat else none
  | _ => none

def boolean : Toml.Node → Option Bool
  | .boolean value => some value
  | _ => none

/-- The value of a setting, or its default if it is missing; nothing if it is no such value. -/
def setting {α : Type} (table : Toml.Entries) (name : String) (read : Toml.Node → Option α)
    (standard : α) : Option α :=
  match table.get? name with
  | none => some standard
  | some node => read node

def ofTable? (table : Toml.Entries) : Option Config := do
  let standard : Config := {}
  return {
    bufferCapacity := ← setting table "buffer_capacity" natural standard.bufferCapacity
    skipMark := ← setting table "skip_bom" boolean standard.skipMark
    maxLiteralLength :=
      ← setting table "max_literal_len" (fun node => (natural node).map some)
        standard.maxLiteralLength }

def validate (config : Config) : Except LoadError Unit :=
  match config.defect? with
  | none => .ok ()
  | some defect => .error (.unusable defect)

def ofToml (text : List Char) : Except LoadError Config :=
  match Toml.parse text >>= ofTable? with
  | none => .error .malformed
  | some config => do
    config.validate
    return config

def load : Option (List UInt8) → Except LoadError Config
  | none => .error .missingFile
  | some bytes =>
    match Utf8.decode? bytes with
    | none => .error .notUtf8
    | some text => ofToml text

def toToml? (config : Config) : Option String :=
  let limit := config.maxLiteralLength
  let fits (n : Nat) : Bool := n ≤ Toml.maxInteger
  if fits config.bufferCapacity && limit.all fits then
    some ("buffer_capacity = " ++ Nat.repr config.bufferCapacity ++ "\n" ++
      "skip_bom = " ++ (if config.skipMark then "true" else "false") ++ "\n" ++
      (match limit with
        | none => ""
        | some n => "max_literal_len = " ++ Nat.repr n ++ "\n"))
  else none

/-- The wording of an error, where this library words it: what is wrong with a text that is no
configuration is left to its reader. -/
def LoadError.message? : LoadError → Option String
  | missingFile => some "IO error: No such file or directory (os error 2)"
  | notUtf8 => some "IO error: stream did not contain valid UTF-8"
  | malformed => none
  | unusable defect => some ("Invalid configuration: " ++ defect.message)

end Config

end StreamLexer
