/-!
# Positions in a character stream

A position is the line and column of a character, both counted from one in characters, with the
byte offset of its encoding counted from zero. Only a line feed starts a new line. Lines and
columns are 32-bit counters and offsets are 64-bit counters; a counter that reaches its largest
value stays there.
-/

set_option autoImplicit false

namespace StreamLexer

structure Position where
  line : Nat
  column : Nat
  offset : Nat
deriving DecidableEq, Repr

namespace Position

def maxCount : Nat := 0xFFFFFFFF

def maxOffset : Nat := 0xFFFFFFFFFFFFFFFF

theorem maxCount_eq : maxCount + 1 = UInt32.size := rfl

theorem maxOffset_eq : maxOffset + 1 = UInt64.size := rfl

def start : Position := ⟨1, 1, 0⟩

instance : Inhabited Position := ⟨start⟩

/-- The position just past `c`, when `c` stands at this position. -/
def past (p : Position) (c : Char) : Position :=
  let offset := min (p.offset + c.utf8Size) maxOffset
  if c = '\n' then ⟨min (p.line + 1) maxCount, 1, offset⟩
  else ⟨p.line, min (p.column + 1) maxCount, offset⟩

/-- The position just past a text that starts at this position. -/
def pastAll (p : Position) (text : List Char) : Position :=
  text.foldl past p

/-- Lines count first, then columns, then offsets. -/
instance : Ord Position where
  compare p q :=
    (compare p.line q.line).then ((compare p.column q.column).then (compare p.offset q.offset))

def render (p : Position) : String :=
  Nat.repr p.line ++ ":" ++ Nat.repr p.column

@[simp] theorem pastAll_nil (p : Position) : p.pastAll [] = p := rfl

@[simp] theorem pastAll_cons (p : Position) (c : Char) (text : List Char) :
    p.pastAll (c :: text) = (p.past c).pastAll text := rfl

theorem pastAll_append (p : Position) (left right : List Char) :
    p.pastAll (left ++ right) = (p.pastAll left).pastAll right := by
  simp [pastAll]

end Position

end StreamLexer
