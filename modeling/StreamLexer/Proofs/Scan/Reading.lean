import StreamLexer.Scan.Token

/-! # What a scanner reads from a text

A reading is the outcome of a scanner on a text that is known as a whole: the value or the fault,
the characters taken and those left. No position occurs in it. A fault stands behind a number of
characters counted from the start of the token, almost always none; only an escape is faulted where
its backslash stands.

The readings below say token by token what the scanners do with a text. That they do so in front of
every stream is proved apart from them.
-/

set_option autoImplicit false

namespace StreamLexer

open LexError (Cause)

/-- A cause, behind the characters `before` of its token. -/
structure Fault where
  cause : Cause
  before : List Char
deriving DecidableEq, Repr

def Fault.located (start : Position) (fault : Fault) : LexError :=
  ⟨fault.cause, start.pastAll fault.before⟩

structure Reading (α : Type) where
  result : Except Fault α
  taken : List Char
  rest : List Char

namespace Reading

variable {α β : Type}

def done (a : α) (rest : List Char) : Reading α := ⟨.ok a, [], rest⟩

/-- A fault at the start of the token. -/
def fail (cause : Cause) (rest : List Char) : Reading α := ⟨.error ⟨cause, []⟩, [], rest⟩

def push (c : Char) (reading : Reading α) : Reading α :=
  { reading with taken := c :: reading.taken }

def bind (reading : Reading α) (next : α → List Char → Reading β) : Reading β :=
  match reading.result with
  | .error fault => ⟨.error fault, reading.taken, reading.rest⟩
  | .ok a =>
    let last := next a reading.rest
    ⟨last.result, reading.taken ++ last.taken, last.rest⟩

def map (f : α → β) (reading : Reading α) : Reading β :=
  reading.bind fun a rest => done (f a) rest

/-- Goes on behind `expected` if the text starts with it. -/
def accept (expected : Char) (text : List Char) (yes : List Char → Reading α) (no : Reading α) :
    Reading α :=
  match text with
  | [] => no
  | c :: rest => if c = expected then (yes rest).push c else no

/-- Nothing is taken, and a length beyond the limit is a fault. -/
def check (limit : Option Nat) (length : Nat) (rest : List Char) : Reading Unit :=
  match limit with
  | none => done () rest
  | some limit => if limit < length then fail (.literalTooLong limit) rest else done () rest

@[simp] theorem check_taken (limit : Option Nat) (length : Nat) (rest : List Char) :
    (check limit length rest).taken = [] := by
  simp only [check]
  split
  · rfl
  · split <;> rfl

@[simp] theorem check_rest (limit : Option Nat) (length : Nat) (rest : List Char) :
    (check limit length rest).rest = rest := by
  simp only [check]
  split
  · rfl
  · split <;> rfl

theorem ok_of_bind {reading : Reading α} {next : α → List Char → Reading β} {b : β}
    (h : (reading.bind next).result = .ok b) :
    ∃ a, reading.result = .ok a ∧ (next a reading.rest).result = .ok b := by
  obtain ⟨_ | a, taken, rest⟩ := reading
  · cases h
  · exact ⟨a, rfl, h⟩

theorem ok_of_map {reading : Reading α} {f : α → β} {b : β}
    (h : (reading.map f).result = .ok b) : ∃ a, reading.result = .ok a ∧ f a = b := by
  obtain ⟨a, hresult, hdone⟩ := ok_of_bind h
  exact ⟨a, hresult, Except.ok.inj hdone⟩

/-- The reading behind characters that were taken before it. -/
def behind (taken : List Char) (reading : Reading α) : Reading α :=
  { reading with taken := taken ++ reading.taken }

theorem bind_ok (a : α) (taken rest : List Char) (next : α → List Char → Reading β) :
    bind ⟨.ok a, taken, rest⟩ next = behind taken (next a rest) := rfl

theorem behind_done (taken : List Char) (a : α) (rest : List Char) :
    behind taken (done a rest) = ⟨.ok a, taken, rest⟩ := by
  rw [behind, done, List.append_nil]

theorem behind_push_behind (taken more : List Char) (c : Char) (reading : Reading α) :
    behind taken ((behind more reading).push c) = behind (taken ++ c :: more) reading := by
  simp only [behind, push, List.append_assoc, List.cons_append]

theorem bind_error (fault : Fault) (taken rest : List Char) (next : α → List Char → Reading β) :
    bind ⟨.error fault, taken, rest⟩ next = ⟨.error fault, taken, rest⟩ := rfl

@[simp] theorem map_ok (a : α) (taken rest : List Char) (f : α → β) :
    map f ⟨.ok a, taken, rest⟩ = ⟨.ok (f a), taken, rest⟩ := by
  rw [map, bind_ok, behind_done]

@[simp] theorem map_map {γ : Type} (reading : Reading α) (f : α → β) (g : β → γ) :
    (reading.map f).map g = reading.map fun a => g (f a) := by
  obtain ⟨_ | a, taken, rest⟩ := reading
  · rfl
  · rw [map_ok, map_ok, map_ok]

@[simp] theorem map_behind (taken : List Char) (reading : Reading α) (f : α → β) :
    (behind taken reading).map f = behind taken (reading.map f) := by
  obtain ⟨_ | a, more, rest⟩ := reading
  · rfl
  · rw [map_ok, behind, map_ok]
    rfl

@[simp] theorem map_taken (reading : Reading α) (f : α → β) :
    (reading.map f).taken = reading.taken := by
  obtain ⟨_ | a, taken, rest⟩ := reading
  · rfl
  · rw [map_ok]

@[simp] theorem push_taken (c : Char) (reading : Reading α) :
    (reading.push c).taken = c :: reading.taken := rfl

theorem accept_of_head (expected : Char) (rest : List Char) (yes : List Char → Reading α)
    (no : Reading α) : accept expected (expected :: rest) yes no = (yes rest).push expected :=
  if_pos rfl

theorem accept_of_not {expected : Char} {text : List Char} (h : expected ∉ text.head?)
    (yes : List Char → Reading α) (no : Reading α) : accept expected text yes no = no := by
  cases text with
  | nil => rfl
  | cons c rest =>
    have hc : ¬c = expected := fun hc => h (by simp [hc])
    exact if_neg hc

theorem bind_done (a : α) (rest : List Char) (next : α → List Char → Reading β) :
    (done a rest).bind next = next a rest := rfl

theorem push_bind (c : Char) (reading : Reading α) (next : α → List Char → Reading β) :
    (reading.push c).bind next = (reading.bind next).push c := by
  obtain ⟨_ | a, taken, rest⟩ := reading <;> rfl

theorem accept_bind (expected : Char) (text : List Char) (yes : List Char → Reading α)
    (no : Reading α) (next : α → List Char → Reading β) :
    (accept expected text yes no).bind next =
      accept expected text (fun rest => (yes rest).bind next) (no.bind next) := by
  cases text with
  | nil => rfl
  | cons c rest =>
    simp only [accept]
    split
    · exact push_bind c _ next
    · rfl

/-- The longest run of characters of the class `p`, in a literal that has `count` characters. -/
def span (limit : Option Nat) (p : Char → Bool) : (count : Nat) → List Char → Reading (List Char)
  | _, [] => done [] []
  | count, c :: rest =>
    if p c then
      ((check limit (count + 1) rest).bind fun _ _ =>
        (span limit p (count + 1) rest).map (c :: ·)).push c
    else done [] (c :: rest)

/-- What the letter behind a backslash stands for, when the backslash stands behind `before`. -/
def escaped (before : List Char) (letter : Char) (rest : List Char) : Reading Char :=
  (match Escape.meaningOf? letter with
    | none => ⟨.error ⟨.invalidEscape letter, before⟩, [], rest⟩
    | some meaning => done meaning rest : Reading Char).push letter

@[simp] theorem escaped_taken (before : List Char) (letter : Char) (rest : List Char) :
    (escaped before letter rest).taken = [letter] := by
  simp only [escaped]
  split <;> rfl

@[simp] theorem escaped_rest (before : List Char) (letter : Char) (rest : List Char) :
    (escaped before letter rest).rest = rest := by
  simp only [escaped]
  split <;> rfl

/-- The elements of a string up to its closing quote, behind the characters `before` of the
token. -/
def content (limit : Option Nat) :
    (before : List Char) → (count : Nat) → List Char → Reading (List Char)
  | _, _, [] => fail .unterminatedString []
  | before, count, c :: rest =>
    if c = '"' then (done [] rest).push c
    else if c = '\\' then
      match rest with
      | [] => (fail .unterminatedString []).push c
      | letter :: rest =>
        ((escaped before letter rest).bind fun meaning _ =>
          (check limit (count + 1) rest).bind fun _ _ =>
            (content limit (before ++ [c, letter]) (count + 1) rest).map (meaning :: ·)).push c
    else
      ((check limit (count + 1) rest).bind fun _ _ =>
        (content limit (before ++ [c]) (count + 1) rest).map (c :: ·)).push c

section Content

variable {limit : Option Nat} {before rest : List Char} {count : Nat} {c : Char}

theorem content_quote : content limit before count ('"' :: rest) = (done [] rest).push '"' := by
  rw [content.eq_def]
  dsimp only
  rw [if_pos rfl]

theorem content_plain (hquote : c ≠ '"') (hescape : c ≠ '\\') :
    content limit before count (c :: rest) =
      ((check limit (count + 1) rest).bind fun _ _ =>
        (content limit (before ++ [c]) (count + 1) rest).map (c :: ·)).push c := by
  rw [content.eq_def]
  dsimp only
  rw [if_neg hquote, if_neg hescape]

theorem content_escape {letter : Char} :
    content limit before count ('\\' :: letter :: rest) =
      ((escaped before letter rest).bind fun meaning _ =>
        (check limit (count + 1) rest).bind fun _ _ =>
          (content limit (before ++ ['\\', letter]) (count + 1) rest).map (meaning :: ·)).push
        '\\' := by
  rw [content.eq_def]
  dsimp only
  rw [if_neg (by decide), if_pos rfl]

end Content

def string (limit : Option Nat) (rest : List Char) : Reading Token :=
  ((content limit ['"'] 0 rest).map fun content => .string (String.ofList content)).push '"'

def ofDigits (digits rest : List Char) : Reading Token :=
  if Decimal.value digits ≤ 0x7FFFFFFF then done (.int (Int32.ofNat (Decimal.value digits))) rest
  else fail (.numberOverflow (String.ofList digits)) rest

def ofFloat (text : List Char) (value : Option Binary32) (rest : List Char) : Reading Token :=
  match value with
  | some value => done (.float value) rest
  | none => fail (.numberOverflow (String.ofList text)) rest

/-- What follows the point of a number. -/
def fraction (limit : Option Nat) (whole rest : List Char) : Reading Token :=
  if rest.head?.any CharClass.isDigit then
    (span limit CharClass.isDigit (whole.length + 1) rest).bind fun fraction rest =>
      ofFloat (whole ++ '.' :: fraction) (Binary32.ofDecimal? whole fraction) rest
  else fail (.malformedNumber (String.ofList (whole ++ ['.']))) rest

def number (limit : Option Nat) (text : List Char) : Reading Token :=
  (span limit CharClass.isDigit 0 text).bind fun whole rest =>
    accept '.' rest (fraction limit whole) (ofDigits whole rest)

end Reading

/-- The token of a word. -/
def Token.ofWord (text : List Char) : Token :=
  match Keyword.ofSpelling? (String.ofList text) with
  | some reserved => .keyword reserved
  | none => .identifier (String.ofList text)

namespace Reading

def word (limit : Option Nat) (text : List Char) : Reading Token :=
  (span limit CharClass.isWordPart 0 text).map Token.ofWord

/-- The character that makes an operator of two characters out of the operator start `c`. -/
def partner? (c : Char) : Option Char :=
  match c with
  | '<' | '>' | '=' | '!' => some '='
  | '&' => some '&'
  | '|' => some '|'
  | _ => none

/-- The spelling of the operator that starts with `c`. -/
def operatorText (c : Char) (rest : List Char) : Reading (List Char) :=
  match partner? c with
  | none => done [c] rest
  | some second => accept second rest (done [c, second]) (done [c] rest)

def ofSpelling (text rest : List Char) : Reading Token :=
  match Operator.ofSpelling? (String.ofList text) with
  | some operator => done (.operator operator) rest
  | none => fail (.unrecognizedOperator (String.ofList text)) rest

def operator (c : Char) (rest : List Char) : Reading Token :=
  ((operatorText c rest).bind ofSpelling).push c

/-- The token that starts with `c`. -/
def token (limit : Option Nat) (c : Char) (rest : List Char) : Reading Token :=
  if c = '"' then string limit rest
  else if CharClass.isDigit c then number limit (c :: rest)
  else if CharClass.isWordStart c then word limit (c :: rest)
  else if CharClass.isOperatorStart c then operator c rest
  else (fail (.unrecognizedCharacter c) rest).push c

def blanks (text : List Char) : Reading Unit :=
  (span none CharClass.isBlank 0 text).map fun _ => ()

end Reading

end StreamLexer
