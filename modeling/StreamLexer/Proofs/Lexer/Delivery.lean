import StreamLexer.Proofs.Lexer.Relocation

/-! # The delivery of a stream cannot be observed

How a stream is cut into reads, where reads are interrupted and how large the buffer is can be seen
by no call to a lexer or to a cursor. Lexers are compared by their views, since no call reads past
an empty lookahead. A cursor may be advanced there all the same, so cursors are compared by all the
signals of their streams.
-/

set_option autoImplicit false

namespace StreamLexer

variable {α : Type}

@[simp] theorem LexError.relocate_id (error : LexError) : error.relocate id = error := rfl

@[simp] theorem Placed.relocate_id (placed : Placed) : placed.relocate id = placed := rfl

@[simp] theorem Placed.map_relocate_id (placed : Option Placed) :
    placed.map (Placed.relocate id) = placed := by
  cases placed <;> rfl

theorem relocateResult_id {g : α → α} (hg : ∀ a, g a = a) (result : Except LexError α) :
    relocateResult id g result = result := by
  cases result with
  | error error => rfl
  | ok a => exact congrArg Except.ok (hg a)

theorem Lexer.Item.relocate_id (item : Item) : item.relocate id = item := by
  simp only [Item.relocate]
  rw [relocateResult_id Placed.relocate_id]
  rfl

theorem Lexer.Answer.relocate_id (answer : Answer) : answer.relocate id = answer := by
  cases answer with
  | token result => exact congrArg token (relocateResult_id (fun _ => rfl) result)
  | placed result => exact congrArg placed (relocateResult_id Placed.map_relocate_id result)
  | item result =>
    cases result with
    | none => rfl
    | some result =>
      exact congrArg (fun result => item (some result)) (relocateResult_id (fun _ => rfl) result)
  | items list =>
    have hlist : list.map (Item.relocate id) = list := by
      rw [funext Item.relocate_id, List.map_id']
    exact congrArg items hlist
  | count n => rfl
  | config settings => rfl
  | nothing => rfl

theorem View.simulation_eq : View.Simulation id Eq where
  failed h := h ▸ rfl
  position h := h ▸ rfl
  fail h := h ▸ rfl
  next h := h ▸ rfl
  result := by
    rintro v w rfl
    exact (relocateResult_id Placed.map_relocate_id _).symm

namespace Lexer

variable {V : View → View → Prop} {l m : Lexer}

/-- The lexer that a session leaves behind. -/
def after (lexer : Lexer) : List Request → Lexer
  | [] => lexer
  | request :: rest => after (lexer.answer request).lexer rest

/-- What can be seen once a request has been answered: the answer, the position, the start of the
last token and the phase. -/
def observed (call : Call Answer) : Answer × Position × Position × Phase :=
  (call.result, call.lexer.position, call.lexer.tokenStart, call.lexer.phase)

theorem Related.after {f : Position → Position} (hV : View.Simulation f V) (h : Related V l m)
    {requests : List Request} (hrequests : .config ∉ requests) :
    Related V (l.after requests) (m.after requests) := by
  induction requests generalizing l m with
  | nil => exact h
  | cons request rest ih =>
    obtain ⟨hne, hrest⟩ := List.ne_and_not_mem_of_not_mem_cons hrequests
    exact ih (h.answer hV hne.symm).2 hrest

theorem ready_new (reader : Reader) (config : Config) : (new reader config).Ready := fun _ => rfl

/-- New lexers in front of the same signals are in the same state, as far as their calls go. -/
theorem related_new {first second : Reader} {a b : Config}
    (hsignals : first.signals = second.signals) (hmark : a.skipMark = b.skipMark)
    (hlimit : a.maxLiteralLength = b.maxLiteralLength) :
    Related Eq (new first a) (new second b) where
  left := ready_new first a
  right := ready_new second b
  views := by
    have halike := Source.alike_new hsignals a.bufferCapacity b.bufferCapacity
    have htape : (new first a).tape = (new second b).tape := halike.tape_eq .start
    simp only [view, htape]
    simp only [new, position, Cursor.new, hmark, hlimit]

/-- Related lexers cannot be told apart if what can be seen of them is the same. -/
theorem Related.observed_of (hV : View.Simulation id V)
    (hseen : ∀ {v w : View}, V v w → w.tokenStart = v.tokenStart ∧ w.phase = v.phase)
    (h : Related V l m) {requests : List Request} (hrequests : .config ∉ requests) :
    (l.session requests).map observed = (m.session requests).map observed := by
  rw [← List.forall₂_eq_eq_eq, List.forall₂_map_left_iff, List.forall₂_map_right_iff]
  apply (h.session hV hrequests).imp
  rintro c d ⟨hresult, hlexer⟩
  have hposition : d.lexer.position = c.lexer.position := hV.position hlexer.views
  obtain ⟨hstart, hphase⟩ : d.lexer.tokenStart = c.lexer.tokenStart ∧
      d.lexer.phase = c.lexer.phase := hseen hlexer.views
  rw [Answer.relocate_id] at hresult
  simp only [Lexer.observed, hresult, hposition, hstart, hphase]

theorem Related.observed (h : Related Eq l m) {requests : List Request}
    (hrequests : .config ∉ requests) :
    (l.session requests).map observed = (m.session requests).map observed :=
  h.observed_of View.simulation_eq (fun heq => heq ▸ ⟨rfl, rfl⟩) hrequests

end Lexer

namespace Cursor

open Stateful

/-- What can be seen once a cursor has answered: the answer, the lookahead and the position. -/
def observed (entry : Except ReadError Answer × Cursor) :
    Except ReadError Answer × Option Char × Position :=
  (entry.1, entry.2.current, entry.2.position)

theorem simulates_answer (request : Request) :
    Simulates Alike (answer request) (answer request) := by
  cases request with
  | advance => exact Simulates.bind simulates_advance fun _ => Simulates.pure _
  | take => exact Simulates.bind simulates_take fun _ => Simulates.pure _
  | accept expected => exact Simulates.bind (simulates_accept expected) fun _ => Simulates.pure _
  | currentIs p =>
    apply simulates_get_bind
    intro c d h
    have hlookahead : c.currentIs p = d.currentIs p := by
      simp only [currentIs]
      rw [h.current]
    rw [hlookahead]
    exact Simulates.pure _

theorem Alike.observed {c d : Cursor} (h : Alike c d) (requests : List Request) :
    (c.session requests).map observed = (d.session requests).map observed := by
  induction requests generalizing c d with
  | nil => rfl
  | cons request rest ih =>
    have hanswer := simulates_answer request c d h
    simp only [session]
    generalize answer request c = x at hanswer ⊢
    generalize answer request d = y at hanswer ⊢
    cases hanswer with
    | ok result hnext =>
      simp only [List.map_cons, Cursor.observed, hnext.current, hnext.position, ih hnext]
    | error error hnext =>
      simp only [List.map_cons, Cursor.observed, hnext.current, hnext.position, ih hnext]

end Cursor

/-- Readers with the same signals cannot be told apart, whatever the capacities of the buffers in
front of them: not by the calls to lexers that agree in their other settings, and not by cursors. -/
theorem Reader.indistinguishable_of_signals {first second : Reader}
    (hsignals : first.signals = second.signals) :
    (∀ a b : Config, a.skipMark = b.skipMark → a.maxLiteralLength = b.maxLiteralLength →
      ∀ requests : List Lexer.Request, .config ∉ requests →
        ((Lexer.new first a).session requests).map Lexer.observed =
            ((Lexer.new second b).session requests).map Lexer.observed ∧
          ((Lexer.new first a).after requests).tokenize.result =
            ((Lexer.new second b).after requests).tokenize.result) ∧
      ∀ (a b : Nat) (requests : List Cursor.Request),
        ((Cursor.new first a).session requests).map Cursor.observed =
          ((Cursor.new second b).session requests).map Cursor.observed := by
  constructor
  · intro a b hmark hlimit requests hrequests
    have hrelated := Lexer.related_new hsignals hmark hlimit
    have hafter := hrelated.after View.simulation_eq hrequests
    refine ⟨hrelated.observed hrequests, ?_⟩
    have htokens := hafter.tokenize View.simulation_eq
    exact (htokens.trans (relocateResult_id (fun _ => rfl) _)).symm
  · intro a b requests
    exact (Cursor.alike_new hsignals a b).observed requests

/-- Two words around a string, cut inside the string's one character and interrupted there, and
then a failure with more bytes behind it. -/
def Reader.inPieces : Reader :=
  ⟨[.data [0x78, 0x22], .fail ⟨.interrupted, none⟩, .data [0xC3], .fail ⟨.interrupted, none⟩,
    .data [0xA9, 0x22], .data [0x79], .fail ⟨.connectionReset, none⟩, .data [], .data [0x7A]]⟩

/-- The same signals in the fewest reads. -/
def Reader.inOnePiece : Reader :=
  ⟨[.data [0x78, 0x22, 0xC3, 0xA9, 0x22, 0x79], .fail ⟨.connectionReset, none⟩, .data [],
    .data [0x7A]]⟩

theorem Reader.indistinguishable_inPieces :
    inPieces.signals = inOnePiece.signals ∧
      ((Lexer.new inPieces ⟨0, true, some 9⟩).session [.next, .nextPlaced, .count]).map
          Lexer.observed =
        ((Lexer.new inOnePiece ⟨8192, true, some 9⟩).session [.next, .nextPlaced, .count]).map
          Lexer.observed ∧
      ((Cursor.new inPieces 2).session [.take, .advance, .accept '"']).map Cursor.observed =
        ((Cursor.new inOnePiece 0).session [.take, .advance, .accept '"']).map Cursor.observed := by
  have hsignals : inPieces.signals = inOnePiece.signals := by decide
  obtain ⟨hlexers, hcursors⟩ := Reader.indistinguishable_of_signals hsignals
  have hsession := hlexers ⟨0, true, some 9⟩ ⟨8192, true, some 9⟩ rfl rfl
    [.next, .nextPlaced, .count] (by decide)
  exact ⟨hsignals, hsession.1, hcursors 2 0 [.take, .advance, .accept '"']⟩

end StreamLexer
