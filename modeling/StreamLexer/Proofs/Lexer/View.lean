import StreamLexer.Lexer.Basic
import StreamLexer.Proofs.Scan.Token

/-! # What a call to a lexer depends on

A view holds all of a lexer that its calls can depend on, with the tape in place of the stream. One
call takes the view of a lexer to the view of the lexer after it (`Lexer.seen_nextPlaced`), so two
lexers with the same view give the same results for good.
-/

set_option autoImplicit false

namespace StreamLexer

open Scan

structure View where
  limit : Option Nat
  skipMark : Bool
  phase : Phase
  failed : Bool
  tokenStart : Position
  position : Position
  tape : Tape
deriving DecidableEq, Repr

namespace View

variable {α : Type} {view : View}

/-- A reading takes place in a token that starts at `start`. -/
def read (start : Position) (reading : Reading α) (view : View) : Except LexError α × View :=
  (reading.outcome start view.position view.tape.stop,
    { view with
      position := view.position.pastAll reading.taken
      tape := (⟨reading.rest, view.tape.stop⟩ : Tape).settled })

/-- The first character is read, where the stream does not fail at once. -/
def opening (view : View) : Except LexError Unit :=
  match view.tape with
  | ⟨[], some error⟩ => .error ⟨.streamRead error, view.position⟩
  | _ => .ok ()

def begin (view : View) : Except LexError Unit × View :=
  match view.phase with
  | .started => (.ok (), view)
  | .fresh =>
    let next := { view with phase := .started, tape := view.tape.settled }
    match view.opening with
    | .error error => (.error error, next)
    | .ok () =>
      if view.skipMark && view.tape.text.head? = some Lexer.byteOrderMark then
        next.read .start ⟨.ok (), [Lexer.byteOrderMark], view.tape.text.tail⟩
      else (.ok (), next)

def seek (view : View) : Except LexError Unit × View :=
  match view.begin with
  | (.error error, next) => (.error error, next)
  | (.ok (), next) => next.read .start (Reading.blanks next.tape.text)

def scanHere (view : View) : Except LexError (Option Placed) × View :=
  let next := { view with tokenStart := view.position }
  match view.tape.text with
  | [] => (.ok none, next)
  | c :: rest =>
    let (result, last) := next.read view.position (Reading.token view.limit c rest)
    (result.map fun token => some ⟨token, view.position⟩, last)

def next (view : View) : Except LexError (Option Placed) × View :=
  match view.seek with
  | (.error error, next) => (.error error, next)
  | (.ok (), next) => next.scanHere

theorem text_of_opening {error : LexError} (h : view.opening = .error error) :
    view.tape.text = [] := by
  simp only [opening] at h
  split at h
  · rename_i htape
    rw [htape]
  · cases h

theorem begin_of_nil (hphase : view.phase = .fresh) (htext : view.tape.text = []) :
    view.begin = (view.opening, { view with phase := .started, tape := .ended }) := by
  have hsettled : view.tape.settled = .ended := if_pos htext
  rw [View.begin, hphase, htext, hsettled]
  cases view.opening with
  | error first => rfl
  | ok first => simp

theorem begin_of_cons {c : Char} {rest : List Char} (hphase : view.phase = .fresh)
    (htext : view.tape.text = c :: rest) :
    view.begin = if view.skipMark && c = Lexer.byteOrderMark then
      View.read .start ⟨.ok (), [Lexer.byteOrderMark], rest⟩ { view with phase := .started }
    else (.ok (), { view with phase := .started }) := by
  have hsettled : view.tape.settled = view.tape := if_neg (by simp [htext])
  have hopening : view.opening = .ok () := by
    rw [opening]
    split
    · rename_i htape
      rw [htape] at htext
      cases htext
    · rfl
  rw [View.begin, hphase, htext, hsettled, hopening]
  simp

theorem next_of_seek_ok (h : view.seek.1 = .ok ()) : view.next = view.seek.2.scanHere := by
  rw [next]
  generalize view.seek = sought at h
  obtain ⟨_ | ⟨⟩, next⟩ := sought
  · cases h
  · rfl

theorem next_of_seek_error {error : LexError} (h : view.seek.1 = .error error) :
    view.next = (.error error, view.seek.2) := by
  rw [next]
  generalize view.seek = sought at h
  obtain ⟨_ | ⟨⟩, next⟩ := sought
  · cases h
    rfl
  · cases h

/-! The limit stays as it is. -/

theorem limit_begin (view : View) : view.begin.2.limit = view.limit := by
  rw [begin]
  cases view.phase with
  | started => rfl
  | fresh =>
    dsimp only
    cases view.opening with
    | error error => rfl
    | ok first =>
      dsimp only
      split <;> rfl

theorem limit_seek (view : View) : view.seek.2.limit = view.limit := by
  have hbegin := view.limit_begin
  rw [seek]
  generalize view.begin = begun at hbegin
  obtain ⟨_ | ⟨⟩, next⟩ := begun <;> exact hbegin

theorem limit_scanHere (view : View) : view.scanHere.2.limit = view.limit := by
  rw [scanHere]
  cases view.tape.text <;> rfl

theorem limit_next (view : View) : view.next.2.limit = view.limit := by
  cases hseek : view.seek.1 with
  | error error => rw [next_of_seek_error hseek, limit_seek]
  | ok first => rw [next_of_seek_ok hseek, limit_scanHere, limit_seek]

end View

namespace Lexer

/-- The lookahead is empty before the first character is read. -/
def Ready (lexer : Lexer) : Prop :=
  lexer.phase = .fresh → lexer.cursor.current = none

/-- The stream in front of a lexer; before the first character is read it is all of the stream. -/
def tape (lexer : Lexer) : Tape :=
  match lexer.phase with
  | .fresh => lexer.cursor.source.tape lexer.cursor.position
  | .started => lexer.cursor.tape

def view (lexer : Lexer) : View where
  limit := lexer.config.maxLiteralLength
  skipMark := lexer.config.skipMark
  phase := lexer.phase
  failed := lexer.failed
  tokenStart := lexer.tokenStart
  position := lexer.position
  tape := lexer.tape

end Lexer

/-- What is to be seen of a call: its result, and the view after it. -/
def Call.seen {α : Type} (call : Call α) : α × View :=
  (call.result, call.lexer.view)

namespace Lexer

variable {α : Type} {lexer : Lexer}

theorem tape_of_started (h : lexer.phase = .started) : lexer.tape = lexer.cursor.tape := by
  rw [tape, h]

/-- A scanner that follows a reading takes the view where the reading takes it. -/
theorem perform_follows {m : Scan α} {start : Position} {reading : Reading α}
    (hphase : lexer.phase = .started) (h : Follows start m lexer.cursor reading) :
    ((perform m lexer).1, (perform m lexer).2.view) = lexer.view.read start reading ∧
      (perform m lexer).2.phase = .started := by
  obtain ⟨hsplit, next, hrun, hposition, htape⟩ := h
  have hperform : perform m lexer = (reading.outcome start lexer.cursor.position
      lexer.cursor.tape.stop, { lexer with cursor := next }) := by
    simp only [perform]
    rw [hrun]
    cases reading.outcome start lexer.cursor.position lexer.cursor.tape.stop <;> rfl
  rw [hperform]
  refine ⟨?_, hphase⟩
  simp only [View.read, view, position, tape, hphase, hposition, htape]

theorem perform_first (hready : lexer.Ready) (hphase : lexer.phase = .fresh) :
    ∃ next : Lexer, perform step { lexer with phase := .started } = (lexer.view.opening, next) ∧
      next.view = { lexer.view with phase := .started, tape := lexer.tape.settled } := by
  have hposition : lexer.cursor.nextPosition = lexer.cursor.position := by
    rw [Cursor.nextPosition, hready hphase]
  obtain ⟨next, hadvance, hnext, hsettled⟩ := lexer.cursor.advance_tape
  have htape : lexer.tape = lexer.cursor.source.tape lexer.cursor.position := by
    rw [Lexer.tape, hphase]
  rw [hposition, ← htape] at hadvance hsettled
  refine ⟨{ lexer with phase := .started, cursor := next }, ?_, ?_⟩
  · simp only [perform, step, located, View.opening]
    rw [hadvance]
    change _ = ((match lexer.tape with
      | ⟨[], some error⟩ => .error ⟨.streamRead error, lexer.position⟩
      | _ => .ok () : Except LexError Unit), _)
    obtain ⟨_ | ⟨c, rest⟩, _ | stop⟩ := lexer.tape <;> rfl
  · simp only [view, position, Lexer.tape, hnext, hposition, hsettled, hphase]

/-- The lexer that has read its first character has all of the text in front of it. -/
theorem head?_of_first {next : Lexer}
    (hseen : next.view = { lexer.view with phase := .started, tape := lexer.tape.settled }) :
    next.config.skipMark = lexer.view.skipMark ∧
      next.cursor.tape.text = lexer.view.tape.text ∧
      next.cursor.current = lexer.view.tape.text.head? := by
  have hphase : next.phase = .started := congrArg View.phase hseen
  have htext : next.cursor.tape.text = lexer.view.tape.text := by
    rw [← tape_of_started hphase]
    exact (congrArg (fun view => view.tape.text) hseen).trans (Tape.settled_text _)
  refine ⟨congrArg View.skipMark hseen, htext, ?_⟩
  rw [← htext, Cursor.head?_tape]

theorem seen_begin (hready : lexer.Ready) :
    lexer.begin.seen = lexer.view.begin ∧ lexer.begin.lexer.phase = .started := by
  cases hphase : lexer.phase with
  | started =>
    have hview : lexer.view.phase = .started := hphase
    simp only [begin, View.begin, hphase, hview]
    exact ⟨rfl, trivial⟩
  | fresh =>
    have hview : lexer.view.phase = .fresh := hphase
    obtain ⟨next, hperform, hseen⟩ := perform_first hready hphase
    have hnext : next.phase = .started := congrArg View.phase hseen
    simp only [begin, View.begin, hphase, hview, hperform]
    cases lexer.view.opening with
    | error error => exact ⟨Prod.ext rfl hseen, hnext⟩
    | ok first =>
      obtain ⟨hskip, htext, hcurrent⟩ := head?_of_first hseen
      dsimp only
      rw [hskip, hcurrent]
      split
      · rename_i hmark
        have hhead : lexer.view.tape.text.head? = some byteOrderMark := by
          simp only [Bool.and_eq_true, decide_eq_true_eq] at hmark
          exact hmark.2
        obtain ⟨rest, hrest⟩ := List.head?_eq_some_iff.mp hhead
        rw [hrest] at htext ⊢
        have hfollows : Follows .start step next.cursor ⟨.ok (), [byteOrderMark], rest⟩ :=
          Follows.step htext
        obtain ⟨hperformed, hlast⟩ := perform_follows hnext hfollows
        exact ⟨hperformed.trans (congrArg _ hseen), hlast⟩
      · exact ⟨Prod.ext rfl hseen, hnext⟩

theorem seen_seek (hready : lexer.Ready) :
    lexer.seek.seen = lexer.view.seek ∧ lexer.seek.lexer.phase = .started := by
  obtain ⟨hbegin, hphase⟩ := seen_begin hready
  simp only [seek, View.seek]
  rw [← hbegin]
  generalize lexer.begin = call at hphase ⊢
  obtain ⟨_ | ⟨⟩, events, next⟩ := call
  · exact ⟨rfl, hphase⟩
  · have htext : next.cursor.tape.text = next.tape.text := by rw [tape_of_started hphase]
    exact perform_follows hphase (follows_skipBlanks htext)

theorem seen_scanHere (hphase : lexer.phase = .started) :
    lexer.scanHere.seen = lexer.view.scanHere ∧ lexer.scanHere.lexer.phase = .started := by
  have htape := tape_of_started hphase
  rw [scanHere, View.scanHere]
  dsimp only
  have htext : lexer.view.tape.text = lexer.tape.text := rfl
  rw [htext]
  cases hrest : lexer.tape.text with
  | nil =>
    have hcurrent : lexer.cursor.current = none := by
      rw [← lexer.cursor.head?_tape, ← htape, hrest, List.head?_nil]
    rw [hcurrent]
    exact ⟨rfl, hphase⟩
  | cons c rest =>
    rw [htape] at hrest
    rw [Cursor.current_of_text hrest]
    have hstarted : ({ lexer with tokenStart := lexer.position } : Lexer).phase = .started := hphase
    have hfollows := follows_token ⟨lexer.position, lexer.config.maxLiteralLength⟩ hrest rfl
    obtain ⟨hseen, hlast⟩ := perform_follows hstarted hfollows
    have hview : View.read lexer.view.position (Reading.token lexer.view.limit c rest)
        { lexer.view with tokenStart := lexer.view.position } = _ := hseen.symm
    dsimp only
    rw [hview]
    generalize perform (token ⟨lexer.position, lexer.config.maxLiteralLength⟩ c)
      { lexer with tokenStart := lexer.position } = result at hlast ⊢
    obtain ⟨_ | token, next⟩ := result <;> exact ⟨rfl, hlast⟩

theorem seen_nextPlaced (hready : lexer.Ready) :
    lexer.nextPlaced.seen = lexer.view.next ∧ lexer.nextPlaced.lexer.phase = .started := by
  obtain ⟨hseek, hphase⟩ := seen_seek hready
  simp only [nextPlaced, View.next]
  rw [← hseek]
  generalize lexer.seek = call at hphase ⊢
  obtain ⟨_ | ⟨⟩, events, next⟩ := call
  · exact ⟨rfl, hphase⟩
  · exact seen_scanHere hphase

theorem result_seek (hready : lexer.Ready) : lexer.seek.result = lexer.view.seek.1 :=
  congrArg Prod.fst (seen_seek hready).1

theorem result_nextPlaced (hready : lexer.Ready) :
    lexer.nextPlaced.result = lexer.view.next.1 := congrArg Prod.fst (seen_nextPlaced hready).1

theorem view_nextPlaced (hready : lexer.Ready) :
    lexer.nextPlaced.lexer.view = lexer.view.next.2 := congrArg Prod.snd (seen_nextPlaced hready).1

theorem started_nextPlaced (hready : lexer.Ready) : lexer.nextPlaced.lexer.phase = .started :=
  (seen_nextPlaced hready).2

theorem ready_nextPlaced (hready : lexer.Ready) : lexer.nextPlaced.lexer.Ready := fun hfresh =>
  nomatch hfresh.symm.trans (started_nextPlaced hready)

end Lexer

end StreamLexer
