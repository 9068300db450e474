import StreamLexer.Proofs.Lexer.Delivery
import StreamLexer.Proofs.Scan.Coverage
import StreamLexer.Proofs.Scan.Span
import StreamLexer.Proofs.Text.Boundary

/-! # Lexers on a text

The tape of a text has no failure in it, so each call ends where its readings end. However often a
lexer is called on a text, it stays somewhere along it: what it has taken and what is in front of it
are the text, and its position is the one behind what it has taken.
-/

set_option autoImplicit false

namespace StreamLexer

open Lexer

namespace View

variable {α : Type} {limit : Option Nat} {text : List Char} {v w : View}

/-- What a view holds on a text without failures, whatever part of it has been taken. -/
structure Along (limit : Option Nat) (text : List Char) (v : View) : Prop where
  limit : v.limit = limit
  failed : v.failed = false
  stop : v.tape.stop = none
  taken : ∃ before, before ++ v.tape.text = text ∧ v.position = Position.start.pastAll before

theorem settled_of_endless {tape : Tape} (h : tape.stop = none) : tape.settled = tape := by
  obtain ⟨_ | ⟨c, text⟩, _ | stop⟩ := tape
  · rfl
  · cases h
  · rfl
  · cases h

theorem read_of_endless (h : v.tape.stop = none) (start : Position) (reading : Reading α) :
    v.read start reading = (reading.result.mapError (Fault.located start),
      { v with position := v.position.pastAll reading.taken, tape := ⟨reading.rest, none⟩ }) := by
  rw [View.read, h, settled_of_endless rfl]
  exact Prod.ext (Reading.outcome_of_not_met (Reading.met_none _ _)) rfl

theorem read_ok (h : v.tape.stop = none) (start : Position) {reading : Reading α} {a : α}
    (hresult : reading.result = .ok a) :
    v.read start reading = (.ok a, (v.read start reading).2) := by
  rw [read_of_endless h, hresult]
  rfl

theorem opening_of_endless (h : v.tape.stop = none) : v.opening = .ok () := by
  obtain ⟨limit, skipMark, phase, failed, tokenStart, position, _ | ⟨c, text⟩, stop⟩ := v
  · cases h
    rfl
  · rfl

theorem Along.read {behind : List Char} {reading : Reading α} (h : Along limit text v)
    (start : Position) (hcovers : reading.Covers behind v.tape.text) :
    Along limit text (v.read start reading).2 := by
  obtain ⟨hlimit, hfailed, hstop, before, htext, hposition⟩ := h
  rw [read_of_endless hstop]
  refine ⟨hlimit, hfailed, rfl, before ++ reading.taken, ?_, ?_⟩
  · dsimp only
    rw [List.append_assoc, hcovers.split, htext]
  · dsimp only
    rw [hposition, Position.pastAll_append]

/-- The view once `taken` was read, with this text left. -/
def movedTo (v : View) (taken left : List Char) : View :=
  { v with phase := .started, position := v.position.pastAll taken, tape := ⟨left, none⟩ }

theorem movedTo_nil (hphase : v.phase = .started) (h : v.tape.stop = none) :
    v.movedTo [] v.tape.text = v := by
  obtain ⟨limit, skipMark, phase, failed, tokenStart, position, text, stop⟩ := v
  cases hphase
  cases h
  rfl

theorem movedTo_movedTo (taken left more rest : List Char) :
    (v.movedTo taken left).movedTo more rest = v.movedTo (taken ++ more) rest := by
  simp only [movedTo, Position.pastAll_append]

theorem read_of_started (hphase : v.phase = .started) (h : v.tape.stop = none) (start : Position)
    (reading : Reading α) :
    v.read start reading =
      (reading.result.mapError (Fault.located start), v.movedTo reading.taken reading.rest) := by
  rw [read_of_endless h, movedTo, hphase]

/-- A mark is in front, and it is to be skipped. -/
def Marked (v : View) : Prop :=
  v.skipMark = true ∧ v.phase = .fresh ∧ v.tape.text.head? = some byteOrderMark

theorem begin_of_marked {rest : List Char} (h : v.tape.stop = none) (hmark : v.Marked)
    (htext : v.tape.text = byteOrderMark :: rest) :
    v.begin = (.ok (), v.movedTo [byteOrderMark] rest) := by
  obtain ⟨hskip, hfresh, -⟩ := hmark
  have hstarted : ({ v with phase := .started } : View).phase = .started := rfl
  rw [begin_of_cons hfresh htext, if_pos (by simp [hskip]), read_of_started hstarted h]
  rfl

theorem kept_of_not_marked {c : Char} {rest : List Char} (hphase : v.phase = .fresh)
    (htext : v.tape.text = c :: rest) (hmark : ¬v.Marked) :
    ¬(v.skipMark && c = byteOrderMark) = true := by
  intro hboth
  simp only [Bool.and_eq_true, decide_eq_true_eq] at hboth
  exact hmark ⟨hboth.1, hphase, by rw [htext, hboth.2, List.head?_cons]⟩

theorem begin_of_not_marked (h : v.tape.stop = none) (hmark : ¬v.Marked) :
    v.begin = (.ok (), v.movedTo [] v.tape.text) := by
  cases hphase : v.phase with
  | started => rw [movedTo_nil hphase h, View.begin, hphase]
  | fresh =>
    have hmoved : ({ v with phase := .started } : View).movedTo [] v.tape.text =
        { v with phase := .started } := movedTo_nil rfl h
    cases htext : v.tape.text with
    | nil =>
      rw [begin_of_nil hphase htext, opening_of_endless h]
      rfl
    | cons c rest =>
      rw [begin_of_cons hphase htext, if_neg (kept_of_not_marked hphase htext hmark), ← hmoved,
        htext]
      rfl

theorem begin_of_endless (h : v.tape.stop = none) :
    ∃ mark left, mark ++ left = v.tape.text ∧ v.begin = (.ok (), v.movedTo mark left) := by
  by_cases hmark : v.Marked
  · obtain ⟨rest, htext⟩ := List.head?_eq_some_iff.mp hmark.2.2
    exact ⟨[byteOrderMark], rest, htext.symm, begin_of_marked h hmark htext⟩
  · exact ⟨[], v.tape.text, rfl, begin_of_not_marked h hmark⟩

theorem Along.movedTo {taken left : List Char} (h : Along limit text v)
    (hsplit : taken ++ left = v.tape.text) : Along limit text (v.movedTo taken left) := by
  obtain ⟨hlimit, hfailed, -, before, htext, hposition⟩ := h
  refine ⟨hlimit, hfailed, rfl, before ++ taken, ?_, ?_⟩
  · rw [← htext, ← hsplit, List.append_assoc]
    rfl
  · rw [Position.pastAll_append, ← hposition]
    rfl

theorem Along.begin (h : Along limit text v) :
    ∃ next, v.begin = (.ok (), next) ∧ Along limit text next := by
  obtain ⟨mark, left, hsplit, hbegin⟩ := begin_of_endless h.stop
  exact ⟨v.movedTo mark left, hbegin, h.movedTo hsplit⟩

theorem Along.behind (h : Along limit text v) (hroom : text.length < Position.maxCount) :
    ∃ before, before ++ v.tape.text = text ∧ v.position = .behind before := by
  obtain ⟨before, htext, hposition⟩ := h.taken
  rw [← htext, List.length_append] at hroom
  exact ⟨before, htext, hposition.trans (Position.pastAll_start (by omega))⟩

/-- The position is at the end of the text exactly if no text is left. -/
theorem Along.offset_lt_iff (h : Along limit text v) (hroom : text.length < Position.maxCount) :
    v.position.offset < (Utf8.encode text).length ↔ v.tape.text ≠ [] := by
  obtain ⟨before, htext, hposition⟩ := h.behind hroom
  have hlength : (Utf8.encode text).length =
      (Utf8.encode before).length + (Utf8.encode v.tape.text).length := by
    rw [← htext, Utf8.encode_append, List.length_append]
  have hoffset : v.position.offset = (Utf8.encode before).length :=
    congrArg Position.offset hposition
  rw [hoffset, hlength]
  constructor
  · intro hlt hnil
    rw [hnil] at hlt
    exact Nat.lt_irrefl _ hlt
  · intro hmore
    have hleft := Utf8.length_encode_pos hmore
    omega

/-- The text in front of a view once its first character is read and a mark is skipped. -/
def ahead (v : View) : List Char := v.begin.2.tape.text

theorem ahead_of_started (h : v.phase = .started) : v.ahead = v.tape.text := by
  rw [ahead, View.begin, h]

theorem Along.seek (h : Along limit text v) :
    ∃ next, v.seek = (.ok (), next) ∧ Along limit text next ∧
      next.tape.text = v.ahead.dropWhile CharClass.isBlank := by
  obtain ⟨next, hbegin, hnext⟩ := h.begin
  refine ⟨_, ?_, hnext.read .start Reading.Covers.blanks, ?_⟩
  · rw [View.seek, hbegin]
    exact read_ok hnext.stop .start (congrArg Reading.result (Reading.blanks_eq _))
  · rw [ahead, hbegin, read_of_endless hnext.stop, Reading.blanks_eq]

theorem scanHere_of_nil (h : v.tape.text = []) :
    v.scanHere = (.ok none, { v with tokenStart := v.position }) := by
  rw [View.scanHere, h]

theorem scanHere_of_cons {c : Char} {rest : List Char} (h : v.tape.text = c :: rest) :
    v.scanHere = Prod.map (·.map fun token => some ⟨token, v.position⟩) id
      (View.read v.position (Reading.token v.limit c rest)
        { v with tokenStart := v.position }) := by
  rw [View.scanHere, h]
  rfl

theorem Along.scanHere (h : Along limit text v) : Along limit text v.scanHere.2 := by
  have hstart : Along limit text { v with tokenStart := v.position } :=
    ⟨h.limit, h.failed, h.stop, h.taken⟩
  cases hrest : v.tape.text with
  | nil =>
    rw [scanHere_of_nil hrest]
    exact hstart
  | cons c rest =>
    rw [scanHere_of_cons hrest]
    exact hstart.read v.position (hrest ▸ Reading.Covers.token v.limit c)

theorem Along.next (h : Along limit text v) : Along limit text v.next.2 := by
  obtain ⟨next, hseek, hnext, -⟩ := h.seek
  rw [View.next, hseek]
  exact hnext.scanHere

end View

namespace Lexer

variable {limit : Option Nat} {text : List Char} {lexer : Lexer}

theorem tape_new (text : List Char) (config : Config) :
    (new (.ofBytes (Utf8.encode text)) config).view.tape = ⟨text, none⟩ :=
  Source.tape_ofBytes .start text config.bufferCapacity

theorem along_new (text : List Char) (config : Config) :
    (new (.ofBytes (Utf8.encode text)) config).view.Along config.maxLiteralLength text where
  limit := rfl
  failed := rfl
  stop := congrArg Tape.stop (tape_new text config)
  taken := ⟨[], congrArg Tape.text (tape_new text config), rfl⟩

theorem along_nextPlaced (hready : lexer.Ready) (halong : lexer.view.Along limit text) :
    lexer.nextPlaced.lexer.view.Along limit text := by
  rw [view_nextPlaced hready]
  exact halong.next

/-- Any number of calls leave a lexer on the text, behind its start if there is one at least. -/
theorem along_after (hready : lexer.Ready) (halong : lexer.view.Along limit text) {calls : Nat}
    (hcalls : lexer.phase = .started ∨ 1 ≤ calls) :
    let last := lexer.after (List.replicate calls .nextPlaced)
    last.Ready ∧ last.view.Along limit text ∧ last.phase = .started := by
  induction calls generalizing lexer with
  | zero => exact ⟨hready, halong, hcalls.resolve_right (by simp)⟩
  | succ calls ih =>
    exact ih (ready_nextPlaced hready) (along_nextPlaced hready halong)
      (.inl (started_nextPlaced hready))

end Lexer

end StreamLexer
