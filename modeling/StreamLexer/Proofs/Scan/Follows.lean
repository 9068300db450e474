import StreamLexer.Proofs.Scan.Reading
import StreamLexer.Proofs.Stream.Tape

/-! # Scanners follow their readings

In front of any tape a scanner does what the reading of the text says, with one exception: when the
reading takes all of the text and the tape stops with a failure, the last step of the scanner fails
and its error replaces what was read. Either way the cursor ends behind the characters taken.
-/

set_option autoImplicit false

namespace StreamLexer

open Stateful Scan

namespace Reading

variable {α β : Type}

/-- The failure that is met by taking the last character in front of it. -/
def met (stop : Option ReadError) (taken rest : List Char) : Option ReadError :=
  if rest = [] ∧ taken ≠ [] then stop else none

/-- The outcome at position `p`, in a token that starts at `start`, on a tape with this stop. -/
def outcome (start p : Position) (stop : Option ReadError) (reading : Reading α) :
    Except LexError α :=
  match met stop reading.taken reading.rest with
  | some error => .error ⟨.streamRead error, p.pastAll reading.taken.dropLast⟩
  | none => reading.result.mapError (Fault.located start)

variable {start p : Position} {stop : Option ReadError}

@[simp] theorem met_nil (stop : Option ReadError) (rest : List Char) : met stop [] rest = none := by
  simp [met]

@[simp] theorem met_none (taken rest : List Char) : met none taken rest = none := by
  simp [met]

@[simp] theorem met_cons (stop : Option ReadError) (taken : List Char) (c : Char)
    (rest : List Char) : met stop taken (c :: rest) = none := by
  simp [met]

theorem met_end {taken : List Char} (h : taken ≠ []) (stop : Option ReadError) :
    met stop taken [] = stop := by
  simp [met, h]

variable {result : Except Fault α} {taken rest : List Char}

theorem outcome_of_met {error : ReadError} (h : met stop taken rest = some error) :
    outcome start p stop ⟨result, taken, rest⟩ =
      .error ⟨.streamRead error, p.pastAll taken.dropLast⟩ := by
  rw [outcome, h]

theorem outcome_of_not_met (h : met stop taken rest = none) :
    outcome start p stop ⟨result, taken, rest⟩ = result.mapError (Fault.located start) := by
  rw [outcome, h]

@[simp] theorem outcome_done (a : α) (rest : List Char) :
    outcome start p stop (done a rest) = .ok a :=
  outcome_of_not_met (met_nil stop rest)

/-- What was taken before changes where a reading takes place, and nothing else, as long as some
text is left for it. -/
theorem outcome_prepend (start p : Position) (stop : Option ReadError) (result : Except Fault α)
    (before : List Char) (h : taken ++ rest ≠ []) :
    outcome start p stop ⟨result, before ++ taken, rest⟩ =
      outcome start (p.pastAll before) stop ⟨result, taken, rest⟩ := by
  cases rest with
  | cons c rest =>
    rw [outcome_of_not_met (met_cons _ _ _ _), outcome_of_not_met (met_cons _ _ _ _)]
  | nil =>
    rw [List.append_nil] at h
    have hmet := met_end h stop
    have hmet' := met_end (List.append_ne_nil_of_right_ne_nil before h) stop
    cases stop with
    | none => rw [outcome_of_not_met hmet, outcome_of_not_met hmet']
    | some error =>
      rw [outcome_of_met hmet, outcome_of_met hmet', List.dropLast_append_of_ne_nil h,
        Position.pastAll_append]

end Reading

namespace Scan

variable {α β : Type}

def ending (next : Cursor) : Except LexError α → EStateM.Result LexError Cursor α
  | .ok a => .ok a next
  | .error error => .error error next

structure Follows (start : Position) (m : Scan α) (cursor : Cursor) (reading : Reading α) :
    Prop where
  split : reading.taken ++ reading.rest = cursor.tape.text
  ends : ∃ next : Cursor,
    m cursor = ending next (reading.outcome start cursor.position cursor.tape.stop) ∧
      next.position = cursor.position.pastAll reading.taken ∧
      next.tape = (⟨reading.rest, cursor.tape.stop⟩ : Tape).settled

namespace Follows

variable {start : Position} {cursor : Cursor}

theorem congr {m n : Scan α} {reading : Reading α} (h : Follows start m cursor reading)
    (heq : n cursor = m cursor) : Follows start n cursor reading := by
  obtain ⟨hsplit, hends⟩ := h
  exact ⟨hsplit, by rwa [heq]⟩

theorem get_bind {k : Cursor → Scan α} {reading : Reading α}
    (h : Follows start (k cursor) cursor reading) : Follows start (get >>= k) cursor reading :=
  h.congr rfl

theorem done (a : α) {text : List Char} (htext : cursor.tape.text = text) :
    Follows start (Pure.pure a) cursor (Reading.done a text) where
  split := htext.symm
  ends := by
    subst htext
    exact ⟨cursor, by rw [Reading.outcome_done]; rfl, rfl, cursor.settled_tape.symm⟩

theorem throw (cause : LexError.Cause) (before : List Char) {text : List Char}
    (htext : cursor.tape.text = text) :
    Follows start (MonadExcept.throw ⟨cause, start.pastAll before⟩ : Scan α) cursor
      ⟨.error ⟨cause, before⟩, [], text⟩ where
  split := htext.symm
  ends := by
    subst htext
    exact ⟨cursor, by rw [Reading.outcome_of_not_met (Reading.met_nil _ _)]; rfl, rfl,
      cursor.settled_tape.symm⟩

theorem fail (cause : LexError.Cause) {text : List Char} (htext : cursor.tape.text = text) :
    Follows start (MonadExcept.throw ⟨cause, start⟩ : Scan α) cursor (Reading.fail cause text) :=
  throw cause [] htext

section Bind

variable {m : Scan α} {k : α → Scan β} {a : α} {taken rest : List Char} {later : Reading β}

theorem bind_fault {fault : Fault} (hm : Follows start m cursor ⟨.error fault, taken, rest⟩) :
    Follows start (m >>= k) cursor ⟨.error fault, taken, rest⟩ := by
  obtain ⟨hsplit, after, hrun, hposition, htape⟩ := hm
  refine ⟨hsplit, after, ?_, hposition, htape⟩
  cases hmet : Reading.met cursor.tape.stop taken rest with
  | none =>
    rw [Reading.outcome_of_not_met hmet] at hrun ⊢
    exact bind_of_error hrun
  | some error =>
    rw [Reading.outcome_of_met hmet] at hrun ⊢
    exact bind_of_error hrun

/-- Behind all of the text the next reading takes nothing. It is void if the tape stops with a
failure, which the first scanner has met already. -/
theorem bind_end (hm : Follows start m cursor ⟨.ok a, taken, []⟩)
    (hk : ∀ after : Cursor, after.position = cursor.position.pastAll taken →
      after.tape.text = [] → Follows start (k a) after later) :
    Follows start (m >>= k) cursor ⟨later.result, taken ++ later.taken, later.rest⟩ := by
  obtain ⟨hsplit, after, hrun, hposition, htape⟩ := hm
  have hrest : after.tape.text = [] := by rw [htape, Tape.settled_text]
  obtain ⟨hsplit', last, hrun', hposition', htape'⟩ := hk after hposition hrest
  rw [hrest] at hsplit'
  obtain ⟨result, taken', rest'⟩ := later
  obtain ⟨rfl, rfl⟩ := List.append_eq_nil_iff.mp hsplit'
  dsimp only at hrun hrun' hposition hposition' htape htape' ⊢
  rw [List.append_nil]
  refine ⟨hsplit, ?_⟩
  cases hmet : Reading.met cursor.tape.stop taken [] with
  | none =>
    rw [Reading.outcome_of_not_met hmet] at hrun
    rw [Reading.outcome_of_not_met (Reading.met_nil _ _)] at hrun'
    refine ⟨last, ?_, hposition'.trans hposition, htape'⟩
    rw [Reading.outcome_of_not_met hmet]
    exact (bind_of_ok hrun).trans hrun'
  | some error =>
    rw [Reading.outcome_of_met hmet] at hrun
    refine ⟨after, ?_, hposition, htape⟩
    rw [Reading.outcome_of_met hmet]
    exact bind_of_error hrun

theorem bind_before {c : Char} (hm : Follows start m cursor ⟨.ok a, taken, c :: rest⟩)
    (hk : ∀ after : Cursor, after.position = cursor.position.pastAll taken →
      after.tape.text = c :: rest → Follows start (k a) after later) :
    Follows start (m >>= k) cursor ⟨later.result, taken ++ later.taken, later.rest⟩ := by
  obtain ⟨hsplit, after, hrun, hposition, htape⟩ := hm
  obtain ⟨hsplit', last, hrun', hposition', htape'⟩ :=
    hk after hposition (by rw [htape, Tape.settled_text])
  rw [Reading.outcome_of_not_met (Reading.met_cons _ _ _ _)] at hrun
  rw [Tape.settled_cons] at htape
  rw [htape] at hsplit' hrun' htape'
  dsimp only at hsplit hsplit' hposition
  refine ⟨by rw [← hsplit, ← hsplit', List.append_assoc], last, ?_, ?_, htape'⟩
  · rw [bind_of_ok hrun, hrun', hposition, Reading.outcome_prepend]
    rw [hsplit']
    exact List.cons_ne_nil c rest
  · rw [hposition', hposition, ← Position.pastAll_append]

end Bind

theorem bind {m : Scan α} {k : α → Scan β} {reading : Reading α}
    {next : α → List Char → Reading β} (hm : Follows start m cursor reading)
    (hk : ∀ (a : α) (after : Cursor), reading.result = .ok a →
      after.position = cursor.position.pastAll reading.taken →
      after.tape.text = reading.rest → Follows start (k a) after (next a reading.rest)) :
    Follows start (m >>= k) cursor (reading.bind next) := by
  obtain ⟨fault | a, taken, rest⟩ := reading
  · exact bind_fault hm
  · cases rest with
    | nil => exact bind_end hm fun after => hk a after rfl
    | cons c rest => exact bind_before hm fun after => hk a after rfl

theorem step {c : Char} {rest : List Char} (htext : cursor.tape.text = c :: rest) :
    Follows start Scan.step cursor ⟨.ok (), [c], rest⟩ := by
  have hposition : cursor.nextPosition = cursor.position.past c := by
    simp [Cursor.nextPosition, Cursor.current_of_text htext]
  obtain ⟨next, hadvance, hnext, hsettled⟩ := cursor.advance_tape
  rw [Cursor.source_tape_of_text htext] at hadvance hsettled
  refine ⟨htext.symm, next, ?_, hnext.trans hposition, hsettled⟩
  simp only [Scan.step, located]
  rw [hadvance]
  cases rest with
  | nil =>
    have hmet := Reading.met_end (List.cons_ne_nil c []) cursor.tape.stop
    cases hstop : cursor.tape.stop with
    | none =>
      rw [Reading.outcome_of_not_met (Reading.met_none _ _)]
      rfl
    | some error =>
      rw [hstop] at hmet
      rw [Reading.outcome_of_met hmet]
      rfl
  | cons d rest =>
    rw [Reading.outcome_of_not_met (Reading.met_cons _ _ _ _)]
    rfl

theorem step_bind {k : Unit → Scan α} {reading : Reading α} {c : Char} {rest : List Char}
    (htext : cursor.tape.text = c :: rest)
    (hk : ∀ after : Cursor, after.position = cursor.position.past c → after.tape.text = rest →
      Follows start (k ()) after reading) :
    Follows start (Scan.step >>= k) cursor (reading.push c) := by
  have hbind : reading.push c = Reading.bind ⟨.ok (), [c], rest⟩ fun _ _ => reading := rfl
  rw [hbind]
  exact bind (step htext) fun _ after _ hposition hrest => hk after hposition hrest

theorem map {m : Scan α} {reading : Reading α} (h : Follows start m cursor reading) (f : α → β) :
    Follows start (m >>= fun a => Pure.pure (f a)) cursor (reading.map f) :=
  bind h fun a _ _ _ hrest => done (f a) hrest

end Follows

end Scan

end StreamLexer
