import StreamLexer.Proofs.Lexer.OnText
import StreamLexer.Proofs.Text.Translation

/-! # Going on is starting anew

A lexer that has been called on a text goes on as a new one would on the rest of the text, with
every position translated. Nothing but the position is carried from one call to the next, whether
the calls gave tokens or errors. The two lexers are compared by their views.
-/

set_option autoImplicit false

namespace StreamLexer

open Lexer

namespace View

variable {α : Type} {limit : Option Nat} {text : List Char} {v w : View} {p : Position}

theorem Along.room (h : Along limit text v) (hroom : text.length < Position.maxCount) :
    v.position.Counted ∧ v.position.Room v.tape.text.length := by
  obtain ⟨before, htext, hposition⟩ := h.taken
  have hspace := Position.room_start hroom
  rw [← htext, List.length_append] at hspace
  rw [hposition]
  exact ⟨Position.counted_start.pastAll before, hspace.pastAll⟩

/-- What is left of the bytes behind the position is the encoding of what is left of the text. -/
theorem Along.left (h : Along limit text v) (hroom : text.length < Position.maxCount) :
    (Utf8.encode text).drop v.position.offset = Utf8.encode v.tape.text := by
  obtain ⟨before, htext, hposition⟩ := h.taken
  have hspace := Position.room_start hroom
  rw [← htext, List.length_append] at hspace
  have hoffset := Position.offset_pastAll (hspace.mono (Nat.le_add_right _ _))
  have hstart : Position.start.offset = 0 := rfl
  rw [hposition, hoffset, hstart, Nat.zero_add, ← htext, Utf8.encode_append, List.drop_left]

/-- The view `w` is in front of the same text as `v`, which counts its positions from `p`. The
first character may still be unread in front of `v`, but no mark is skipped there. -/
structure Resumes (p : Position) (v w : View) : Prop where
  limit : w.limit = v.limit
  failed : w.failed = v.failed
  unmarked : v.skipMark = false
  started : w.phase = .started
  tape : w.tape = v.tape
  stop : v.tape.stop = none
  base : p.Counted
  counted : v.position.Counted
  position : w.position = p.translate v.position
  room : w.position.Room v.tape.text.length

theorem Resumes.endless (h : Resumes p v w) : w.tape.stop = none := h.tape ▸ h.stop

theorem Resumes.text_eq (h : Resumes p v w) : w.tape.text = v.tape.text := congrArg Tape.text h.tape

theorem Resumes.pastAll (h : Resumes p v w) {before : List Char}
    (hbefore : before <+: v.tape.text) :
    w.position.pastAll before = p.translate (v.position.pastAll before) := by
  have hroom := h.room.mono hbefore.length_le
  rw [h.position] at hroom ⊢
  exact (Position.translate_pastAll h.base h.counted hroom).symm

theorem Resumes.read {behind : List Char} {reading : Reading α} (h : Resumes p v w)
    (start start' : Position) (hcovers : reading.Covers behind v.tape.text) :
    Resumes p (v.read start reading).2 (w.read start' reading).2 := by
  have hprefix : reading.taken <+: v.tape.text := ⟨reading.rest, hcovers.split⟩
  rw [read_of_endless h.stop, read_of_endless h.endless]
  refine ⟨h.limit, h.failed, h.unmarked, h.started, rfl, rfl, h.base, h.counted.pastAll _,
    h.pastAll hprefix, ?_⟩
  have hroom := h.room
  rw [← hcovers.split, List.length_append] at hroom
  exact hroom.pastAll

theorem Resumes.result {reading : Reading α} (h : Resumes p v w)
    (hcovers : reading.Covers [] v.tape.text) :
    (w.read w.position reading).1 =
      relocateResult p.translate id (v.read v.position reading).1 := by
  rw [read_of_endless h.stop, read_of_endless h.endless]
  cases hresult : reading.result with
  | ok a => rfl
  | error fault =>
    have hbefore : fault.before <+: v.tape.text := hcovers.fault fault hresult
    change Except.error (⟨fault.cause, w.position.pastAll fault.before⟩ : LexError) = _
    rw [h.pastAll hbefore]
    rfl

theorem Resumes.begin (h : Resumes p v w) :
    ∃ v', v.begin = (.ok (), v') ∧ w.begin = (.ok (), w) ∧ Resumes p v' w := by
  have hw : w.begin = (.ok (), w) := by
    rw [View.begin, h.started]
  cases hphase : v.phase with
  | started => exact ⟨v, by rw [View.begin, hphase], hw, h⟩
  | fresh =>
    refine ⟨{ v with phase := .started, tape := v.tape.settled }, ?_, hw, ?_⟩
    · rw [View.begin, hphase]
      dsimp only
      rw [opening_of_endless h.stop, h.unmarked]
      rfl
    · rw [settled_of_endless h.stop]
      exact { h with }

theorem Resumes.seek (h : Resumes p v w) :
    ∃ v' w', v.seek = (.ok (), v') ∧ w.seek = (.ok (), w') ∧ Resumes p v' w' := by
  obtain ⟨v', hv, hw, hbegun⟩ := h.begin
  have hblanks := fun text => congrArg Reading.result (Reading.blanks_eq text)
  refine ⟨_, _, ?_, ?_, hbegun.read .start .start Reading.Covers.blanks⟩
  · rw [View.seek, hv]
    exact read_ok hbegun.stop .start (hblanks _)
  · rw [View.seek, hw, ← hbegun.text_eq]
    exact read_ok hbegun.endless .start (hblanks _)

theorem Resumes.scanHere (h : Resumes p v w) :
    w.scanHere.1 = relocateResult p.translate (·.map (Placed.relocate p.translate)) v.scanHere.1 ∧
      Resumes p v.scanHere.2 w.scanHere.2 := by
  have hstart : Resumes p { v with tokenStart := v.position } { w with tokenStart := w.position } :=
    { h with }
  -- Both read the same token from the same text; only the place of its start differs.
  cases hrest : v.tape.text with
  | nil =>
    rw [scanHere_of_nil hrest, scanHere_of_nil (h.text_eq.trans hrest)]
    exact ⟨rfl, hstart⟩
  | cons c rest =>
    have hcovers : (Reading.token v.limit c rest).Covers [] v.tape.text :=
      hrest ▸ Reading.Covers.token v.limit c
    have hreading : Reading.token w.limit c rest = Reading.token v.limit c rest := by
      rw [h.limit]
    rw [scanHere_of_cons hrest, scanHere_of_cons (h.text_eq.trans hrest), hreading]
    refine ⟨?_, hstart.read v.position w.position hcovers⟩
    have hresult := hstart.result hcovers
    dsimp only at hresult
    rw [Prod.map_fst, Prod.map_fst, hresult, h.position]
    cases (View.read v.position (Reading.token v.limit c rest)
      { v with tokenStart := v.position }).1 <;> rfl

theorem Resumes.next (h : Resumes p v w) :
    w.next.1 = relocateResult p.translate (·.map (Placed.relocate p.translate)) v.next.1 ∧
      Resumes p v.next.2 w.next.2 := by
  obtain ⟨v', w', hv, hw, hsought⟩ := h.seek
  rw [View.next, View.next, hv, hw]
  exact hsought.scanHere

theorem simulation_resumes (p : Position) : View.Simulation p.translate (Resumes p) where
  failed h := h.failed
  position h := h.position
  fail h := { h with failed := rfl }
  next h := h.next.2
  result h := h.next.1

end View

namespace Lexer

variable {limit : Option Nat} {text : List Char} {lexer : Lexer}

/-- What is reported once a request has been answered: the answer and the position. -/
def reported (call : Call Answer) : Answer × Position :=
  (call.result, call.lexer.position)

/-- A view somewhere on a text is as far as a new lexer on what is left of the text. -/
theorem resumes_along {v : View} (halong : v.Along limit text) (hstarted : v.phase = .started)
    (hroom : text.length < Position.maxCount) (capacity : Nat) :
    View.Resumes v.position
      (new (.ofBytes (Utf8.encode v.tape.text)) ⟨capacity, false, limit⟩).view v := by
  obtain ⟨hcounted, hleft⟩ := halong.room hroom
  have htape : (new (.ofBytes (Utf8.encode v.tape.text)) ⟨capacity, false, limit⟩).view.tape =
      v.tape := by
    rw [tape_new, ← halong.stop]
  exact {
    limit := halong.limit
    failed := halong.failed
    unmarked := rfl
    started := hstarted
    tape := htape.symm
    stop := (congrArg Tape.stop htape).trans halong.stop
    base := hcounted
    counted := Position.counted_start
    position := (Position.translate_start v.position).symm
    room := by
      rw [congrArg Tape.text htape]
      exact hleft }

theorem related_resumed (hready : lexer.Ready) (halong : lexer.view.Along limit text)
    (hstarted : lexer.phase = .started) (hroom : text.length < Position.maxCount) (capacity : Nat) :
    Related (View.Resumes lexer.position)
      (new (.ofBytes ((Utf8.encode text).drop lexer.position.offset)) ⟨capacity, false, limit⟩)
      lexer := by
  have hbytes : (Utf8.encode text).drop lexer.position.offset =
      Utf8.encode lexer.view.tape.text := halong.left hroom
  rw [hbytes]
  exact ⟨ready_new _ _, hready, resumes_along halong hstarted hroom capacity⟩

/-- After any calls a lexer goes on as a new one on the rest of the text, which skips no mark, with
every position translated by the position at which the calls ended. -/
theorem resumes_as_new (text : List Char) (config : Config) (capacity : Nat) {calls : Nat}
    {requests : List Request} (hroom : text.length < Position.maxCount) (hcalls : 1 ≤ calls)
    (hrequests : .config ∉ requests) :
    let resumed := (new (.ofBytes (Utf8.encode text)) config).after
      (List.replicate calls .nextPlaced)
    let p := resumed.position
    let anew := new (.ofBytes ((Utf8.encode text).drop p.offset))
      ⟨capacity, false, config.maxLiteralLength⟩
    (resumed.session requests).map reported =
        ((anew.session requests).map reported).map
          (Prod.map (Answer.relocate p.translate) p.translate) ∧
      (resumed.after requests).tokenize.result =
        relocateResult p.translate id (anew.after requests).tokenize.result := by
  intro resumed p anew
  obtain ⟨hready, halong, hstarted⟩ :=
    along_after (ready_new _ config) (along_new text config) (.inr hcalls)
  have hrelated := related_resumed hready halong hstarted hroom capacity
  have hsimulation := View.simulation_resumes p
  refine ⟨?_, (hrelated.after hsimulation hrequests).tokenize hsimulation⟩
  rw [← List.forall₂_eq_eq_eq, List.map_map, List.forall₂_map_left_iff, List.forall₂_map_right_iff]
  apply (hrelated.session hsimulation hrequests).flip.imp
  rintro c d ⟨hresult, hlexer⟩
  have hposition : c.lexer.position = p.translate d.lexer.position := hlexer.views.position
  exact Prod.ext hresult hposition

/-- The second call fails in the middle of a string in the second line. -/
theorem resumes_in_string :
    let text := "x\n\"a\\qb\nz = 1".toList
    let resumed := (new (.ofBytes (Utf8.encode text)) {}).after (List.replicate 2 .nextPlaced)
    let anew := new (.ofBytes ((Utf8.encode text).drop 6)) ⟨1, false, none⟩
    text.length < Position.maxCount ∧ 1 ≤ 2 ∧ resumed.position = ⟨2, 5, 6⟩ ∧
      (resumed.session [.nextPlaced, .next, .scan]).map reported =
        ((anew.session [.nextPlaced, .next, .scan]).map reported).map
          (Prod.map (Answer.relocate (Position.translate ⟨2, 5, 6⟩))
            (Position.translate ⟨2, 5, 6⟩)) := by
  intro text resumed anew
  have hposition : resumed.position = ⟨2, 5, 6⟩ := by decide +kernel
  have hresumes := resumes_as_new text {} 1 (by decide : text.length < Position.maxCount)
    (by decide : 1 ≤ 2) (by decide : Request.config ∉ [.nextPlaced, .next, .scan])
  dsimp only at hresumes
  rw [hposition] at hresumes
  exact ⟨by decide, by decide, hposition, hresumes.1⟩

end Lexer

end StreamLexer
