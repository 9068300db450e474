import StreamLexer.Proofs.Lexer.Call

/-! # One character of lookahead

What a call gives is settled by the text up to the character behind what it takes. So the rest of a
text can be exchanged behind any number of items: they stay the same if what follows them starts
with the same character, or if a blank follows where the text came to its end.
-/

set_option autoImplicit false

namespace StreamLexer

open CharClass Lexer

namespace Lexer

/-- The outcome does not depend on where the text ends: no string is left open there. -/
def isClosed : Except LexError Placed → Bool
  | .ok _ => true
  | .error error => !error.cause.isOpen

theorem closed_of_placed {start : Position} {reading : Reading Token}
    (h : isClosed (reading.placed start) = true) : reading.Closed := by
  intro fault hfault
  rw [Reading.placed, hfault] at h
  exact Bool.not_eq_true' _ ▸ h

theorem map_some_inj {outcome other : Except LexError Placed}
    (h : outcome.map some = other.map some) : outcome = other := by
  cases outcome <;> cases other <;> cases h <;> rfl

end Lexer

namespace View

variable {v : View}

/-- The same view in front of another text. -/
def facing (v : View) (text : List Char) : View := { v with tape := ⟨text, none⟩ }

theorem Rests.facing {gap left : List Char} {c : Char} {rest : List Char}
    (h : v.Rests gap (c :: left)) (text : List Char) :
    (v.facing text).Rests gap (c :: rest) := ⟨h.blank, h.mark⟩

/-- A call that gives an item does the same where the text behind it is exchanged. -/
theorem next_exchanged (hstop : v.tape.stop = none) {outcome : Except LexError Placed}
    (hitem : v.next.1 = outcome.map some) :
    v.next.2.tape.stop = none ∧ ∃ taken, taken ++ v.next.2.tape.text = v.tape.text ∧
      ∀ later, Exchange (isClosed outcome = true) v.next.2.tape.text later →
        (v.facing (taken ++ later)).next = (v.next.1, v.next.2.facing later) := by
  obtain ⟨gap, left, htext, hskips, hrests⟩ := v.exists_gap
  cases left with
  | nil =>
    obtain rfl : gap = v.tape.text := by rw [← htext, List.append_nil]
    rw [next_of_gap hstop hskips] at hitem
    cases outcome <;> cases hitem
  | cons c rest =>
    have hcovers : (Reading.token v.limit c rest).Covers [] (c :: rest) :=
      Reading.Covers.token v.limit c
    have hlocal : Reading.Local [c] (Reading.token v.limit c) rest := .token v.limit c
    rw [next_of_text hstop htext hskips hrests] at hitem ⊢
    have houtcome := map_some_inj hitem
    refine ⟨rfl, gap ++ (Reading.token v.limit c rest).taken, ?_, fun later hlater => ?_⟩
    · rw [List.append_assoc, ← htext]
      exact congrArg (gap ++ ·) hcovers.split
    · have hadmits : (Reading.token v.limit c rest).Admits later :=
        hlater.imp fun hclosed => closed_of_placed (houtcome ▸ hclosed)
      obtain ⟨tail, htaken, hread⟩ := hlocal later hadmits
      have hfront : gap ++ (Reading.token v.limit c rest).taken ++ later =
          gap ++ c :: (tail ++ later) := by
        rw [htaken, List.append_assoc]
        rfl
      have hfaced : (v.facing (gap ++ c :: (tail ++ later))).Skips gap := hskips
      rw [hfront, next_of_text rfl rfl hfaced (hrests.facing _)]
      dsimp only [facing]
      rw [hread]
      rfl

end View

namespace Lexer

variable {lexer other last : Lexer} {items : List Item} {taken ending later : List Char}

/-- A call that gives an item is the same call for another lexer, which is in front of what the
call takes and of anything that can follow it. -/
theorem nextPlaced_exchanged (hready : lexer.Ready) (hstop : lexer.view.tape.stop = none)
    {outcome : Except LexError Placed} (hitem : lexer.nextPlaced.result = outcome.map some) :
    lexer.nextPlaced.lexer.view.tape.stop = none ∧
      ∃ first, first ++ lexer.nextPlaced.lexer.view.tape.text = lexer.view.tape.text ∧
        ∀ {other : Lexer} {later : List Char}, other.Ready →
          other.view = lexer.view.facing (first ++ later) →
          Exchange (isClosed outcome = true) lexer.nextPlaced.lexer.view.tape.text later →
          other.nextPlaced.result = lexer.nextPlaced.result ∧
            other.nextPlaced.lexer.view = lexer.nextPlaced.lexer.view.facing later := by
  obtain ⟨hendless, first, htext, hexchange⟩ :=
    View.next_exchanged hstop ((result_nextPlaced hready).symm.trans hitem)
  rw [← view_nextPlaced hready] at hendless htext hexchange
  refine ⟨hendless, first, htext, fun {other later} hother hview hlater => ?_⟩
  have hcall := hexchange later hlater
  rw [← hview, ← result_nextPlaced hready] at hcall
  rw [result_nextPlaced hother, view_nextPlaced hother, hcall]
  exact ⟨rfl, rfl⟩

theorem Yields.endless (h : lexer.Yields items last) (hready : lexer.Ready)
    (hstop : lexer.view.tape.stop = none) :
    last.Ready ∧ last.view.tape.stop = none ∧ last.view.tape.text <:+ lexer.view.tape.text := by
  induction h with
  | nil lexer => exact ⟨hready, hstop, List.suffix_rfl⟩
  | cons hitem hlater ih =>
    obtain ⟨hendless, first, htext, -⟩ := nextPlaced_exchanged hready hstop hitem
    obtain ⟨hlast, hlastStop, hsuffix⟩ := ih (ready_nextPlaced hready) hendless
    exact ⟨hlast, hlastStop, hsuffix.trans ⟨first, htext⟩⟩

/-- A number of items stay the same where the text behind them is exchanged. -/
theorem Yields.exchanged (h : lexer.Yields items last) (hready : lexer.Ready)
    (hother : other.Ready) (htape : lexer.view.tape = ⟨taken ++ ending, none⟩)
    (hview : other.view = lexer.view.facing (taken ++ later)) (hlast : last.view.tape.text = ending)
    (hlater : Exchange (∀ item ∈ items, isClosed item.outcome = true) ending later) :
    ∃ last', other.Yields items last' ∧ last'.Ready ∧ last'.view = last.view.facing later := by
  induction h generalizing other taken with
  | nil lexer =>
    rw [htape] at hlast
    obtain rfl := List.append_left_eq_self.mp hlast
    exact ⟨other, .nil other, hother, hview⟩
  | @cons lexer last outcome items hitem hrest ih =>
    have hnext := ready_nextPlaced hready
    obtain ⟨hendless, first, htext, hcall⟩ :=
      nextPlaced_exchanged hready (congrArg Tape.stop htape) hitem
    -- Behind this call there is some more of what is taken in the end.
    obtain ⟨-, -, more, hmore⟩ := hrest.endless hnext hendless
    rw [hlast] at hmore
    obtain rfl : taken = first ++ more := by
      rw [← hmore, htape, ← List.append_assoc] at htext
      exact (List.append_cancel_right htext).symm
    have hadmits : Exchange (isClosed outcome = true) lexer.nextPlaced.lexer.view.tape.text
        (more ++ later) := by
      rw [← hmore]
      exact (hlater.append_left more).imp fun hclosed => hclosed _ List.mem_cons_self
    rw [List.append_assoc] at hview
    obtain ⟨hresult, hfaced⟩ := hcall hother hview hadmits
    have hleft : lexer.nextPlaced.lexer.view.tape = ⟨more ++ ending, none⟩ := by
      rw [hmore, ← hendless]
    obtain ⟨last', hyields, hlast'⟩ := ih hnext (ready_nextPlaced hother) hleft hfaced hlast
      (hlater.imp fun hclosed item hmem => hclosed item (List.mem_cons_of_mem _ hmem))
    have hposition : other.nextPlaced.lexer.position = lexer.nextPlaced.lexer.position :=
      congrArg View.position hfaced
    rw [← hposition]
    exact ⟨last', .cons (hresult.trans hitem) hyields, hlast'⟩

theorem Yields.along {limit : Option Nat} {text : List Char} (h : lexer.Yields items last)
    (hready : lexer.Ready) (halong : lexer.view.Along limit text) :
    last.Ready ∧ last.view.Along limit text := by
  refine h.keeps (P := fun lexer => lexer.Ready ∧ lexer.view.Along limit text) ?_
    ⟨hready, halong⟩
  rintro lexer ⟨hready, halong⟩
  exact ⟨ready_nextPlaced hready, along_nextPlaced hready halong⟩

theorem view_new (text text' : List Char) (config : Config) :
    (new (.ofBytes (Utf8.encode text')) config).view =
      (new (.ofBytes (Utf8.encode text)) config).view.facing text' := by
  rw [View.facing, ← tape_new text' config]
  rfl

/-- An item that ends before the text does is settled by the text up to the character at which it
ends: with every text that goes on from there, the scan gives the same items so far. -/
theorem scan_settled (text : List Char) (config : Config) {items later : List Item} {item : Item}
    (hroom : text.length < Position.maxCount)
    (hscan : (new (.ofBytes (Utf8.encode text)) config).scan.result = items ++ item :: later)
    (hstop : item.stop.offset < (Utf8.encode text).length) :
    ∃ before c after, before ++ c :: after = text ∧
      (Utf8.encode before).length = item.stop.offset ∧
      ∀ text', before ++ [c] <+: text' →
        ∃ later', (new (.ofBytes (Utf8.encode text')) config).scan.result =
          items ++ item :: later' := by
  have hready := ready_new (.ofBytes (Utf8.encode text)) config
  rw [List.append_cons] at hscan
  obtain ⟨last, hyields, -⟩ := exists_yields hscan
  obtain ⟨-, halong⟩ := hyields.along hready (along_new text config)
  obtain ⟨before, htext, hbehind⟩ := halong.behind hroom
  rw [← hyields.position] at hstop ⊢
  obtain ⟨c, after, hleft⟩ := List.exists_cons_of_ne_nil ((halong.offset_lt_iff hroom).mp hstop)
  refine ⟨before, c, after, hleft ▸ htext, congrArg Position.offset hbehind.symm, ?_⟩
  rintro text' ⟨after', rfl⟩
  have htape : (new (.ofBytes (Utf8.encode text)) config).view.tape =
      ⟨before ++ last.view.tape.text, none⟩ := by rw [htext, tape_new]
  rw [← List.append_cons]
  obtain ⟨last', hsame, -⟩ := hyields.exchanged hready (ready_new _ config) htape
    (view_new text (before ++ c :: after') config) rfl (.alike (by rw [hleft]; rfl))
  refine ⟨last'.scan.result, ?_⟩
  rw [hsame.scan, ← List.append_cons]

/-- A number that breaks off behind its point is settled by the letter there. -/
theorem scan_settled_number :
    let text := "x 12.y = 1".toList
    let other := "x 12.y\"\\".toList
    text.length < Position.maxCount ∧ 5 < (Utf8.encode text).length ∧
      ∃ word number later later',
        (new (.ofBytes (Utf8.encode text)) {}).scan.result = [word] ++ number :: later ∧
        number.stop.offset = 5 ∧
        (new (.ofBytes (Utf8.encode other)) {}).scan.result = [word] ++ number :: later' := by
  intro text other
  have hroom : text.length < Position.maxCount := by decide
  have hstops : (new (.ofBytes (Utf8.encode text)) {}).scan.result.map Item.stop =
      [⟨1, 2, 1⟩, ⟨1, 6, 5⟩, ⟨1, 7, 6⟩, ⟨1, 9, 8⟩, ⟨1, 11, 10⟩] := by
    decide +kernel
  obtain ⟨word, items, hitems, -, hrest⟩ := List.map_eq_cons_iff.mp hstops
  obtain ⟨number, later, rfl, hnumber, -⟩ := List.map_eq_cons_iff.mp hrest
  have hoffset : number.stop.offset = 5 := congrArg Position.offset hnumber
  have hscan : (new (.ofBytes (Utf8.encode text)) {}).scan.result = [word] ++ number :: later :=
    hitems
  obtain ⟨before, c, after, htext, hlength, hsame⟩ :=
    scan_settled text {} hroom hscan (by rw [hoffset]; decide)
  have htake : ∀ n ≤ 10, (Utf8.encode (text.take n)).length = 5 → n = 5 := by decide
  have hcount : before.length = 5 := by
    have hlonger := congrArg List.length htext
    rw [List.length_append, List.length_cons] at hlonger
    apply htake _ (by change _ = 10 at hlonger; omega)
    rw [← htext, List.take_left, hlength, hoffset]
  have hprefix : before ++ [c] <+: other := by
    have hsix : (before ++ [c]).length = 6 := by rw [List.length_append, hcount]; rfl
    have hfirst : text.take 6 = before ++ [c] := by
      rw [← htext, List.append_cons, ← hsix, List.take_left]
    rw [← hfirst]
    exact ⟨"\"\\".toList, by decide⟩
  obtain ⟨later', hother⟩ := hsame other hprefix
  exact ⟨hroom, by decide, word, number, later, later', hscan, hoffset, hother⟩

end Lexer

end StreamLexer
