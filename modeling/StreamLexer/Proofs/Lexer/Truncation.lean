import StreamLexer.Proofs.Lexer.Exhaustion
import StreamLexer.Proofs.Lexer.OnText
import StreamLexer.Proofs.Stream.Decoding
import StreamLexer.Proofs.Text.Boundary

/-! # Scans that a failure cuts short

A lexer in front of a failure and a lexer in front of the text alone do the same until one of them
steps on the last character. The call that needs the character behind it is lost then, whatever it
was about to give, and the failure is reported in its place.
-/

set_option autoImplicit false

namespace StreamLexer

open Lexer

namespace View

variable {α β : Type} {error : ReadError} {limit : Option Nat} {text : List Char} {v w : View}

/-- The same view with a failure behind its text. -/
def severed (error : ReadError) (v : View) : View :=
  { v with tape := ⟨v.tape.text, some error⟩ }

/-- What a stage of a call gives in front of the whole of `text`, and what it gives in front of the
failure behind it. -/
inductive Compared (error : ReadError) (text : List Char) :
    Except LexError α × View → Except LexError α × View → Prop where
  | same (result : Except LexError α) {v : View} (hmore : v.tape.text ≠ []) :
      Compared error text (result, v) (result, v.severed error)
  | cut (result : Except LexError α) {v w : View} (hwhole : v.tape.text = [])
      (hbroken : w.tape.text = []) (hposition : w.position = Position.start.pastAll text) :
      Compared error text (result, v)
        (.error ⟨.streamRead error, Position.start.pastAll text.dropLast⟩, w)

theorem Compared.map {x y : Except LexError α × View} (h : Compared error text x y) (f : α → β) :
    Compared error text (x.map (·.map f) id) (y.map (·.map f) id) := by
  cases h with
  | same result hmore => exact .same (result.map f) hmore
  | cut result hwhole hbroken hposition => exact .cut (result.map f) hwhole hbroken hposition

theorem compared_read {behind : List Char} {reading : Reading α} (h : v.Along limit text)
    (hmore : v.tape.text ≠ []) (start : Position) (hcovers : reading.Covers behind v.tape.text) :
    Compared error text (v.read start reading) ((v.severed error).read start reading) := by
  obtain ⟨before, htext, hposition⟩ := h.taken
  have hsplit := hcovers.split
  rw [read_of_endless h.stop]
  obtain ⟨result, taken, rest⟩ := reading
  dsimp only at hsplit
  cases rest with
  | nil =>
    rw [List.append_nil] at hsplit
    subst hsplit
    have hmet := Reading.met_end hmore (some error)
    have hlast : v.position.pastAll v.tape.text.dropLast =
        Position.start.pastAll text.dropLast := by
      rw [hposition, ← Position.pastAll_append, ← List.dropLast_append_of_ne_nil hmore, htext]
    have hend : v.position.pastAll v.tape.text = Position.start.pastAll text := by
      rw [hposition, ← Position.pastAll_append, htext]
    rw [View.read, severed]
    dsimp only
    rw [Reading.outcome_of_met hmet, hlast]
    exact .cut _ rfl rfl hend
  | cons c rest =>
    rw [View.read, severed]
    dsimp only
    rw [Reading.outcome_of_not_met (Reading.met_cons _ _ _ _)]
    exact .same _ (List.cons_ne_nil c rest)

/-- The first character is read if that was not done before; then there has to be one, or else the
failure is all that the stream has. -/
theorem compared_begin (h : v.Along limit text)
    (hfirst : v.tape.text ≠ [] ∨ v.phase = .fresh ∧ text = []) :
    Compared error text v.begin (v.severed error).begin := by
  cases hphase : v.phase with
  | started =>
    have hmore := hfirst.resolve_right (by simp [hphase])
    have hbroken : (v.severed error).phase = .started := hphase
    rw [View.begin, hphase, View.begin, hbroken]
    exact .same _ hmore
  | fresh =>
    have hbroken : (v.severed error).phase = .fresh := hphase
    cases htext : v.tape.text with
    | nil =>
      obtain ⟨-, rfl⟩ := hfirst.resolve_left (not_not_intro htext)
      obtain ⟨before, hsplit, hposition⟩ := h.taken
      obtain ⟨rfl, -⟩ := List.append_eq_nil_iff.mp hsplit
      have hopening : (v.severed error).opening =
          .error ⟨.streamRead error, Position.start.pastAll [].dropLast⟩ := by
        rw [opening, severed, htext, hposition]
        rfl
      rw [begin_of_nil hphase htext, begin_of_nil hbroken htext, hopening]
      exact .cut _ rfl rfl hposition
    | cons c rest =>
      have hmore : v.tape.text ≠ [] := by simp [htext]
      have hstarted : Along limit text { v with phase := .started } :=
        ⟨h.limit, h.failed, h.stop, h.taken⟩
      rw [begin_of_cons hphase htext, begin_of_cons hbroken htext]
      have hskip : (v.severed error).skipMark = v.skipMark := rfl
      rw [hskip]
      split
      · rename_i hmark
        simp only [Bool.and_eq_true, decide_eq_true_eq] at hmark
        have hcovers : Reading.Covers [] v.tape.text
            (⟨.ok (), [byteOrderMark], rest⟩ : Reading Unit) :=
          ⟨by rw [htext, hmark.2]; rfl, by rintro _ ⟨⟩⟩
        exact compared_read hstarted hmore .start hcovers
      · exact .same (v := { v with phase := .started }) _ hmore

theorem compared_seek (h : v.Along limit text)
    (hfirst : v.tape.text ≠ [] ∨ v.phase = .fresh ∧ text = []) :
    Compared error text v.seek (v.severed error).seek := by
  obtain ⟨next, hbegin, hnext⟩ := h.begin
  obtain ⟨last, hseek, hlast, hahead⟩ := h.seek
  have hbegun : Compared error text v.begin (v.severed error).begin := compared_begin h hfirst
  rw [View.seek] at hseek
  rw [View.seek, View.seek]
  rw [hbegin] at hbegun hseek ⊢
  generalize (v.severed error).begin = begun at hbegun ⊢
  cases hbegun with
  | same result hmore => exact compared_read hnext hmore .start Reading.Covers.blanks
  | cut result hwhole hbroken hposition =>
    dsimp only at hseek ⊢
    rw [hseek]
    refine .cut _ ?_ hbroken hposition
    rw [hahead, ahead, hbegin, hwhole]
    rfl

theorem compared_scanHere (h : v.Along limit text) (hmore : v.tape.text ≠ []) :
    Compared error text v.scanHere (v.severed error).scanHere := by
  obtain ⟨c, rest, htext⟩ := List.exists_cons_of_ne_nil hmore
  have hstart : Along limit text { v with tokenStart := v.position } :=
    ⟨h.limit, h.failed, h.stop, h.taken⟩
  have hcovers : (Reading.token v.limit c rest).Covers [] v.tape.text :=
    htext ▸ Reading.Covers.token v.limit c
  have hbroken : (v.severed error).tape.text = c :: rest := htext
  rw [scanHere_of_cons htext, scanHere_of_cons hbroken]
  exact (compared_read hstart hmore v.position hcovers).map _

/-- One call does the same, or the failure takes the place of what it would give. -/
theorem compared_next (h : v.Along limit text)
    (hfirst : v.tape.text ≠ [] ∨ v.phase = .fresh ∧ text = []) :
    Compared error text v.next (v.severed error).next := by
  obtain ⟨next, hseek, hnext, -⟩ := h.seek
  have hsought : Compared error text v.seek (v.severed error).seek := compared_seek h hfirst
  rw [View.next, View.next]
  rw [hseek] at hsought ⊢
  generalize (v.severed error).seek = sought at hsought ⊢
  cases hsought with
  | same result hmore => exact compared_scanHere hnext hmore
  | cut result hwhole hbroken hposition =>
    dsimp only
    rw [scanHere_of_nil hwhole]
    exact .cut _ hwhole hbroken hposition

end View

namespace Lexer

variable {error : ReadError} {limit : Option Nat} {text : List Char} {whole broken : Lexer}

def Item.endsBefore (length : Nat) (item : Item) : Bool :=
  item.stop.offset < length

/-- The failure is reported where the last character stands, and the lexer is behind it. -/
def failureBehind (error : ReadError) (text : List Char) : Item :=
  ⟨.error ⟨.streamRead error, Position.start.pastAll text.dropLast⟩, Position.start.pastAll text⟩

theorem scan_of_over (h : whole.nextPlaced.lexer.Over) :
    whole.scan.result = [] ∨
      ∃ outcome, whole.scan.result = [⟨outcome, whole.nextPlaced.lexer.position⟩] := by
  rcases end_or_item whole with hend | ⟨outcome, hitem⟩
  · rw [scan_of_end hend]
    exact .inl rfl
  · rw [scan_of_item hitem, h.scan]
    exact .inr ⟨outcome, rfl⟩

theorem scan_of_error {first : LexError} (hresult : broken.nextPlaced.result = .error first)
    (h : broken.nextPlaced.lexer.Over) :
    broken.scan.result = [⟨.error first, broken.nextPlaced.lexer.position⟩] ∧
      broken.scan.lexer.position = broken.nextPlaced.lexer.position := by
  have hitem : broken.nextPlaced.result = (Except.error first : Except LexError Placed).map some :=
    hresult
  have hlast : broken.nextPlaced.lexer.scan.lexer.cursor = broken.nextPlaced.lexer.cursor :=
    (h.keeps .scan).2
  rw [scan_of_item hitem, h.scan]
  exact ⟨rfl, congrArg Cursor.position hlast⟩

/-- Text is left behind a call that gives the same to both; otherwise both are at their end. -/
theorem nextPlaced_severed (hwhole : whole.Ready) (hbroken : broken.Ready)
    (halong : whole.view.Along limit text) (hview : broken.view = whole.view.severed error)
    (hfirst : whole.view.tape.text ≠ [] ∨ whole.phase = .fresh ∧ text = []) :
    (broken.nextPlaced.result = whole.nextPlaced.result ∧
        broken.nextPlaced.lexer.view = whole.nextPlaced.lexer.view.severed error ∧
        whole.nextPlaced.lexer.view.tape.text ≠ []) ∨
      (broken.nextPlaced.result =
          .error ⟨.streamRead error, Position.start.pastAll text.dropLast⟩ ∧
        broken.nextPlaced.lexer.Over ∧ whole.nextPlaced.lexer.Over ∧
        broken.nextPlaced.lexer.position = Position.start.pastAll text) := by
  obtain ⟨hwholeSeen, hwholeStarted⟩ := seen_nextPlaced hwhole
  obtain ⟨hbrokenSeen, hbrokenStarted⟩ := seen_nextPlaced hbroken
  have hcompared : View.Compared error text whole.nextPlaced.seen broken.nextPlaced.seen := by
    rw [hwholeSeen, hbrokenSeen, hview]
    exact View.compared_next halong hfirst
  generalize hwholeCall : whole.nextPlaced.seen = x at hcompared
  generalize hbrokenCall : broken.nextPlaced.seen = y at hcompared
  cases hcompared with
  | same result hmore =>
    obtain ⟨rfl, rfl⟩ := Prod.mk.inj hwholeCall
    obtain ⟨hresult, hsevered⟩ := Prod.mk.inj hbrokenCall
    exact .inl ⟨hresult, hsevered, hmore⟩
  | cut result hwholeText hbrokenText hposition =>
    obtain ⟨rfl, rfl⟩ := Prod.mk.inj hwholeCall
    obtain ⟨hresult, rfl⟩ := Prod.mk.inj hbrokenCall
    exact .inr ⟨hresult, over_of_text hbrokenStarted hbrokenText,
      over_of_text hwholeStarted hwholeText, hposition⟩

/-- The items that end before the last character does, and then the failure. -/
theorem scan_severed (hwhole : whole.Ready) (hbroken : broken.Ready)
    (halong : whole.view.Along limit text) (hview : broken.view = whole.view.severed error)
    (hfirst : whole.view.tape.text ≠ [] ∨ whole.phase = .fresh ∧ text = [])
    (hroom : text.length < Position.maxCount) :
    broken.scan.result =
        whole.scan.result.filter (Item.endsBefore (Utf8.encode text).length) ++
          [failureBehind error text] ∧
      broken.scan.lexer.position = Position.start.pastAll text := by
  induction hweight : whole.weight using Nat.strongRecOn generalizing whole broken with
  | ind weight ih =>
    have hnext := along_nextPlaced hwhole halong
    have hwithin : whole.nextPlaced.lexer.position.offset < (Utf8.encode text).length ↔
        whole.nextPlaced.lexer.view.tape.text ≠ [] := hnext.offset_lt_iff hroom
    rcases nextPlaced_severed hwhole hbroken halong hview hfirst with
      ⟨hresult, hsevered, hmore⟩ | ⟨hresult, hbrokenOver, hwholeOver, hposition⟩
    · rcases end_or_item whole with hend | ⟨outcome, hitem⟩
      · exact absurd (text_of_over (over_of_end hwhole hend)) hmore
      · have hposition : broken.nextPlaced.lexer.position = whole.nextPlaced.lexer.position :=
          congrArg View.position hsevered
        have hkept : Item.endsBefore (Utf8.encode text).length
            ⟨outcome, whole.nextPlaced.lexer.position⟩ = true :=
          decide_eq_true (hwithin.mpr hmore)
        obtain ⟨hitems, hlast⟩ := ih _ (hweight ▸ weight_lt_of_item hitem)
          (ready_nextPlaced hwhole) (ready_nextPlaced hbroken) hnext hsevered (.inl hmore) rfl
        rw [scan_of_item hitem, scan_of_item (hresult.trans hitem)]
        dsimp only
        rw [hitems, hposition, List.filter_cons_of_pos hkept]
        exact ⟨rfl, hlast⟩
    · obtain ⟨hitems, hlast⟩ := scan_of_error hresult hbrokenOver
      have hlost : ∀ outcome, ¬Item.endsBefore (Utf8.encode text).length
          ⟨outcome, whole.nextPlaced.lexer.position⟩ = true := by
        intro outcome hkept
        exact hwithin.mp (of_decide_eq_true hkept) (text_of_over hwholeOver)
      have hnothing : whole.scan.result.filter (Item.endsBefore (Utf8.encode text).length) = [] := by
        rcases scan_of_over hwholeOver with hnone | ⟨outcome, hone⟩
        · rw [hnone, List.filter_nil]
        · rw [hone, List.filter_cons_of_neg (hlost outcome), List.filter_nil]
      rw [hitems, hlast, hnothing, hposition]
      exact ⟨rfl, rfl⟩

/-- A failure behind a text cuts its scan short. What needed the character that cannot be read is
lost, and everything before it is as in the scan of the text alone. -/
theorem scan_of_failure {reader : Reader} {text : List Char} {rest later : List Signal}
    {error : ReadError} (hroom : text.length < Position.maxCount)
    (hsignals : reader.signals = (Utf8.encode text).map .byte ++ rest)
    (hfails : Signal.Decodes (Utf8.encode text).length rest (.error error) later)
    (config : Config) :
    let whole := (new (.ofBytes (Utf8.encode text)) config).scan
    let broken := (new reader config).scan
    broken.result = whole.result.filter (Item.endsBefore (Utf8.encode text).length) ++
        [failureBehind error text] ∧
      broken.lexer.position = Position.start.pastAll text := by
  intro whole broken
  have hoffset : (Utf8.encode text).length = (Position.start.pastAll text).offset := by
    rw [Position.pastAll_start hroom]
    rfl
  have hwhole := tape_new text config
  have hbroken : (new reader config).view.tape = ⟨text, some error⟩ :=
    Source.tape_of_failure .start (Nat.le_max_right _ _) hsignals (hoffset ▸ hfails)
  have hview : (new reader config).view =
      (new (.ofBytes (Utf8.encode text)) config).view.severed error := by
    rw [View.severed, hwhole, ← hbroken]
    rfl
  refine scan_severed (ready_new _ config) (ready_new reader config) (along_new text config) hview
    ?_ hroom
  rw [hwhole]
  exact (em (text = [])).symm.imp_right fun hnil => ⟨rfl, hnil⟩

/-- A word and the beginning of a string that breaks off behind a backslash, with a failure within
the bytes of its next character. -/
def brokenOff : Reader :=
  ⟨[.data [0x78, 0x20], .data [0x22, 0x61, 0x5C, 0xC3], .fail ⟨.connectionReset, none⟩,
    .data [0xA9, 0x22]]⟩

theorem scan_of_failure_brokenOff :
    let text := "x \"a\\".toList
    let whole := (new (.ofBytes (Utf8.encode text)) {}).scan
    let broken := (new brokenOff {}).scan
    text.length < Position.maxCount ∧
      whole.result.map Item.stop = [⟨1, 2, 1⟩, ⟨1, 6, 5⟩] ∧
      broken.result = whole.result.filter (Item.endsBefore 5) ++
        [failureBehind (.failed ⟨.connectionReset, none⟩) text] ∧
      broken.lexer.position = ⟨1, 6, 5⟩ := by
  intro text whole broken
  have hroom : text.length < Position.maxCount := by decide
  have hsignals : brokenOff.signals = (Utf8.encode text).map .byte ++
      [.byte 0xC3, .failure ⟨.connectionReset, none⟩, .byte 0xA9, .byte 0x22] := by decide
  have hshort : ([] : List UInt8).length + 1 < 2 := by decide
  have hfails := Signal.Decodes.cut (by decide : Utf8.groupLength? 0xC3 = some 2) hshort
    (rfl : Signal.gap 5 [.failure ⟨.connectionReset, none⟩, .byte 0xA9, .byte 0x22] = some _)
  obtain ⟨hitems, hposition⟩ := scan_of_failure hroom hsignals hfails {}
  exact ⟨hroom, by decide +kernel, hitems, hposition.trans (by decide)⟩

end Lexer

end StreamLexer
