import StreamLexer.Proofs.Lexer.Finality
import StreamLexer.Proofs.Lexer.OnText
import StreamLexer.Proofs.Scan.Lookahead
import StreamLexer.Proofs.Stream.Decoding

/-! # Every call gets on

A call that gives a token or an error has taken a character, whatever the stream does, unless it is
the first one and fails to read the first character. So a scan ends: there are no more items than
characters, and one.
-/

set_option autoImplicit false

namespace StreamLexer

open CharClass Lexer

namespace View

variable {α : Type} {v w : View} {taken : List Char}

/-- From the one view to the other this part of the text is taken. -/
structure Takes (v : View) (taken : List Char) (w : View) : Prop where
  text : taken ++ w.tape.text = v.tape.text
  position : w.position = v.position.pastAll taken

theorem Takes.trans {u : View} {more : List Char} (h : v.Takes taken w) (hmore : w.Takes more u) :
    v.Takes (taken ++ more) u := by
  obtain ⟨htext, hposition⟩ := h
  obtain ⟨htext', hposition'⟩ := hmore
  refine ⟨?_, ?_⟩
  · rw [List.append_assoc, htext', htext]
  · rw [hposition', hposition, Position.pastAll_append]

theorem takes_read {behind : List Char} {reading : Reading α} (start : Position)
    (hcovers : reading.Covers behind v.tape.text) :
    v.Takes reading.taken (v.read start reading).2 := by
  refine ⟨?_, rfl⟩
  rw [View.read, Tape.settled_text]
  exact hcovers.split

/-- A reading that succeeds by itself fails only by the stream, with the last of its characters. -/
theorem taken_of_read {start : Position} {reading : Reading α} {a : α} {error : LexError}
    (hresult : reading.result = .ok a) (h : (v.read start reading).1 = .error error) :
    reading.taken ≠ [] := by
  intro hnil
  obtain ⟨result, taken, rest⟩ := reading
  cases hresult
  cases hnil
  rw [View.read, Reading.outcome_of_not_met (Reading.met_nil _ _)] at h
  cases h

/-- The first character cannot be read. -/
def FailsFirst (v : View) (error : LexError) : Prop :=
  v.phase = .fresh ∧ v.tape.text = [] ∧ ∃ failure, error = ⟨.streamRead failure, v.position⟩

theorem takes_begin (v : View) :
    ∃ taken, v.Takes taken v.begin.2 ∧
      ∀ error, v.begin.1 = .error error → taken ≠ [] ∨ v.FailsFirst error := by
  cases hphase : v.phase with
  | started =>
    rw [View.begin, hphase]
    exact ⟨[], ⟨rfl, rfl⟩, fun _ herror => by cases herror⟩
  | fresh =>
    cases htext : v.tape.text with
    | nil =>
      rw [begin_of_nil hphase htext]
      refine ⟨[], ⟨htext.symm, rfl⟩, fun error herror => .inr ⟨hphase, htext, ?_⟩⟩
      obtain ⟨limit, skipMark, phase, failed, tokenStart, position, text, _ | stop⟩ := v
      · cases htext
        cases herror
      · cases htext
        cases herror
        exact ⟨stop, rfl⟩
    | cons c rest =>
      rw [begin_of_cons hphase htext]
      split
      · rename_i hmark
        simp only [Bool.and_eq_true, decide_eq_true_eq] at hmark
        have hcovers : Reading.Covers [] v.tape.text
            (⟨.ok (), [byteOrderMark], rest⟩ : Reading Unit) :=
          ⟨by rw [htext, hmark.2]; rfl, fun _ hfault => by cases hfault⟩
        obtain ⟨hmarkText, hposition⟩ :=
          takes_read (v := { v with phase := .started }) .start hcovers
        exact ⟨_, ⟨hmarkText, hposition⟩, fun _ _ => .inl (List.cons_ne_nil _ _)⟩
      · exact ⟨[], ⟨rfl, rfl⟩, fun _ herror => by cases herror⟩

theorem takes_seek (v : View) :
    ∃ taken, v.Takes taken v.seek.2 ∧
      ∀ error, v.seek.1 = .error error → taken ≠ [] ∨ v.FailsFirst error := by
  obtain ⟨taken, htaken, hbegin⟩ := v.takes_begin
  rw [View.seek]
  generalize v.begin = begun at htaken hbegin
  obtain ⟨first | ⟨⟩, next⟩ := begun
  · exact ⟨taken, htaken, hbegin⟩
  · have hblanks : (Reading.blanks next.tape.text).Covers [] next.tape.text := .blanks
    refine ⟨_, htaken.trans (takes_read .start hblanks), fun error herror => .inl ?_⟩
    have hmore := taken_of_read (congrArg Reading.result (Reading.blanks_eq _)) herror
    exact List.append_ne_nil_of_right_ne_nil _ hmore

theorem takes_scanHere (v : View) :
    ∃ taken, v.Takes taken v.scanHere.2 ∧ (v.scanHere.1 ≠ .ok none → taken ≠ []) := by
  cases htext : v.tape.text with
  | nil =>
    rw [scanHere_of_nil htext]
    exact ⟨[], ⟨rfl, rfl⟩, fun h => absurd rfl h⟩
  | cons c rest =>
    obtain ⟨tail, htail⟩ := Reading.exists_taken v.limit c rest
    rw [scanHere_of_cons htext]
    have hcovers : (Reading.token v.limit c rest).Covers [] v.tape.text :=
      htext ▸ Reading.Covers.token v.limit c
    obtain ⟨hsplit, hposition⟩ :=
      takes_read (v := { v with tokenStart := v.position }) v.position hcovers
    refine ⟨_, ⟨hsplit, hposition⟩, fun _ => ?_⟩
    rw [htail]
    exact List.cons_ne_nil _ _

/-- What a call takes. It takes something if it gives an item, unless it fails at once. -/
theorem takes_next (v : View) :
    ∃ taken, v.Takes taken v.next.2 ∧ (v.next.1 ≠ .ok none →
      taken ≠ [] ∨ ∃ error, v.next.1 = .error error ∧ v.FailsFirst error) := by
  obtain ⟨taken, htaken, hseek⟩ := v.takes_seek
  rw [View.next]
  generalize v.seek = sought at htaken hseek
  obtain ⟨error | ⟨⟩, next⟩ := sought
  · exact ⟨taken, htaken, fun _ => (hseek error rfl).imp_right fun h => ⟨error, rfl, h⟩⟩
  · obtain ⟨more, hmore, hitem⟩ := next.takes_scanHere
    exact ⟨taken ++ more, htaken.trans hmore, fun h =>
      .inl (List.append_ne_nil_of_right_ne_nil _ (hitem h))⟩

end View

namespace Lexer

variable {text : List Char} {lexer : Lexer}

theorem exists_takes (hready : lexer.Ready) :
    ∃ taken, lexer.view.Takes taken lexer.nextPlaced.lexer.view ∧
      (lexer.nextPlaced.result ≠ .ok none →
        taken ≠ [] ∨ ∃ error, lexer.nextPlaced.result = .error error ∧
          lexer.view.FailsFirst error) := by
  rw [result_nextPlaced hready, view_nextPlaced hready]
  exact lexer.view.takes_next

/-! ## Offsets -/

/-- In front of what is left of the text, with room for it in the offset. -/
structure Within (text : List Char) (lexer : Lexer) : Prop where
  ready : lexer.Ready
  left : lexer.tape.text <:+ text
  offset : lexer.position.offset + (Utf8.encode lexer.tape.text).length ≤ Position.maxOffset
  first : lexer.phase = .fresh → lexer.tape.text = text ∧ lexer.position = .start

theorem Within.offset_of_takes (h : lexer.Within text) {taken : List Char} {next : View}
    (htakes : lexer.view.Takes taken next) :
    next.position.offset = lexer.position.offset + (Utf8.encode taken).length ∧
      next.position.offset + (Utf8.encode next.tape.text).length ≤ Position.maxOffset := by
  have hoffset := h.offset
  have htext : lexer.tape.text = taken ++ next.tape.text := htakes.text.symm
  rw [htext, Utf8.encode_append, List.length_append] at hoffset
  have hposition : next.position.offset = lexer.position.offset + (Utf8.encode taken).length := by
    rw [htakes.position]
    exact Position.offset_pastAll_of_le (by change lexer.position.offset + _ ≤ _; omega)
  exact ⟨hposition, by omega⟩

theorem Within.call (h : lexer.Within text) : lexer.nextPlaced.lexer.Within text := by
  obtain ⟨taken, htakes, -⟩ := exists_takes h.ready
  obtain ⟨-, hroom⟩ := h.offset_of_takes htakes
  have hsuffix : lexer.nextPlaced.lexer.tape.text <:+ lexer.tape.text := ⟨taken, htakes.text⟩
  refine ⟨ready_nextPlaced h.ready, hsuffix.trans h.left, hroom, fun hfresh => ?_⟩
  cases hfresh.symm.trans (started_nextPlaced h.ready)

theorem invariant_within (text : List Char) : Invariant (Within text) where
  call h := h.call
  fail h := { h.call with }

theorem within_new {reader : Reader}
    (hbytes : reader.remaining.length ≤ Position.maxOffset) (config : Config) :
    (new reader config).Within (Cursor.new reader config.bufferCapacity).collect.text := by
  have htape : (new reader config).tape = (Cursor.new reader config.bufferCapacity).collect :=
    (Cursor.collect_eq_tape (Cursor.new reader config.bufferCapacity)).symm
  refine ⟨ready_new reader config, htape ▸ List.suffix_rfl, ?_, fun _ => ⟨by rw [htape], rfl⟩⟩
  have hlength := (Cursor.encode_collect reader config.bufferCapacity).length_le
  have hstart : (new reader config).position.offset = 0 := rfl
  rw [htape, hstart]
  omega

/-! ## The number of items -/

/-- The calls of a lexer find the end behind as many items as a scan gives, and never before. -/
theorem end_iff (hready : lexer.Ready) (calls : Nat) :
    (lexer.after (List.replicate calls .nextPlaced)).nextPlaced.result = .ok none ↔
      lexer.scan.result.length ≤ calls := by
  induction calls generalizing lexer with
  | zero =>
    change lexer.nextPlaced.result = .ok none ↔ _
    rcases end_or_item lexer with hend | ⟨outcome, hitem⟩
    · simp [hend, scan_of_end hend]
    · rw [hitem, scan_of_item hitem]
      cases outcome <;> simp [Except.map]
  | succ calls ih =>
    change (lexer.nextPlaced.lexer.after _).nextPlaced.result = .ok none ↔ _
    rw [ih (ready_nextPlaced hready)]
    rcases end_or_item lexer with hend | ⟨outcome, hitem⟩
    · rw [scan_of_end hend, (over_of_end hready hend).scan]
      simp
    · rw [scan_of_item hitem, List.length_cons, Nat.add_le_add_iff_right]

theorem length_scan_le (hready : lexer.Ready) :
    lexer.scan.result.length ≤ lexer.tape.text.length + if lexer.phase = .fresh then 1 else 0 := by
  induction lexer using scan_induction with
  | ended lexer hend =>
    rw [scan_of_end hend]
    exact Nat.zero_le _
  | item lexer outcome hitem ih =>
    have hsome : lexer.nextPlaced.result ≠ .ok none := by
      rw [hitem]
      cases outcome <;> simp [Except.map]
    obtain ⟨taken, htakes, hgets⟩ := exists_takes hready
    have hrest := ih (ready_nextPlaced hready)
    have hlength : taken.length + lexer.nextPlaced.lexer.tape.text.length =
        lexer.tape.text.length := by
      rw [← List.length_append]
      exact congrArg List.length htakes.text
    rw [if_neg (by simp [started_nextPlaced hready])] at hrest
    rw [scan_of_item hitem, List.length_cons]
    rcases hgets hsome with hmore | ⟨error, -, hfresh, hnil, -⟩
    · have hpositive := List.length_pos_iff.mpr hmore
      omega
    · have hphase : lexer.phase = .fresh := hfresh
      have hnone : lexer.tape.text = [] := hnil
      rw [hnone, List.length_nil] at hlength
      rw [hnone, if_pos hphase, List.length_nil]
      omega

/-- Whatever the stream does, as long as an offset counts its bytes: every call that gives an item
makes the offset greater, unless it is the first call and reads no character at all. So after any
requests the calls come to the end, behind as many items as there are characters left to be decoded,
or one more. -/
theorem calls_get_on (reader : Reader) (config : Config)
    (hbytes : reader.remaining.length ≤ Position.maxOffset) (requests : List Request) :
    let decoded := (Cursor.new reader config.bufferCapacity).collect.text
    let lexer := (new reader config).after requests
    let items := lexer.scan.result.length
    (lexer.nextPlaced.result ≠ .ok none →
        lexer.position.offset < lexer.nextPlaced.lexer.position.offset ∨
          requests.any Request.isCall = false ∧ decoded = [] ∧
            ∃ failure, lexer.nextPlaced.result = .error ⟨.streamRead failure, .start⟩) ∧
      (∀ calls, (lexer.after (List.replicate calls .nextPlaced)).nextPlaced.result = .ok none ↔
        items ≤ calls) ∧
      lexer.tape.text <:+ decoded ∧ items ≤ lexer.tape.text.length + 1 := by
  intro decoded lexer items
  have hwithin : lexer.Within decoded :=
    (invariant_within decoded).after (within_new hbytes config) requests
  refine ⟨fun hsome => ?_, end_iff hwithin.ready, hwithin.left, ?_⟩
  · obtain ⟨taken, htakes, hgets⟩ := exists_takes hwithin.ready
    obtain ⟨hoffset, -⟩ := hwithin.offset_of_takes htakes
    rcases hgets hsome with hmore | ⟨error, herror, hfresh, hnil, failure, rfl⟩
    · have hpositive := Utf8.length_encode_pos hmore
      have hlater : lexer.nextPlaced.lexer.position.offset = _ := hoffset
      exact .inl (by omega)
    · obtain ⟨htext, hstart⟩ := hwithin.first hfresh
      have hphase := (coherent_new reader config).after requests
      refine .inr ⟨?_, htext.symm.trans hnil, failure, ?_⟩
      · by_contra hcall
        rw [if_pos (by simpa using hcall)] at hphase
        cases hphase.symm.trans hfresh
      · rw [herror, ← hstart]
        rfl
  · have hitems := length_scan_le hwithin.ready
    split at hitems <;> omega

/-- Behind the word the failure is met, and then the calls are at the end. -/
theorem calls_get_on_relentless :
    let lexer := (new relentless {}).after [.next]
    relentless.remaining.length ≤ Position.maxOffset ∧
      errorsOf lexer.nextPlaced.result =
        [⟨.streamRead (.failed ⟨.connectionReset, none⟩), ⟨1, 2, 1⟩⟩] ∧
      lexer.position.offset < lexer.nextPlaced.lexer.position.offset ∧
      lexer.tape.text = [' '] ∧ lexer.scan.result.length = 1 ∧
      ∀ calls, (lexer.after (List.replicate calls .nextPlaced)).nextPlaced.result = .ok none ↔
        1 ≤ calls := by
  intro lexer
  have hbytes : relentless.remaining.length ≤ Position.maxOffset := by decide
  have herrors : errorsOf lexer.nextPlaced.result =
      [⟨.streamRead (.failed ⟨.connectionReset, none⟩), ⟨1, 2, 1⟩⟩] := by
    decide +kernel
  have hone : lexer.scan.result.length = 1 := by decide +kernel
  have hsome : lexer.nextPlaced.result ≠ .ok none := by
    intro hend
    rw [hend] at herrors
    cases herrors
  obtain ⟨hgets, hend, -, -⟩ := calls_get_on relentless {} hbytes [.next]
  rw [hone] at hend
  have hcalled : ¬([.next] : List Request).any Request.isCall = false := by decide
  exact ⟨hbytes, herrors, (hgets hsome).resolve_right fun h => hcalled h.1, by decide +kernel, hone,
    hend⟩

end Lexer

end StreamLexer
