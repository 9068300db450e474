import Mathlib.Control.Monad.Basic
import Mathlib.Data.List.Forall2
import StreamLexer.Proofs.Lexer.Positions
import StreamLexer.Proofs.Lexer.Reports

/-! # The log of a lexer on a text

On a text without failures every call comes to look for a token, so it reports what it returns. The
log of a lexer is then its creation, the mark that the first call skips, and one record for each
call: the token that stands in the text, the error, or the end.
-/

set_option autoImplicit false

namespace StreamLexer.Lexer

open CharClass Grammar

variable {limit : Option Nat} {text : List Char} {lexer : Lexer} {request : Request}

/-- What is to be seen of all events, from the creation of the lexer on. -/
def log (reader : Reader) (config : Config) (requests : List Request) : List Event.Record :=
  let creation := create reader config
  (creation.events ++ (creation.lexer.session requests).flatMap Call.events).map Event.record

/-- A scan reports what its calls report: one for each item, and one more that finds the end. -/
theorem events_scan (lexer : Lexer) :
    lexer.scan.events = (lexer.session
      (List.replicate (lexer.scan.result.length + 1) .nextPlaced)).flatMap Call.events := by
  induction lexer using scan_induction with
  | ended lexer hend =>
    rw [scan_of_end hend]
    exact (List.append_nil _).symm
  | item lexer outcome hitem ih =>
    rw [scan_of_item hitem, List.replicate_succ, session, List.flatMap_cons]
    exact congrArg (lexer.nextPlaced.events ++ ·) ih

theorem log_eq (reader : Reader) (config : Config) (requests : List Request) :
    log reader config requests = (Event.created config).record ::
      (((new reader config).session requests).flatMap Call.events).map Event.record := rfl

theorem transcript_eq_log (reader : Reader) (config : Config) :
    let lexer := new reader config
    lexer.transcript.map Event.record =
      log reader config (List.replicate (lexer.scan.result.length + 1) .nextPlaced) := by
  intro lexer
  rw [transcript, events_scan, log_eq]
  rfl

/-- The answer tells of this result, with the place of the token or without it. -/
def Answer.Tells (answer : Answer) (result : Except LexError (Option Placed)) : Prop :=
  answer = .placed result ∨ answer = .token (result.map (·.map Placed.token))

/-- The record of one call: of the token that stands in the text there, of the error, or of the end
of the text. -/
inductive Logged (text : List Char) (call : Call Answer) : Event.Record → Prop
  | scanned {placed : Placed} {before lexeme after : List Char}
      (tells : call.result.Tells (.ok (some placed)))
      (split : before ++ lexeme ++ after = text) (denotes : Denotes lexeme placed.token)
      (start : placed.start = Position.start.pastAll before)
      (latest : call.lexer.tokenStart = placed.start)
      (stop : call.lexer.position = placed.start.pastAll lexeme) :
      Logged text call ⟨.trace, "scanned token",
        [("kind", .text placed.token.kindName), ("token", .text placed.token.render),
          ("position", .text placed.start.render)]⟩
  | failed {error : LexError} (tells : call.result.Tells (.error error)) :
      Logged text call ⟨.debug, "lexing failed", [("error", .text error.message)]⟩
  | ended (tells : call.result.Tells (.ok none))
      (stop : call.lexer.position = Position.start.pastAll text) :
      Logged text call ⟨.debug, "end of stream", [("position", .text call.lexer.position.render)]⟩

/-! ## One call -/

theorem seek_of_along (hready : lexer.Ready) (halong : lexer.view.Along limit text) :
    lexer.seek.result = .ok () := by
  obtain ⟨next, hseek, -⟩ := halong.seek
  rw [result_seek hready, hseek]

theorem position_of_end (hready : lexer.Ready) (halong : lexer.view.Along limit text)
    (hend : lexer.nextPlaced.result = .ok none) :
    lexer.nextPlaced.lexer.position = Position.start.pastAll text := by
  obtain ⟨before, htext, hposition⟩ := halong.taken
  have hskips := View.skips_of_end halong.stop ((result_nextPlaced hready).symm.trans hend)
  have hnext : lexer.nextPlaced.lexer.view.position = lexer.view.position.pastAll
      lexer.view.tape.text := by
    rw [view_nextPlaced hready, View.next_of_gap halong.stop hskips]
    rfl
  rw [← htext, Position.pastAll_append, ← hposition]
  exact hnext

/-- The event that a call ends with is the right one for what it returns. -/
theorem logged_nextPlaced (hready : lexer.Ready) (halong : lexer.view.Along limit text)
    {call : Call Answer} (htells : call.result.Tells lexer.nextPlaced.result)
    (hlexer : call.lexer = lexer.nextPlaced.lexer) :
    Logged text call (Event.ofResult lexer.nextPlaced.result call.lexer.position).record := by
  cases hresult : lexer.nextPlaced.result with
  | error error => exact .failed (hresult ▸ htells)
  | ok found =>
    cases found with
    | none =>
      refine .ended (hresult ▸ htells) ?_
      rw [hlexer]
      exact position_of_end hready halong hresult
    | some placed =>
      obtain ⟨before, htext, hposition⟩ := halong.taken
      obtain ⟨gap, lexeme, hstep⟩ := View.exists_step halong.stop
      rw [← result_nextPlaced hready, ← view_nextPlaced hready] at hstep
      obtain ⟨hstart, hdenotes⟩ := hstep.placed placed hresult
      have hsplit : before ++ gap ++ lexeme ++ lexer.nextPlaced.lexer.view.tape.text = text := by
        rw [List.append_assoc, List.append_assoc, hstep.text, htext]
      refine .scanned (hresult ▸ htells) hsplit hdenotes ?_ ?_ ?_
      · rw [hstart, hstep.tokenStart, hposition, Position.pastAll_append]
      · rw [hlexer, hstart]
        rfl
      · rw [hlexer, hstart]
        exact hstep.position

theorem answer_tells (h : request = .nextToken ∨ request = .nextPlaced) :
    (lexer.answer request).result.Tells lexer.nextPlaced.result ∧
      (lexer.answer request).events = lexer.nextPlaced.events ∧
      (lexer.answer request).lexer = lexer.nextPlaced.lexer := by
  rcases h with rfl | rfl
  · exact ⟨.inr rfl, rfl, rfl⟩
  · exact ⟨.inl rfl, rfl, rfl⟩

theorem logged_answer (hready : lexer.Ready) (halong : lexer.view.Along limit text)
    (hcall : request = .nextToken ∨ request = .nextPlaced) :
    ∃ entry, (lexer.answer request).events.map Event.record =
        lexer.begin.events.map Event.record ++ [entry] ∧
      Logged text (lexer.answer request) entry := by
  obtain ⟨htells, hevents, hlexer⟩ := @answer_tells lexer request hcall
  refine ⟨_, ?_, logged_nextPlaced hready halong htells hlexer⟩
  rw [hevents, events_of_seek_ok (seek_of_along hready halong), List.map_append, hlexer]
  rfl

/-! ## All calls -/

/-- A lexer that has begun reports one event a call. -/
theorem logged_session (hready : lexer.Ready) (halong : lexer.view.Along limit text)
    (hstarted : lexer.phase = .started) {requests : List Request}
    (hcalls : ∀ request ∈ requests, request = .nextToken ∨ request = .nextPlaced) :
    List.Forall₂ (Logged text) (lexer.session requests)
      (((lexer.session requests).flatMap Call.events).map Event.record) := by
  induction requests generalizing lexer with
  | nil => exact .nil
  | cons request rest ih =>
    have hcall := hcalls request List.mem_cons_self
    obtain ⟨entry, hevents, hlogged⟩ := logged_answer hready halong hcall
    have hbegin : lexer.begin.events = [] := by rw [begin, hstarted]
    rw [hbegin, List.map_nil, List.nil_append] at hevents
    rw [session, List.flatMap_cons, List.map_append, hevents]
    refine .cons hlogged ?_
    rw [(answer_tells hcall).2.2]
    exact ih (ready_nextPlaced hready) (along_nextPlaced hready halong)
      (started_nextPlaced hready) fun request hmem => hcalls request (List.mem_cons_of_mem _ hmem)

theorem along_of_delivers {reader : Reader} (h : reader.Delivers (Utf8.encode text))
    (config : Config) : (new reader config).view.Along config.maxLiteralLength text where
  limit := rfl
  failed := rfl
  stop := congrArg Tape.stop (tape_of_delivers h config)
  taken := ⟨[], congrArg Tape.text (tape_of_delivers h config), rfl⟩

theorem events_begin_new {reader : Reader} (h : reader.Delivers (Utf8.encode text))
    (config : Config) :
    (new reader config).begin.events =
      if config.skipMark = true ∧ text.head? = some byteOrderMark then [.skippedMark] else [] := by
  obtain ⟨hmarked, hunmarked⟩ := events_begin (ready_new reader config)
  have hiff : (new reader config).view.Marked ↔
      config.skipMark = true ∧ text.head? = some byteOrderMark := by
    rw [View.Marked, tape_of_delivers h config]
    exact ⟨fun h => ⟨h.1, h.2.2⟩, fun h => ⟨h.1, rfl, h.2⟩⟩
  split
  · rename_i hmark
    exact hmarked (hiff.mpr hmark)
  · rename_i hmark
    exact hunmarked (mt hiff.mp hmark)

/-- On a text the log is the creation of the lexer with its settings; then, if there is a call and
the text starts with a mark that is to be skipped, that it is skipped; and then one record for each
call, in the order of the calls. -/
theorem log_of_text {reader : Reader} (h : reader.Delivers (Utf8.encode text)) (config : Config)
    {requests : List Request}
    (hcalls : ∀ request ∈ requests, request = .nextToken ∨ request = .nextPlaced) :
    let lexer := new reader config
    ∃ entries, List.Forall₂ (Logged text) (lexer.session requests) entries ∧
      log reader config requests =
        ⟨.debug, "creating lexer",
          [("buffer_capacity", .count config.bufferCapacity), ("skip_bom", .flag config.skipMark),
            ("max_literal_len", .text (match config.maxLiteralLength with
              | none => "None"
              | some n => "Some(" ++ Nat.repr n ++ ")"))]⟩ ::
        ((if requests ≠ [] ∧ config.skipMark = true ∧ text.head? = some byteOrderMark then
            [⟨.trace, "skipping byte order mark", []⟩] else []) ++ entries) := by
  intro lexer
  have hready : lexer.Ready := ready_new reader config
  have halong := along_of_delivers h config
  cases requests with
  | nil =>
    refine ⟨[], .nil, ?_⟩
    rw [if_neg fun hmark => hmark.1 rfl]
    rfl
  | cons request rest =>
    have hcall := hcalls request List.mem_cons_self
    obtain ⟨entry, hevents, hlogged⟩ := logged_answer hready halong hcall
    have hlater := logged_session (ready_nextPlaced hready) (along_nextPlaced hready halong)
      (started_nextPlaced hready) fun request hmem => hcalls request (List.mem_cons_of_mem _ hmem)
    rw [← (answer_tells hcall).2.2] at hlater
    refine ⟨entry :: _, .cons hlogged hlater, ?_⟩
    rw [log_eq, session, List.flatMap_cons, List.map_append, hevents, events_begin_new h config,
      List.append_assoc]
    simp only [ne_eq, reduceCtorEq, not_false_eq_true, true_and]
    split <;> rfl

/-- A mark, a token of each kind, an error of each cause that a text can give, with one character
that is shown, one that is quoted and one that is not seen, and the end, which is found twice. -/
theorem log_of_text_marked :
    let text :=
      "\ufeffif x <= 07 1.5\n\"\\n\" 1. 2147483648 & @ ' \u200b underscored \"\\q\"".toList
    let reader := Reader.ofBytes (Utf8.encode text)
    let config : Config := ⟨16, true, some 10⟩
    let requests : List Request := [.nextPlaced, .nextToken, .nextToken, .nextPlaced, .nextPlaced,
      .nextToken, .nextPlaced, .nextToken, .nextPlaced, .nextPlaced, .nextToken, .nextToken,
      .nextPlaced, .nextPlaced, .nextToken, .nextToken, .nextPlaced]
    let scanned (kind token position : String) : Event.Record :=
      ⟨.trace, "scanned token",
        [("kind", .text kind), ("token", .text token), ("position", .text position)]⟩
    let failed (error : String) : Event.Record :=
      ⟨.debug, "lexing failed", [("error", .text error)]⟩
    let ended : Event.Record := ⟨.debug, "end of stream", [("position", .text "2:44")]⟩
    let opening : List Event.Record :=
      [⟨.debug, "creating lexer", [("buffer_capacity", .count 16), ("skip_bom", .flag true),
          ("max_literal_len", .text "Some(10)")]⟩,
        ⟨.trace, "skipping byte order mark", []⟩]
    let entries : List Event.Record :=
      [scanned "keyword" "if" "1:2", scanned "identifier" "x" "1:5", scanned "operator" "<=" "1:7",
        scanned "integer literal" "7" "1:10", scanned "float literal" "1.5" "1:13",
        scanned "string literal" "\"\\n\"" "2:1", failed "2:6: malformed number literal '1.'",
        failed "2:9: number literal '2147483648' is out of range",
        failed "2:20: unrecognized operator '&'", failed "2:22: unrecognized character '@'",
        failed "2:24: unrecognized character '\\''",
        failed "2:26: unrecognized character '\\u\x7b200b\x7d'",
        failed "2:28: literal exceeds the maximum length of 10 characters",
        failed "2:41: invalid escape sequence '\\q'", failed "2:43: unterminated string literal",
        ended, ended]
    reader.Delivers (Utf8.encode text) ∧
      (∀ request ∈ requests, request = .nextToken ∨ request = .nextPlaced) ∧
      log reader config requests = opening ++ entries ∧
      List.Forall₂ (Logged text) ((new reader config).session requests) entries := by
  intro text reader config requests scanned failed ended opening entries
  have hdelivers : reader.Delivers (Utf8.encode text) := Reader.delivers_ofBytes _
  have hcalls : ∀ request ∈ requests, request = .nextToken ∨ request = .nextPlaced := by decide
  have hrecords : log reader config requests = opening ++ entries := by decide +kernel
  obtain ⟨found, hlogged, hlog⟩ := log_of_text hdelivers config hcalls
  rw [hrecords, if_pos (by decide)] at hlog
  obtain rfl : entries = found := (List.cons.inj (List.cons.inj hlog).2).2
  exact ⟨hdelivers, hcalls, hrecords, hlogged⟩

end StreamLexer.Lexer
