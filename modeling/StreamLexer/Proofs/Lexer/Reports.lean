import Mathlib.Control.Monad.Basic
import StreamLexer.Proofs.Lexer.Call
import StreamLexer.Proofs.Lexer.Pulling

/-! # What a call reports of errors

A call that comes to look for a token reports what it finds, and so it reports the error that it
returns. A failure of the stream that is met before that, in what the call skips, is returned
without a report. Which of both happens is settled by the text in front of the failure.
-/

set_option autoImplicit false

namespace StreamLexer

open CharClass Grammar Lexer

namespace Event

/-- What is to be seen of an event. -/
structure Record where
  level : Level
  message : String
  fields : List (String × Field)
deriving DecidableEq, Repr

def record (event : Event) : Record := ⟨event.level, event.message, event.fields⟩

/-- The event for the result of a call that has looked for a token and stops there. -/
def ofResult (result : Except LexError (Option Placed)) (stop : Position) : Event :=
  match result with
  | .ok none => .ended stop
  | .ok (some placed) => .scanned placed
  | .error error => .failed error

end Event

namespace View

variable {α : Type} {v : View} {error : LexError}

/-! ## What is skipped in front of a failure -/

theorem ahead_of_marked (h : v.Marked) : v.tape.text = byteOrderMark :: v.ahead := by
  obtain ⟨hskip, hfresh, hhead⟩ := h
  obtain ⟨rest, htext⟩ := List.head?_eq_some_iff.mp hhead
  rw [ahead, begin_of_cons hfresh htext, if_pos (by simp [hskip]), View.read, Tape.settled_text,
    htext]

theorem ahead_of_not_marked (h : ¬v.Marked) : v.ahead = v.tape.text := by
  cases hphase : v.phase with
  | started => exact ahead_of_started hphase
  | fresh =>
    rw [ahead]
    cases htext : v.tape.text with
    | nil =>
      rw [begin_of_nil hphase htext]
      rfl
    | cons c rest =>
      rw [begin_of_cons hphase htext, if_neg (kept_of_not_marked hphase htext h)]
      exact htext

/-- A reading that succeeds by itself can fail only by the stream. -/
theorem stream_of_read {start : Position} {reading : Reading α} {a : α}
    (hresult : reading.result = .ok a) (h : (v.read start reading).1 = .error error) :
    error.isStreamError = true := by
  simp only [View.read, Reading.outcome] at h
  cases hmet : Reading.met v.tape.stop reading.taken reading.rest with
  | some failure =>
    rw [hmet] at h
    cases h
    rfl
  | none =>
    rw [hmet, hresult] at h
    cases h

theorem stream_of_begin (h : v.begin.1 = .error error) : error.isStreamError = true := by
  cases hphase : v.phase with
  | started =>
    rw [View.begin, hphase] at h
    cases h
  | fresh =>
    cases htext : v.tape.text with
    | nil =>
      rw [begin_of_nil hphase htext] at h
      simp only [View.opening] at h
      split at h <;> cases h
      rfl
    | cons c rest =>
      rw [begin_of_cons hphase htext] at h
      split at h
      · exact stream_of_read rfl h
      · cases h

theorem stream_of_seek (h : v.seek.1 = .error error) : error.isStreamError = true := by
  have hbegin := @stream_of_begin v error
  rw [View.seek] at h
  generalize v.begin = begun at h hbegin
  obtain ⟨first | ⟨⟩, next⟩ := begun
  · exact hbegin h
  · exact stream_of_read (congrArg Reading.result (Reading.blanks_eq _)) h

theorem text_of_seek (v : View) : v.seek.2.tape.text = v.ahead.dropWhile isBlank := by
  have hstream := @stream_of_begin v
  have hempty := @text_of_begin_stream v
  rw [ahead, View.seek]
  generalize v.begin = begun at hstream hempty
  obtain ⟨first | ⟨⟩, next⟩ := begun
  · have htext : next.tape.text = [] := hempty rfl (hstream rfl)
    dsimp only
    rw [htext, List.dropWhile_nil]
  · simp only [View.read, Tape.settled_text, Reading.blanks_eq]

/-- A call skips all of the text in front of it if and only if nothing is left to look at. -/
theorem skips_iff (v : View) : v.Skips v.tape.text ↔ v.seek.2.tape.text = [] := by
  have hgap : v.seek.2.tape.text = [] ↔ IsGap v.ahead := by
    rw [text_of_seek, List.dropWhile_eq_nil_iff]
    rfl
  rw [hgap]
  by_cases hmark : v.Marked
  · rw [ahead_of_marked hmark]
    constructor
    · rintro (hblank | ⟨-, -, blanks, heq, hblanks⟩)
      · exact absurd (hblank _ List.mem_cons_self) (by decide)
      · exact (List.cons_eq_cons.mp heq).2 ▸ hblanks
    · exact fun hblanks => .inr ⟨hmark.1, hmark.2.1, _, rfl, hblanks⟩
  · rw [ahead_of_not_marked hmark]
    constructor
    · rintro (hblank | ⟨hskip, hfresh, blanks, heq, -⟩)
      · exact hblank
      · exact absurd ⟨hskip, hfresh, by rw [heq, List.head?_cons]⟩ hmark
    · exact .inl

theorem skips_of_seek (h : v.seek.1 = .error error) : v.Skips v.tape.text :=
  v.skips_iff.mpr (text_of_seek_stream h (stream_of_seek h))

theorem next_of_skips (hseek : v.seek.1 = .ok ()) (h : v.Skips v.tape.text) :
    v.next.1 = .ok none := by
  rw [next_of_seek_ok hseek]
  exact congrArg Prod.fst (scanHere_of_nil (v.skips_iff.mp h))

end View

namespace Event.Record

/-- How an error is reported. -/
def failure (error : LexError) : Record :=
  ⟨.debug, "lexing failed", [("error", .text error.message)]⟩

def isFailure (entry : Record) : Bool := entry.message = "lexing failed"

end Event.Record

/-- What a call reports of errors. -/
def Call.failures {α : Type} (call : Call α) : List Event.Record :=
  (call.events.map Event.record).filter Event.Record.isFailure

namespace Lexer

variable {lexer : Lexer} {error : LexError} {request : Request}

/-- Nothing is left in front of the end, or of the failure, but what a call skips. -/
def Bare (lexer : Lexer) : Prop := lexer.view.Skips lexer.view.tape.text

instance : Decidable lexer.Bare := decidable_of_iff _ (View.skips_iff _).symm

/-! ## The events of one call -/

theorem events_begin (hready : lexer.Ready) :
    (lexer.view.Marked → lexer.begin.events = [.skippedMark]) ∧
      (¬lexer.view.Marked → lexer.begin.events = []) := by
  cases hphase : lexer.phase with
  | started =>
    rw [begin, hphase]
    refine ⟨fun hmark => ?_, fun _ => rfl⟩
    cases hphase.symm.trans hmark.2.1
  | fresh =>
    obtain ⟨next, hperform, hseen⟩ := perform_first hready hphase
    rw [begin, hphase]
    dsimp only
    rw [hperform]
    cases hopening : lexer.view.opening with
    | error first =>
      refine ⟨fun hmark => ?_, fun _ => rfl⟩
      rw [View.Marked, View.text_of_opening hopening] at hmark
      cases hmark.2.2
    | ok first =>
      obtain ⟨hskip, -, hcurrent⟩ := head?_of_first hseen
      have hmarked : (next.config.skipMark && next.cursor.current = some byteOrderMark) = true ↔
          lexer.view.Marked := by
        rw [hskip, hcurrent, Bool.and_eq_true, decide_eq_true_eq]
        exact ⟨fun h => ⟨h.1, hphase, h.2⟩, fun h => ⟨h.1, h.2.2⟩⟩
      dsimp only
      exact ⟨fun hmark => by rw [if_pos (hmarked.mpr hmark)],
        fun hmark => by rw [if_neg (mt hmarked.mp hmark)]⟩

theorem events_seek (lexer : Lexer) : lexer.seek.events = lexer.begin.events := by
  rw [seek]
  generalize lexer.begin = call
  obtain ⟨_ | ⟨⟩, events, next⟩ := call <;> rfl

theorem events_scanHere (lexer : Lexer) :
    lexer.scanHere.events = [.ofResult lexer.scanHere.result lexer.scanHere.lexer.position] := by
  rw [scanHere]
  dsimp only
  split
  · rfl
  · split <;> rfl

theorem nextPlaced_of_seek_error (h : lexer.seek.result = .error error) :
    lexer.nextPlaced.result = .error error ∧ lexer.nextPlaced.events = lexer.begin.events := by
  rw [← events_seek, nextPlaced]
  generalize lexer.seek = call at h
  obtain ⟨_ | ⟨⟩, events, next⟩ := call
  · cases h
    exact ⟨rfl, rfl⟩
  · cases h

/-- A call that comes to look for a token reports what it returns. -/
theorem events_of_seek_ok (h : lexer.seek.result = .ok ()) :
    lexer.nextPlaced.events = lexer.begin.events ++
      [.ofResult lexer.nextPlaced.result lexer.nextPlaced.lexer.position] := by
  rw [← events_seek, nextPlaced]
  generalize lexer.seek = call at h
  obtain ⟨_ | ⟨⟩, events, next⟩ := call
  · cases h
  · exact congrArg (events ++ ·) next.events_scanHere

/-! ## What is reported of errors -/

theorem failures_begin (hready : lexer.Ready) : lexer.begin.failures = [] := by
  obtain ⟨hmarked, hunmarked⟩ := events_begin hready
  rw [Call.failures]
  by_cases hmark : lexer.view.Marked
  · rw [hmarked hmark]
    rfl
  · rw [hunmarked hmark]
    rfl

theorem failures_ofResult (result : Except LexError (Option Placed)) (stop : Position) :
    ([Event.ofResult result stop].map Event.record).filter Event.Record.isFailure =
      (errorsOf result).map Event.Record.failure := by
  rcases result with error | _ | placed <;> rfl

theorem failures_of_seek_ok (hready : lexer.Ready) (h : lexer.seek.result = .ok ()) :
    lexer.nextPlaced.failures = (errorsOf lexer.nextPlaced.result).map Event.Record.failure := by
  have hbegin := failures_begin hready
  rw [Call.failures] at hbegin
  rw [Call.failures, events_of_seek_ok h, List.map_append, List.filter_append, hbegin,
    failures_ofResult, List.nil_append]

theorem failures_nextPlaced (hready : lexer.Ready) :
    (¬lexer.Bare → lexer.nextPlaced.failures =
        (errorsOf lexer.nextPlaced.result).map Event.Record.failure) ∧
      (lexer.Bare → lexer.nextPlaced.failures = [] ∧
        ∀ error ∈ errorsOf lexer.nextPlaced.result, error.isStreamError = true) := by
  have hview := result_seek hready
  cases hseek : lexer.seek.result with
  | error error =>
    rw [hview] at hseek
    obtain ⟨hresult, hevents⟩ := nextPlaced_of_seek_error (hview.trans hseek)
    constructor
    · intro hfront
      exact absurd (View.skips_of_seek hseek) hfront
    · intro _
      rw [Call.failures, hevents, hresult]
      refine ⟨failures_begin hready, ?_⟩
      intro found hfound
      rw [List.mem_singleton.mp hfound]
      exact View.stream_of_seek hseek
  | ok first =>
    have hfailures := failures_of_seek_ok hready hseek
    constructor
    · intro _
      exact hfailures
    · intro hbare
      rw [hview] at hseek
      have hend : lexer.nextPlaced.result = .ok none := by
        rw [result_nextPlaced hready]
        exact View.next_of_skips hseek hbare
      rw [hfailures, hend]
      exact ⟨rfl, nofun⟩

/-- A pull does what a call does, unless `next` is silent. -/
theorem answer_pull (hpull : request.isPull = true) :
    ((lexer.answer request).events = lexer.nextPlaced.events ∧
        (lexer.answer request).result.errors = errorsOf lexer.nextPlaced.result) ∨
      ((lexer.answer request).events = [] ∧ (lexer.answer request).result.errors = []) := by
  cases request with
  | nextToken =>
    refine .inl ⟨rfl, ?_⟩
    change errorsOf (lexer.nextPlaced.result.map _) = _
    cases lexer.nextPlaced.result <;> rfl
  | nextPlaced => exact .inl ⟨rfl, rfl⟩
  | next =>
    by_cases hfailed : lexer.failed = true
    · rw [answer, next_of_failed hfailed]
      exact .inr ⟨rfl, rfl⟩
    · left
      rw [answer, next, if_neg hfailed, nextToken, Call.map, Call.map]
      generalize lexer.nextPlaced = call
      obtain ⟨_ | _ | placed, events, last⟩ := call <;> exact ⟨rfl, rfl⟩
  | count | scan | config | inspect => cases hpull

/-- A pull reports the error that it returns, and no other, as long as there is something to look at
in front of the lexer. If there is not, the pull reports none: then the error that it may return is a
failure of the stream. -/
theorem failures_of_pull (reader : Reader) (config : Config) (requests : List Request)
    (request : Request) (hpull : request.isPull = true) :
    let lexer := (new reader config).after requests
    let call := lexer.answer request
    (¬lexer.Bare → call.failures = call.result.errors.map Event.Record.failure) ∧
      (lexer.Bare → call.failures = [] ∧
        ∀ error ∈ call.result.errors, error.isStreamError = true) := by
  intro lexer call
  have hready : lexer.Ready := invariant_ready.after (ready_new reader config) requests
  have hfailures := failures_nextPlaced hready
  rcases @answer_pull lexer request hpull with ⟨hevents, herrors⟩ | ⟨hevents, herrors⟩
  · rw [herrors, Call.failures, hevents]
    exact hfailures
  · rw [herrors, Call.failures, hevents]
    exact ⟨fun _ => rfl, fun _ => ⟨rfl, nofun⟩⟩

/-- The same failure behind a quote, where it is reported, and behind a blank, where it is not. -/
theorem failures_of_pull_broken :
    let inString := new (.ofBytes [0x22, 0xFF]) {}
    let behindBlank := new (.ofBytes [0x20, 0xFF]) {}
    let error : LexError := ⟨.streamRead (.invalidLead 0xFF 1), .start⟩
    Request.nextToken.isPull = true ∧
      inString.nextToken.result = .error error ∧
      inString.nextToken.failures = [.failure error] ∧
      behindBlank.nextToken.result = .error error ∧ behindBlank.nextToken.failures = [] := by
  intro inString behindBlank error
  have hpull : Request.nextToken.isPull = true := rfl
  have hfound : inString.nextToken.result = .error error := by decide +kernel
  have hskipped : behindBlank.nextToken.result = .error error := by decide +kernel
  have hreported : inString.nextToken.failures =
      (errorsOf inString.nextToken.result).map Event.Record.failure :=
    (failures_of_pull _ _ [] _ hpull).1 (by decide +kernel)
  have homitted : behindBlank.nextToken.failures = [] :=
    ((failures_of_pull _ _ [] _ hpull).2 (by decide +kernel)).1
  rw [hfound] at hreported
  exact ⟨hpull, hfound, hreported, hskipped, homitted⟩

/-- At the very start, a byte that begins no character is an error that is not reported. -/
theorem failures_omitted :
    let call := (new (.ofBytes [0xFF]) {}).nextPlaced
    let error : LexError := ⟨.streamRead (.invalidLead 0xFF 0), .start⟩
    call.result = .error error ∧ call.failures ≠ [.failure error] := by
  decide +kernel

end Lexer

end StreamLexer
