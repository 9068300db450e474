import StreamLexer.Proofs.Lexer.Positions
import StreamLexer.Proofs.Lexer.Soundness
import StreamLexer.Proofs.Scan.Limit

/-! # Lexers under a limit

On the same text a lexer with a limit goes along with one that has none, until a literal is too long
for it. That call fails at the start of the token that the other lexer scans there; what comes
before is the same, and of a token its lexeme decides whether the call fails.
-/

set_option autoImplicit false

namespace StreamLexer

open Grammar

namespace View

variable {v : View} {n : Nat} {gap rest : List Char} {c : Char}

def withLimit (v : View) (limit : Option Nat) : View := { v with limit }

theorem Rests.withLimit {left : List Char} (h : v.Rests gap left) (limit : Option Nat) :
    (v.withLimit limit).Rests gap left :=
  ⟨h.blank, h.mark⟩

section Text

variable (hstop : v.tape.stop = none) (htext : gap ++ c :: rest = v.tape.text)
  (hskips : v.Skips gap) (hrests : v.Rests gap (c :: rest))
include hstop htext hskips hrests

/-- A limited reading that is the free one leaves the same behind, but for the limit. -/
theorem next_of_same (hlimit : v.limit = none)
    (h : Reading.token (some n) c rest = Reading.token none c rest) :
    (v.withLimit (some n)).next = (v.next.1, v.next.2.withLimit (some n)) := by
  have hfree := next_of_text hstop htext hskips hrests
  have hlimited :=
    next_of_text (v := v.withLimit (some n)) hstop htext hskips (hrests.withLimit (some n))
  rw [hlimited, hfree, hlimit]
  dsimp only [withLimit]
  rw [h]
  rfl

theorem next_of_long
    (h : (Reading.token (some n) c rest).result = .error ⟨.literalTooLong n, []⟩) :
    (v.withLimit (some n)).next.1 = .error ⟨.literalTooLong n, v.next.2.tokenStart⟩ := by
  have hfree := next_of_text hstop htext hskips hrests
  have hlimited :=
    next_of_text (v := v.withLimit (some n)) hstop htext hskips (hrests.withLimit (some n))
  rw [hlimited, hfree]
  dsimp only [withLimit, Reading.placed]
  rw [h]
  rfl

end Text

section Call

variable (hstop : v.tape.stop = none) (hlimit : v.limit = none)
include hstop hlimit

/-- Under a limit a call does the same, or it fails for the length of what is scanned without. -/
theorem next_withLimit :
    (v.withLimit (some n)).next = (v.next.1, v.next.2.withLimit (some n)) ∨
      v.next.1 ≠ .ok none ∧
        (v.withLimit (some n)).next.1 = .error ⟨.literalTooLong n, v.next.2.tokenStart⟩ := by
  obtain ⟨gap, left, htext, hskips, hrests⟩ := v.exists_gap
  cases left with
  | nil =>
    rw [List.append_nil] at htext
    subst htext
    left
    rw [next_of_gap hstop hskips, next_of_gap (v := v.withLimit (some n)) hstop hskips]
    rfl
  | cons c rest =>
    rcases Reading.Curbed.token (n := n) c rest with hsame | hlong
    · exact .inl (next_of_same hstop htext hskips hrests hlimit hsame)
    · refine .inr ⟨?_, next_of_long hstop htext hskips hrests hlong⟩
      rw [next_of_text hstop htext hskips hrests, Reading.placed]
      cases (Reading.token v.limit c rest).result <;> rintro ⟨⟩

/-- Whether a token is too long is settled by the lexeme of the call. -/
theorem exists_lexeme {placed : Placed} (h : v.next.1 = .ok (some placed)) :
    ∃ gap lexeme, v.Step gap lexeme v.next.1 v.next.2 ∧
      (Fits (some n) lexeme placed.token →
        (v.withLimit (some n)).next = (v.next.1, v.next.2.withLimit (some n))) ∧
      (¬Fits (some n) lexeme placed.token →
        (v.withLimit (some n)).next.1 = .error ⟨.literalTooLong n, v.next.2.tokenStart⟩) := by
  obtain ⟨gap, left, htext, hskips, hrests⟩ := v.exists_gap
  cases left with
  | nil =>
    rw [List.append_nil] at htext
    rw [next_of_gap hstop (htext ▸ hskips)] at h
    cases h
  | cons c rest =>
    have hstep := step_of_text hstop htext hskips hrests
    rw [hlimit] at hstep
    have hread : (Reading.token none c rest).result = .ok placed.token := by
      rw [next_of_text hstop htext hskips hrests, Reading.placed, hlimit] at h
      cases hresult : (Reading.token none c rest).result with
      | error fault =>
        rw [hresult] at h
        cases h
      | ok token =>
        rw [hresult] at h
        cases h
        rfl
    obtain ⟨hfits, hlong⟩ := Reading.token_of_fits (n := n) hread
    refine ⟨gap, _, hstep, ?_, ?_⟩
    · intro h
      exact next_of_same hstop htext hskips hrests hlimit (hfits h)
    · intro h
      exact next_of_long hstop htext hskips hrests (hlong h)

end Call

end View

namespace Lexer

variable {n : Nat} {free limited : Lexer}

/-- Two lexers that differ in nothing but the limit of the one, in front of a text. -/
structure Twins (n : Nat) (free limited : Lexer) : Prop where
  freeReady : free.Ready
  limitedReady : limited.Ready
  stop : free.view.tape.stop = none
  limit : free.view.limit = none
  view : limited.view = free.view.withLimit (some n)

namespace Twins

theorem of_next (h : Twins n free limited)
    (hsame : limited.view.next = (free.view.next.1, free.view.next.2.withLimit (some n))) :
    limited.nextPlaced.result = free.nextPlaced.result ∧
      Twins n free.nextPlaced.lexer limited.nextPlaced.lexer := by
  obtain ⟨gap, lexeme, hstep⟩ := View.exists_step h.stop
  constructor
  · rw [result_nextPlaced h.limitedReady, result_nextPlaced h.freeReady, hsame]
  · constructor
    · exact ready_nextPlaced h.freeReady
    · exact ready_nextPlaced h.limitedReady
    · rw [view_nextPlaced h.freeReady, hstep.stop]
    · rw [view_nextPlaced h.freeReady, View.limit_next, h.limit]
    · rw [view_nextPlaced h.limitedReady, view_nextPlaced h.freeReady, hsame]

/-- One call of both. -/
theorem nextPlaced (h : Twins n free limited) :
    limited.nextPlaced.result = free.nextPlaced.result ∧
        Twins n free.nextPlaced.lexer limited.nextPlaced.lexer ∨
      free.nextPlaced.result ≠ .ok none ∧
        limited.nextPlaced.result =
          .error ⟨.literalTooLong n, free.nextPlaced.lexer.tokenStart⟩ := by
  have hstart : free.nextPlaced.lexer.tokenStart = free.view.next.2.tokenStart :=
    congrArg View.tokenStart (view_nextPlaced h.freeReady)
  rcases View.next_withLimit (n := n) h.stop h.limit with hsame | ⟨hitem, hlong⟩
  · exact .inl (h.of_next (by rw [h.view, hsame]))
  · right
    rw [result_nextPlaced h.freeReady, result_nextPlaced h.limitedReady, h.view, hstart]
    exact ⟨hitem, hlong⟩

theorem position (h : Twins n free limited) : limited.position = free.position :=
  congrArg View.position h.view

/-- A whole run: it is the same, or it is up to a token that is too long. -/
theorem scan (h : Twins n free limited) :
    limited.scan.result = free.scan.result ∨
      ∃ shared item later cut later', free.scan.result = shared ++ item :: later ∧
        limited.scan.result = shared ++ cut :: later' ∧
        cut.outcome = .error ⟨.literalTooLong n,
          (free.after (List.replicate (shared.length + 1) .nextPlaced)).tokenStart⟩ := by
  induction free using scan_induction generalizing limited with
  | ended free hend =>
    rcases h.nextPlaced with ⟨hresult, -⟩ | ⟨hitem, -⟩
    · rw [scan_of_end hend, scan_of_end (hresult.trans hend)]
      exact .inl rfl
    · exact absurd hend hitem
  | item free outcome hitem ih =>
    rcases h.nextPlaced with ⟨hresult, hnext⟩ | ⟨-, hlong⟩
    · rw [scan_of_item hitem, scan_of_item (hresult.trans hitem), hnext.position]
      rcases ih hnext with hsame | ⟨shared, item, later, cut, later', hfree, hlimited, hcut⟩
      · exact .inl (by rw [hsame])
      · right
        refine ⟨⟨outcome, free.nextPlaced.lexer.position⟩ :: shared, item, later, cut, later',
          ?_, ?_, hcut⟩
        · rw [hfree, List.cons_append]
        · rw [hlimited, List.cons_append]
    · right
      have hcut : limited.nextPlaced.result = (Except.error ⟨.literalTooLong n,
          free.nextPlaced.lexer.tokenStart⟩ : Except LexError Placed).map some := hlong
      rw [scan_of_item hitem, scan_of_item hcut]
      exact ⟨[], _, _, _, _, rfl, rfl, rfl⟩

/-- Behind the same items both are still twins: without a limit nothing is too long. -/
theorem behind (h : Twins n free limited) {shared : List Item} {freeLast limitedLast : Lexer}
    (hfree : free.Yields shared freeLast) (hlimited : limited.Yields shared limitedLast) :
    Twins n freeLast limitedLast := by
  induction shared generalizing free limited with
  | nil =>
    cases hfree
    cases hlimited
    exact h
  | cons item shared ih =>
    obtain ⟨hitem, -, hfree⟩ := hfree.of_cons
    obtain ⟨hitem', -, hlimited⟩ := hlimited.of_cons
    rcases h.nextPlaced with ⟨-, hnext⟩ | ⟨-, hlong⟩
    · exact ih hnext hfree hlimited
    · have hsound := View.sound_next ((result_nextPlaced h.freeReady).symm.trans hitem)
      rw [hlong] at hitem'
      cases houtcome : item.outcome with
      | ok placed =>
        rw [houtcome] at hitem'
        cases hitem'
      | error error =>
        rw [houtcome] at hitem' hsound
        cases hitem'
        exact absurd (h.limit.symm.trans hsound) nofun

end Twins

theorem Yields.after {lexer last : Lexer} {items : List Item} (h : lexer.Yields items last) :
    last = lexer.after (List.replicate items.length .nextPlaced) := by
  induction h with
  | nil lexer => rfl
  | cons hitem hlater ih => exact ih

/-- In front of a token the limited run goes on with it if its lexeme fits, and fails otherwise. -/
theorem Twins.judges (h : Twins n free limited) {item : Item} {later : List Item} {placed : Placed}
    (hscan : free.scan.result = item :: later) (houtcome : item.outcome = .ok placed) :
    ∃ gap lexeme, free.view.Step gap lexeme (.ok (some placed)) free.nextPlaced.lexer.view ∧
      (Fits (some n) lexeme placed.token → limited.scan.result.head? = some item) ∧
      (¬Fits (some n) lexeme placed.token → ∃ cut ∈ limited.scan.result.head?,
        cut.outcome = .error ⟨.literalTooLong n, placed.start⟩) := by
  obtain ⟨hitem, hshape⟩ := first_of_scan hscan
  have hresult : free.nextPlaced.result = .ok (some placed) := by
    rw [hitem, houtcome]
    rfl
  have hview := (result_nextPlaced h.freeReady).symm.trans hresult
  obtain ⟨gap, lexeme, hstep, hfits, hlong⟩ := View.exists_lexeme (n := n) h.stop h.limit hview
  obtain ⟨hstart, -⟩ := hstep.placed placed hview
  rw [hview, ← view_nextPlaced h.freeReady] at hstep
  refine ⟨gap, lexeme, hstep, ?_, ?_⟩
  · intro h'
    obtain ⟨hsame, hnext⟩ := h.of_next (by rw [h.view, hfits h'])
    rw [head?_scan (hsame.trans hitem), hnext.position, ← hshape]
  · intro h'
    have hcut : limited.nextPlaced.result = (Except.error ⟨.literalTooLong n, placed.start⟩ :
        Except LexError Placed).map some := by
      rw [result_nextPlaced h.limitedReady, h.view, hlong h', hstart]
      rfl
    exact ⟨_, head?_scan hcut, rfl⟩

theorem twins_new {reader : Reader} {text : List Char} (h : reader.Delivers (Utf8.encode text))
    (config : Config) (n : Nat) :
    Twins n (new reader { config with maxLiteralLength := none })
      (new reader { config with maxLiteralLength := some n }) where
  freeReady := ready_new reader _
  limitedReady := ready_new reader _
  stop := congrArg Tape.stop (tape_of_delivers h _)
  limit := rfl
  view := rfl

/-- On a text a limit never changes an item. A run under a limit gives the same items as one without,
or the same up to an item in whose place it fails for the limit, at the start of the token that is
scanned there. Behind items that both share, a token that comes next without the limit is given with
it as well if its lexeme fits, as that of an operator always does, and else the call fails. -/
theorem limit_cuts {reader : Reader} {text : List Char} (h : reader.Delivers (Utf8.encode text))
    (config : Config) (n : Nat) :
    let free := new reader { config with maxLiteralLength := none }
    let limited := new reader { config with maxLiteralLength := some n }
    (limited.scan.result = free.scan.result ∨
        ∃ shared item later cut later', free.scan.result = shared ++ item :: later ∧
          limited.scan.result = shared ++ cut :: later' ∧
          cut.outcome = .error ⟨.literalTooLong n,
            (free.after (List.replicate (shared.length + 1) .nextPlaced)).tokenStart⟩) ∧
      ∀ shared item later later' placed, free.scan.result = shared ++ item :: later →
        limited.scan.result = shared ++ later' → item.outcome = .ok placed →
          let former := free.after (List.replicate shared.length .nextPlaced)
          ∃ gap lexeme,
            former.view.Step gap lexeme (.ok (some placed)) former.nextPlaced.lexer.view ∧
            (Fits (some n) lexeme placed.token → later'.head? = some item) ∧
            ((∃ cut ∈ later'.head?, cut.outcome = .error ⟨.literalTooLong n, placed.start⟩) ↔
              ¬Fits (some n) lexeme placed.token) := by
  intro free limited
  have htwins : Twins n free limited := twins_new h config n
  refine ⟨htwins.scan, ?_⟩
  intro shared item later later' placed hfree hlimited houtcome former
  obtain ⟨freeLast, hfreeYields, hfreeScan⟩ := exists_yields hfree
  obtain ⟨limitedLast, hlimitedYields, hlimitedScan⟩ := exists_yields hlimited
  have hlast := htwins.behind hfreeYields hlimitedYields
  obtain rfl : freeLast = former := hfreeYields.after
  obtain ⟨gap, lexeme, hstep, hfits, hlong⟩ := hlast.judges hfreeScan houtcome
  rw [hlimitedScan] at hfits hlong
  refine ⟨gap, lexeme, hstep, hfits, ?_, hlong⟩
  rintro ⟨cut, hcut, herror⟩ hfit
  rw [hfits hfit] at hcut
  cases hcut
  rw [houtcome] at herror
  cases herror

/-- The text of the string has five characters, but only the three of its content count. -/
theorem limit_cuts_string :
    let text := " \"a\\n\\t\"+".toList
    let reader := Reader.ofBytes (Utf8.encode text)
    let free := new reader { maxLiteralLength := none }
    let limited := new reader { maxLiteralLength := some 2 }
    let string : Placed := ⟨.string "a\n\t", ⟨1, 2, 1⟩⟩
    reader.Delivers (Utf8.encode text) ∧ free.nextPlaced.result = .ok (some string) ∧
      limited.nextPlaced.result = .error ⟨.literalTooLong 2, ⟨1, 2, 1⟩⟩ ∧
      ∃ gap lexeme, free.view.Step gap lexeme (.ok (some string)) free.nextPlaced.lexer.view ∧
        ¬Fits (some 2) lexeme string.token := by
  intro text reader free limited string
  have hdelivers := Reader.delivers_ofBytes (Utf8.encode text)
  have hstring : free.nextPlaced.result = .ok (some string) := by decide +kernel
  have hcut : limited.nextPlaced.result = .error ⟨.literalTooLong 2, ⟨1, 2, 1⟩⟩ := by
    decide +kernel
  have hitem : free.nextPlaced.result =
      (Except.ok string : Except LexError Placed).map some := hstring
  have hlong : limited.nextPlaced.result =
      (Except.error ⟨.literalTooLong 2, ⟨1, 2, 1⟩⟩ : Except LexError Placed).map some := hcut
  obtain ⟨-, hjudges⟩ := limit_cuts hdelivers {} 2
  obtain ⟨gap, lexeme, hstep, -, htoo⟩ := hjudges [] _ _ _ string
    (congrArg Call.result (scan_of_item hitem)) (List.nil_append _).symm rfl
  exact ⟨hdelivers, hstring, hcut, gap, lexeme, hstep, htoo.mp ⟨_, head?_scan hlong, rfl⟩⟩

end Lexer

end StreamLexer
