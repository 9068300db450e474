import StreamLexer.Proofs.Grammar.Composition
import StreamLexer.Proofs.Lexer.OnText

/-! # The lexer accepts its grammar

A lexer turns a text into tokens if and only if the text, without a mark that is to be skipped, is
composed of lexemes of these tokens. A call takes one lexeme with the gap before it, so the tokens
of a text are settled by induction on what is still to be read.
-/

set_option autoImplicit false

namespace StreamLexer

open CharClass Grammar

namespace Grammar

variable {limit : Option Nat} {text rest : List Char} {c : Char} {tokens : List Token}

theorem dropWhile_gap {gap : List Char} (hgap : IsGap gap) (h : ¬isBlank c) :
    (gap ++ c :: rest).dropWhile isBlank = c :: rest :=
  Reading.dropWhile_exact hgap fun _ hd => Option.some.inj hd ▸ h

theorem gap_of_dropWhile (h : text.dropWhile isBlank = []) : IsGap text := by
  have htext := @List.takeWhile_append_dropWhile _ isBlank text
  rw [h, List.append_nil] at htext
  intro d hd
  rw [← htext] at hd
  exact List.mem_takeWhile_imp hd

theorem lexes_of_gap (h : text.dropWhile isBlank = []) : Lexes limit text tokens ↔ tokens = [] := by
  constructor
  · intro hlexes
    cases hlexes with
    | ended => rfl
    | @token gap lexeme rest token tokens hgap hdenotes hfits hends htokens =>
      obtain ⟨c, tail, rfl, hopens⟩ := hdenotes.opens
      rw [List.cons_append, dropWhile_gap hgap hopens.not_blank] at h
      cases h
  · rintro rfl
    exact .ended (gap_of_dropWhile h)

theorem lexes_iff_reading (h : text.dropWhile isBlank = c :: rest) :
    Lexes limit text tokens ↔ ∃ token taken left later,
      Reading.token limit c rest = ⟨.ok token, taken, left⟩ ∧ tokens = token :: later ∧
        Lexes limit left later := by
  constructor
  · intro hlexes
    cases hlexes with
    | ended hgap =>
      rw [List.dropWhile_eq_nil_iff.mpr hgap] at h
      cases h
    | @token gap lexeme left token later hgap hdenotes hfits hends htokens =>
      obtain ⟨d, tail, rfl, hopens⟩ := hdenotes.opens
      rw [List.cons_append, dropWhile_gap hgap hopens.not_blank] at h
      obtain ⟨rfl, rfl⟩ := List.cons_eq_cons.mp h
      exact ⟨token, d :: tail, left, later, Reading.token_append hdenotes hfits hends, rfl,
        htokens⟩
  · rintro ⟨token, taken, left, later, hreading, rfl, hlater⟩
    have hok : (Reading.token limit c rest).result = .ok token := by rw [hreading]
    obtain ⟨hdenotes, hfits, hends⟩ := Reading.token_recognizes hok
    have hsplit := (Reading.Covers.token limit c : (Reading.token limit c rest).Covers [] _).split
    rw [hreading] at hdenotes hfits hends hsplit
    have htext := @List.takeWhile_append_dropWhile _ isBlank text
    rw [h, ← hsplit] at htext
    rw [← htext]
    exact .token (fun d hd => List.mem_takeWhile_imp hd) hdenotes hfits hends hlater

end Grammar

namespace View

variable {limit : Option Nat} {text : List Char} {v : View}

theorem Along.next_of_gap (h : v.Along limit text) (hgap : v.ahead.dropWhile isBlank = []) :
    v.next.1 = .ok none := by
  obtain ⟨next, hseek, -, htext⟩ := h.seek
  rw [View.next, hseek]
  dsimp only
  rw [scanHere_of_nil (htext.trans hgap)]

theorem Along.next_of_text (h : v.Along limit text) {c : Char} {rest : List Char}
    (htext : v.ahead.dropWhile isBlank = c :: rest) :
    ∃ start, v.next.1 = ((Reading.token limit c rest).result.mapError (Fault.located start)).map
        (fun token => some ⟨token, start⟩) ∧
      v.next.2.tape.text = (Reading.token limit c rest).rest := by
  obtain ⟨next, hseek, hnext, hahead⟩ := h.seek
  refine ⟨next.position, ?_⟩
  rw [View.next, hseek]
  dsimp only
  have hmarked : ({ next with tokenStart := next.position } : View).tape.stop = none := hnext.stop
  rw [scanHere_of_cons (hahead.trans htext), read_of_endless hmarked, hnext.limit]
  exact ⟨rfl, rfl⟩

end View

namespace Lexer

variable {limit : Option Nat} {text : List Char} {tokens : List Token} {lexer : Lexer}

/-- The tokens of a lexer on a text are those of the text in front of it. -/
theorem tokenize_iff_lexes (hready : lexer.Ready) (halong : lexer.view.Along limit text) :
    lexer.tokenize.result = .ok tokens ↔ Lexes limit lexer.view.ahead tokens := by
  -- Behind a token the lexer is lighter, and in front of it stands what the reading has left.
  induction hweight : lexer.weight using Nat.strongRecOn generalizing lexer tokens with
  | ind weight ih =>
    have hresult := result_nextPlaced hready
    have hfailed : lexer.failed = false := halong.failed
    cases htext : lexer.view.ahead.dropWhile isBlank with
    | nil =>
      have hend : lexer.nextPlaced.result = .ok none := hresult.trans (halong.next_of_gap htext)
      rw [tokenize_of_end hfailed hend, lexes_of_gap htext, Except.ok.injEq, eq_comm]
    | cons c rest =>
      obtain ⟨start, hnext, hrest⟩ := halong.next_of_text htext
      rw [lexes_iff_reading htext]
      generalize Reading.token limit c rest = reading at hnext hrest
      obtain ⟨fault | token, taken, left⟩ := reading
      · have herror := hresult.trans hnext
        rw [tokenize_of_error hfailed herror]
        simp
      · have hplaced : lexer.nextPlaced.result = .ok (some ⟨token, start⟩) := hresult.trans hnext
        have hahead : lexer.nextPlaced.lexer.view.ahead = left := by
          rw [View.ahead_of_started (started_nextPlaced hready), view_nextPlaced hready, hrest]
        have hlt := hweight ▸ lexer.weight_nextPlaced.2 (by rw [hplaced]; simp)
        have hlater : ∀ later, lexer.nextPlaced.lexer.tokenize.result = .ok later ↔
            Lexes limit left later := fun later => by
          rw [← hahead]
          exact ih _ hlt (ready_nextPlaced hready) (along_nextPlaced hready halong) rfl
        rw [tokenize_eq_ok_iff hfailed hplaced]
        constructor
        · rintro ⟨later, rfl, hrun⟩
          exact ⟨token, taken, left, later, rfl, rfl, (hlater later).mp hrun⟩
        · rintro ⟨_, _, _, later, hreading, rfl, hlexes⟩
          cases hreading
          exact ⟨later, rfl, (hlater later).mpr hlexes⟩

/-- What is left of a text when a byte order mark at its start is to be skipped, or not. -/
def withoutMark (skipMark : Bool) (text : List Char) : List Char :=
  if skipMark ∧ text.head? = some Lexer.byteOrderMark then text.tail else text

theorem ahead_new (text : List Char) (config : Config) :
    (new (.ofBytes (Utf8.encode text)) config).view.ahead = withoutMark config.skipMark text := by
  have htape := tape_new text config
  have hstop := congrArg Tape.stop htape
  have hphase : (new (.ofBytes (Utf8.encode text)) config).view.phase = .fresh := rfl
  have hmark : (new (.ofBytes (Utf8.encode text)) config).view.skipMark = config.skipMark := rfl
  rw [View.ahead, View.begin, hphase]
  dsimp only
  rw [View.opening_of_endless hstop, hmark, htape, withoutMark]
  by_cases hskip : config.skipMark ∧ text.head? = some byteOrderMark
  · have hbool : (config.skipMark && decide (text.head? = some byteOrderMark)) = true := by
      simpa using hskip
    rw [if_pos hskip]
    dsimp only
    rw [if_pos hbool, View.read, Tape.settled_text]
  · have hbool : ¬(config.skipMark && decide (text.head? = some byteOrderMark)) = true := by
      simpa using hskip
    rw [if_neg hskip]
    dsimp only
    rw [if_neg hbool, Tape.settled_text]

/-- No text of the grammar starts with a byte order mark. -/
theorem withoutMark_of_lexes (h : Lexes limit text tokens) (skipMark : Bool) :
    withoutMark skipMark text = text := by
  apply if_neg
  rintro ⟨-, hhead⟩
  cases h with
  | ended hgap => exact absurd (hgap _ (List.mem_of_mem_head? hhead)) (by decide)
  | @token gap lexeme rest token later hgap hdenotes hfits hends hlater =>
    cases gap with
    | nil =>
      obtain ⟨c, tail, rfl, hopens⟩ := hdenotes.opens
      obtain rfl : c = byteOrderMark := Option.some.inj hhead
      exact absurd hopens (by decide)
    | cons c blanks =>
      obtain rfl : c = byteOrderMark := Option.some.inj hhead
      exact absurd (hgap _ List.mem_cons_self) (by decide)

/-- A text of the grammar is read as its tokens, whether a mark would be skipped or not. -/
theorem tokenize_of_lexes {config : Config} (h : Lexes config.maxLiteralLength text tokens) :
    (new (.ofBytes (Utf8.encode text)) config).tokenize.result = .ok tokens := by
  rw [tokenize_iff_lexes (ready_new _ config) (along_new text config), ahead_new,
    withoutMark_of_lexes h]
  exact h

/-- The lexer accepts a text if and only if its grammar does, with the same tokens. -/
theorem tokenize_iff_composed (text : List Char) (config : Config) (tokens : List Token) :
    (new (.ofBytes (Utf8.encode text)) config).tokenize.result = .ok tokens ↔
      Composed config.maxLiteralLength (withoutMark config.skipMark text) tokens := by
  rw [tokenize_iff_lexes (ready_new _ config) (along_new text config), ahead_new,
    lexes_iff_composed]

end Lexer

end StreamLexer
