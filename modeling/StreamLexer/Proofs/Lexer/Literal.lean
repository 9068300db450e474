import StreamLexer.Proofs.Lexer.Positions
import StreamLexer.Proofs.Lexer.Soundness

/-! # Calls in front of a literal

A quote or a digit in front of a lexer settles what the next call scans. A string is decided by what
stands behind its body. A number is decided by its digits and by whether a point with a digit stands
behind them; under a limit it is decided by the length of its text, in which the point counts as soon
as a digit stands behind it.
-/

set_option autoImplicit false

namespace StreamLexer

open CharClass Grammar

theorem View.rests_of_opens {v : View} {gap rest : List Char} {c : Char} (h : Opens c) :
    v.Rests gap (c :: rest) := by
  constructor
  · rintro d ⟨⟩
    exact h.not_blank
  · rintro - - - ⟨⟩
    exact absurd h (by decide)

namespace Lexer

variable {lexer : Lexer} {gap whole left rest : List Char} {c : Char}

/-- Behind the gap the next call takes these characters, and this is the item it gives. -/
structure Scans (lexer : Lexer) (gap taken : List Char) (outcome : Except LexError Placed) :
    Prop where
  result : lexer.nextPlaced.result = outcome.map some
  step : lexer.view.Step gap taken (outcome.map some) lexer.nextPlaced.lexer.view

theorem scans_of_text (hready : lexer.Ready) (htape : lexer.view.tape = ⟨gap ++ c :: rest, none⟩)
    (hskips : lexer.view.Skips gap) (hopens : Opens c) :
    lexer.Scans gap (Reading.token lexer.view.limit c rest).taken
      ((Reading.token lexer.view.limit c rest).placed (lexer.position.pastAll gap)) := by
  have hstop := congrArg Tape.stop htape
  have htext : gap ++ c :: rest = lexer.view.tape.text := (congrArg Tape.text htape).symm
  have hrests : lexer.view.Rests gap (c :: rest) := View.rests_of_opens hopens
  have hresult : lexer.view.next.1 = _ :=
    congrArg Prod.fst (View.next_of_text hstop htext hskips hrests)
  have hstep := View.step_of_text hstop htext hskips hrests
  rw [hresult, ← view_nextPlaced hready] at hstep
  constructor
  · rw [result_nextPlaced hready, hresult]
    rfl
  · exact hstep

/-- Requests keep the limit of a new lexer. -/
theorem ready_after (reader : Reader) (config : Config) (requests : List Request) :
    ((new reader config).after requests).Ready ∧
      ((new reader config).after requests).view.limit = config.maxLiteralLength :=
  (invariant_limit _).after (And.intro (ready_new reader config) rfl) requests

/-! ## Strings -/

/-- A string has one of three outcomes. The text behind its quote starts with one longest body: if a
quote stands behind it the string has the content of the body, if an escape stands there it is wrong
and the error is at its backslash, and otherwise the text ends there and the error is at the opening
quote. -/
theorem string_outcomes (reader : Reader) (config : Config)
    (hlimit : config.maxLiteralLength = none) (requests : List Request) {gap text : List Char}
    (htape : ((new reader config).after requests).view.tape = ⟨gap ++ '"' :: text, none⟩)
    (hskips : ((new reader config).after requests).view.Skips gap) :
    let lexer := (new reader config).after requests
    let start := lexer.position.pastAll gap
    (∃! body, LongestBody text body) ∧
      ∀ body content left, LongestBody text body → Body body content → body ++ left = text →
        (∃ rest, left = '"' :: rest ∧
            lexer.Scans gap ('"' :: body ++ ['"'])
              (.ok ⟨.string (String.ofList content), start⟩)) ∨
          (∃ letter rest, left = '\\' :: letter :: rest ∧
            lexer.Scans gap ('"' :: body ++ ['\\', letter])
              (.error ⟨.invalidEscape letter, start.pastAll ('"' :: body)⟩)) ∨
          (left = [] ∨ left = ['\\']) ∧
            lexer.Scans gap ('"' :: text) (.error ⟨.unterminatedString, start⟩) := by
  intro lexer start
  obtain ⟨hready, hnone⟩ := ready_after reader config requests
  rw [hlimit] at hnone
  have hscans := scans_of_text hready htape hskips (.inl rfl)
  have htoken : Reading.token none '"' text = Reading.string none text := if_pos rfl
  rw [hnone, htoken] at hscans
  refine ⟨existsUnique_longestBody text, ?_⟩
  rintro body content left hlongest hbody rfl
  have hfits : Allows none content.length := allows_none _
  cases hlongest.stops rfl with
  | ended =>
    rw [Reading.string_open hbody hfits (.inl rfl)] at hscans
    exact .inr (.inr ⟨.inl rfl, hscans⟩)
  | backslash =>
    rw [Reading.string_open hbody hfits (.inr rfl)] at hscans
    exact .inr (.inr ⟨.inr rfl, hscans⟩)
  | quote rest =>
    rw [Reading.string_closed hbody hfits] at hscans
    exact .inl ⟨rest, rfl, hscans⟩
  | @escape letter rest hletter =>
    rw [Reading.string_escape hbody hfits hletter] at hscans
    exact .inr (.inl ⟨letter, rest, rfl, hscans⟩)

/-- Each letter stands for a character of its own, and three backslashes in front of a quote make it
a part of the string. Behind this body the string is closed, or an escape in it is wrong. -/
theorem string_outcomes_escaped :
    let body := "a\\n\\t\\r\\0\\\\\\\"b".toList
    let content := ['a', '\n', '\t', '\r', '\x00', '\\', '"', 'b']
    let lexer (left : List Char) :=
      (new (.ofBytes (Utf8.encode ("x \"".toList ++ (body ++ left)))) {}).after [.nextPlaced]
    Body body content ∧
      (∀ left ∈ [['"'], ['\\', 'q', '"']],
        (lexer left).view.tape = ⟨[' '] ++ '"' :: (body ++ left), none⟩ ∧
          (lexer left).view.Skips [' '] ∧ LongestBody (body ++ left) body) ∧
      (lexer ['"']).Scans [' '] ('"' :: body ++ ['"'])
        (.ok ⟨.string "a\n\t\r\x00\\\"b", ⟨1, 3, 2⟩⟩) ∧
      (lexer ['\\', 'q', '"']).Scans [' '] ('"' :: body ++ ['\\', 'q'])
        (.error ⟨.invalidEscape 'q', ⟨1, 18, 17⟩⟩) := by
  intro body content lexer
  have hbody : Body body content := by
    refine .plain (by decide) (by decide) (.escape (by decide) (.escape (by decide) ?_))
    refine .escape (by decide) (.escape (by decide) (.escape (by decide) (.escape (by decide) ?_)))
    exact .plain (by decide) (by decide) .nil
  have hfront : ∀ left ∈ [['"'], ['\\', 'q', '"']],
      (lexer left).view.tape = ⟨[' '] ++ '"' :: (body ++ left), none⟩ ∧
        (lexer left).view.Skips [' '] ∧ LongestBody (body ++ left) body := by
    intro left hleft
    have hskips : (lexer left).view.Skips [' '] := .inl (List.all_eq_true.mp rfl)
    rcases List.mem_cons.mp hleft with rfl | hleft
    · exact ⟨by decide +kernel, hskips, longestBody_of_stops hbody (.quote [])⟩
    · obtain rfl := List.mem_singleton.mp hleft
      exact ⟨by decide +kernel, hskips, longestBody_of_stops hbody (.escape ['"'] (by decide))⟩
  refine ⟨hbody, hfront, ?_, ?_⟩
  · obtain ⟨htape, hskips, hlongest⟩ := hfront ['"'] List.mem_cons_self
    have hplace : (lexer ['"']).position.pastAll [' '] = ⟨1, 3, 2⟩ := by decide +kernel
    obtain ⟨-, houtcomes⟩ := string_outcomes _ {} rfl [.nextPlaced] htape hskips
    obtain ⟨rest, -, hscans⟩ | ⟨letter, rest, hleft, -⟩ | ⟨hleft, -⟩ :=
      houtcomes body content ['"'] hlongest hbody rfl
    · rw [hplace] at hscans
      exact hscans
    · cases hleft
    · rcases hleft with hleft | hleft <;> cases hleft
  · obtain ⟨htape, hskips, hlongest⟩ := hfront _ (List.mem_cons_of_mem _ List.mem_cons_self)
    have hplace : ((lexer ['\\', 'q', '"']).position.pastAll [' ']).pastAll ('"' :: body) =
        ⟨1, 18, 17⟩ := by decide +kernel
    obtain ⟨-, houtcomes⟩ := string_outcomes _ {} rfl [.nextPlaced] htape hskips
    obtain ⟨rest, hleft, -⟩ | ⟨letter, rest, hleft, hscans⟩ | ⟨hleft, -⟩ :=
      houtcomes body content ['\\', 'q', '"'] hlongest hbody rfl
    · cases hleft
    · cases hleft
      rw [hplace] at hscans
      exact hscans
    · rcases hleft with hleft | hleft <;> cases hleft

/-! ## Numbers -/

theorem scans_of_digits (hready : lexer.Ready)
    (htape : lexer.view.tape = ⟨gap ++ (whole ++ left), none⟩) (hskips : lexer.view.Skips gap)
    (hwhole : IsDigits whole) :
    lexer.Scans gap (Reading.number lexer.view.limit (whole ++ left)).taken
      ((Reading.number lexer.view.limit (whole ++ left)).placed (lexer.position.pastAll gap)) := by
  obtain ⟨c, tail, rfl, hdigit⟩ := hwhole.head
  rw [List.cons_append] at htape ⊢
  rw [← Reading.token_of_digit hdigit]
  exact scans_of_text hready htape hskips (.inr (.inl hdigit))

/-- The digits in front of a lexer and what stands behind them settle what the number is. Without a
point it is the integer of its digits, if that has a place in 32 bits; a point without a digit behind
it is taken and refused; with one it is never an integer. -/
theorem number_outcomes (reader : Reader) (config : Config)
    (hlimit : config.maxLiteralLength = none) (requests : List Request)
    {gap whole left : List Char}
    (htape : ((new reader config).after requests).view.tape = ⟨gap ++ (whole ++ left), none⟩)
    (hskips : ((new reader config).after requests).view.Skips gap) (hwhole : IsDigits whole)
    (hends : ∀ c ∈ left.head?, ¬isDigit c) :
    let lexer := (new reader config).after requests
    let start := lexer.position.pastAll gap
    let value : Nat := Nat.ofDigits 10 (whole.reverse.map Decimal.digitValue)
    ('.' ∉ left.head? →
        (value ≤ 2147483647 → ∃ int : Int32, int.toInt = value ∧
          lexer.Scans gap whole (.ok ⟨.int int, start⟩)) ∧
        (2147483647 < value →
          lexer.Scans gap whole (.error ⟨.numberOverflow (String.ofList whole), start⟩))) ∧
      (∀ rest, left = '.' :: rest → (∀ c ∈ rest.head?, ¬isDigit c) →
        lexer.Scans gap (whole ++ ['.'])
          (.error ⟨.malformedNumber (String.ofList (whole ++ ['.'])), start⟩)) ∧
      ∀ digits rest, left = '.' :: (digits ++ rest) → IsDigits digits →
        (∀ c ∈ rest.head?, ¬isDigit c) →
        (∃ float : Binary32,
            lexer.Scans gap (whole ++ '.' :: digits) (.ok ⟨.float float, start⟩)) ∨
          lexer.Scans gap (whole ++ '.' :: digits)
            (.error ⟨.numberOverflow (String.ofList (whole ++ '.' :: digits)), start⟩) := by
  intro lexer start value
  obtain ⟨hready, hnone⟩ := ready_after reader config requests
  have hscans := scans_of_digits hready htape hskips hwhole
  rw [hnone, hlimit] at hscans
  refine ⟨?_, ?_, ?_⟩
  · intro hpoint
    rw [Reading.number_integer hwhole (allows_none _) hends hpoint, Reading.ofDigits,
      Decimal.value_eq_ofDigits] at hscans
    constructor
    · intro hsmall
      rw [if_pos hsmall, Reading.behind_done] at hscans
      exact ⟨_, Int32.toInt_ofNat_of_lt (by omega), hscans⟩
    · intro hlarge
      rw [if_neg (Nat.not_le.mpr hlarge), Reading.behind, Reading.fail, List.append_nil] at hscans
      exact hscans
  · rintro rest rfl hrest
    rw [Reading.number_open hwhole (allows_none _) hrest] at hscans
    exact hscans
  · rintro digits rest rfl hdigits hrest
    rw [Reading.number_fraction hwhole hdigits (allows_none _) hrest] at hscans
    cases hvalue : Binary32.ofDecimal? whole digits with
    | some float =>
      rw [hvalue, Reading.ofFloat, Reading.behind_done] at hscans
      exact .inl ⟨float, hscans⟩
    | none =>
      rw [hvalue, Reading.ofFloat, Reading.behind, Reading.fail, List.append_nil] at hscans
      exact .inr hscans

/-- With its zeros the number has many more digits than its value needs, and one more than fits. -/
theorem number_outcomes_zeros :
    let digits := "0000000002147483648".toList
    let reader := Reader.ofBytes (Utf8.encode ("x ".toList ++ digits ++ ['y']))
    let lexer := (new reader {}).after [.nextPlaced]
    lexer.view.tape = ⟨[' '] ++ (digits ++ ['y']), none⟩ ∧ lexer.view.Skips [' '] ∧
      IsDigits digits ∧
      lexer.Scans [' '] digits
        (.error ⟨.numberOverflow "0000000002147483648", ⟨1, 3, 2⟩⟩) := by
  intro digits reader lexer
  have htape : lexer.view.tape = ⟨[' '] ++ (digits ++ ['y']), none⟩ := by decide +kernel
  have hskips : lexer.view.Skips [' '] := .inl (List.all_eq_true.mp rfl)
  have hdigits : IsDigits digits := ⟨nofun, List.all_eq_true.mp rfl⟩
  have hends : ∀ c ∈ ['y'].head?, ¬isDigit c := by simp; decide
  have hplace : lexer.position.pastAll [' '] = ⟨1, 3, 2⟩ := by decide +kernel
  obtain ⟨hinteger, -⟩ := number_outcomes reader {} rfl [.nextPlaced] htape hskips hdigits hends
  have hscans := (hinteger (by simp)).2 (by decide)
  rw [hplace] at hscans
  exact ⟨htape, hskips, hdigits, hscans⟩

/-- A number under a limit is cut off at the first digit that makes it too long, and a number that is
not cut off is what it is without a limit. Only a point behind as many digits as the limit allows is
one character too many without being cut off, so the text of an error is within the limit but for
that point. -/
theorem number_cut_off (reader : Reader) (config : Config) {n : Nat}
    (hlimit : config.maxLiteralLength = some n) (requests : List Request) :
    let lexer := (new reader config).after requests
    (∀ gap c rest, lexer.view.tape = ⟨gap ++ c :: rest, none⟩ → lexer.view.Skips gap →
      isDigit c →
      (∃ whole text left, IsDigits whole ∧ Numeral whole text left ∧ text ++ left = c :: rest) ∧
      ∀ whole text left, IsDigits whole → Numeral whole text left → text ++ left = c :: rest →
        let start := lexer.position.pastAll gap
        (reach whole n ≤ text.length →
          lexer.Scans gap (text.take (reach whole n)) (.error ⟨.literalTooLong n, start⟩)) ∧
        (text.length < reach whole n →
          lexer.Scans gap text ((Reading.number none (c :: rest)).placed start) ∧
          (n < text.length → whole.length = n ∧ text = whole ++ ['.']))) ∧
      ∀ error, lexer.nextPlaced.result = .error error →
        (∀ text, error.cause = .numberOverflow text → text.length ≤ n) ∧
        ∀ text, error.cause = .malformedNumber text → text.length ≤ n + 1 := by
  intro lexer
  obtain ⟨hready, hbound⟩ := ready_after reader config requests
  rw [hlimit] at hbound
  constructor
  · intro gap c rest htape hskips hdigit
    have hscans := scans_of_text hready htape hskips (.inr (.inl hdigit))
    rw [hbound, Reading.token_of_digit hdigit] at hscans
    refine ⟨exists_numeral hdigit rest, ?_⟩
    rintro whole text left hwhole hnumeral hsplit start
    rw [← hsplit] at hscans ⊢
    constructor
    · intro hbeyond
      rw [Reading.number_beyond hwhole hnumeral hbeyond] at hscans
      exact hscans
    · intro hwithin
      obtain ⟨result, hnumber⟩ := Reading.number_within hwhole hnumeral
      rw [hnumber (some n) fun m hm => Option.some.inj hm ▸ hwithin] at hscans
      rw [hnumber none nofun]
      exact ⟨hscans, hnumeral.point_of_length hwithin⟩
  · intro error herror
    have hnext : lexer.view.next.1 = (.error error : Except LexError Placed).map some :=
      (result_nextPlaced hready).symm.trans herror
    have hvalid : error.cause.Valid lexer.view.limit := View.sound_next hnext
    rw [hbound] at hvalid
    constructor
    · intro text hcause
      rw [hcause] at hvalid
      exact hvalid.2 n rfl
    · intro text hcause
      rw [hcause] at hvalid
      obtain ⟨digits, -, hallows, htext⟩ := hvalid
      rw [← String.length_toList, htext, List.length_append, List.length_singleton]
      exact Nat.succ_le_succ (hallows n rfl)

/-- Where the point is the first character too many, the digit behind it is still taken. -/
theorem number_cut_off_fraction :
    let reader := Reader.ofBytes (Utf8.encode "x 12.55".toList)
    let config : Config := { maxLiteralLength := some 2 }
    let lexer := (new reader config).after [.nextPlaced]
    lexer.view.tape = ⟨[' '] ++ '1' :: "2.55".toList, none⟩ ∧ lexer.view.Skips [' '] ∧
      lexer.Scans [' '] "12.5".toList (.error ⟨.literalTooLong 2, ⟨1, 3, 2⟩⟩) := by
  intro reader config lexer
  have htape : lexer.view.tape = ⟨[' '] ++ '1' :: "2.55".toList, none⟩ := by decide +kernel
  have hskips : lexer.view.Skips [' '] := .inl (List.all_eq_true.mp rfl)
  have hwhole : IsDigits ['1', '2'] := ⟨nofun, List.all_eq_true.mp rfl⟩
  have hdigits : IsDigits ['5', '5'] := ⟨nofun, List.all_eq_true.mp rfl⟩
  have hnumeral : Numeral ['1', '2'] "12.55".toList [] := .fraction hdigits nofun
  have hplace : lexer.position.pastAll [' '] = ⟨1, 3, 2⟩ := by decide +kernel
  obtain ⟨-, hnumbers⟩ :=
    (number_cut_off reader config rfl [.nextPlaced]).1 [' '] '1' _ htape hskips (by decide)
  have hscans := (hnumbers _ _ [] hwhole hnumeral rfl).1 (by decide)
  rw [hplace] at hscans
  exact ⟨htape, hskips, hscans⟩

/-- The point is counted, but the length is not looked at behind it. -/
theorem point_uncounted :
    ¬∀ (text : List Char) (n : Nat) (config : Config), config.maxLiteralLength = some n →
      ∀ error, (new (Reader.ofBytes (Utf8.encode text)) config).nextPlaced.result = .error error →
        ∀ number, error.cause = .malformedNumber number → number.length ≤ n := by
  intro h
  have hshort := h "12.".toList 2 { maxLiteralLength := some 2 } rfl
    ⟨.malformedNumber "12.", .start⟩ (by decide +kernel) "12." rfl
  exact absurd hshort (by decide)

end Lexer

end StreamLexer
