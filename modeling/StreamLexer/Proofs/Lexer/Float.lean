import StreamLexer.Proofs.Lexer.Literal
import StreamLexer.Proofs.Lexer.Rereading
import StreamLexer.Proofs.Lexer.Transcript
import StreamLexer.Proofs.Number.Shortest

/-! # Numbers with a point

A text that is a number with a point has at most one token, and the value of this token is the
rational that the digits denote, rounded. Written again the token has digits around a point, with a
sign in front of them if its number has one, and the text that is written is read as the number
without the sign.
-/

set_option autoImplicit false

namespace StreamLexer.Lexer

open CharClass Grammar

variable {limit : Option Nat} {lexer : Lexer} {text whole fraction : List Char}

/-- A call that takes all of the text gives the only item. -/
theorem tokenize_of_scans (hready : lexer.Ready) (halong : lexer.view.Along limit text)
    {outcome : Except LexError Placed}
    (h : lexer.Scans [] lexer.view.tape.text outcome) :
    lexer.tokenize.result = outcome.map fun placed => [placed.token] := by
  cases outcome with
  | error error => exact tokenize_of_error halong.failed h.result
  | ok placed =>
    have hend : lexer.nextPlaced.lexer.view.tape.text = [] :=
      List.append_right_eq_self.mp h.step.text
    have hskips : lexer.nextPlaced.lexer.view.Skips lexer.nextPlaced.lexer.view.tape.text :=
      .inl (hend ▸ isGap_nil)
    have hlast : lexer.nextPlaced.lexer.nextPlaced.result = .ok none := by
      rw [result_nextPlaced (ready_nextPlaced hready), View.next_of_gap h.step.stop hskips]
    rw [tokenize_of_placed halong.failed h.result,
      tokenize_of_end (along_nextPlaced hready halong).failed hlast]
    rfl

/-- A text of digits around a point is one number, unless the number is too large. -/
theorem tokenize_point {reader : Reader} (hwhole : IsDigits whole) (hfraction : IsDigits fraction)
    (h : reader.Delivers (Utf8.encode (whole ++ '.' :: fraction))) (config : Config)
    (hlimit : config.maxLiteralLength = none) :
    (∀ x, Binary32.ofDecimal? whole fraction = some x →
        (new reader config).tokenize.result = .ok [.float x]) ∧
      (Binary32.ofDecimal? whole fraction = none →
        (new reader config).tokenize.result =
          .error ⟨.numberOverflow (String.ofList (whole ++ '.' :: fraction)), .start⟩) := by
  have hready := ready_new reader config
  have htape := tape_of_delivers h config
  have hscans := @scans_of_digits _ [] _ _ hready htape (.inl isGap_nil) hwhole
  have hbound : (new reader config).view.limit = none := hlimit
  have hnumber := @Reading.number_fraction none [] whole hwhole fraction hfraction
    (allows_none _) nofun
  rw [List.append_nil] at hnumber
  rw [hbound, hnumber] at hscans
  constructor
  · intro x hvalue
    rw [hvalue, Reading.ofFloat, Reading.behind_done] at hscans
    have htext : (new reader config).view.tape.text = whole ++ '.' :: fraction :=
      congrArg Tape.text htape
    exact tokenize_of_scans hready (along_of_delivers h config) (htext ▸ hscans)
  · intro hvalue
    rw [hvalue, Reading.ofFloat, Reading.behind, Reading.fail] at hscans
    exact tokenize_of_error rfl hscans.result

/-- Digits around a point are read as the finite number without a sign that is nearest to what they
denote, and of two as near as the one with the even significand. They are too large from the middle
between the greatest finite number and the power of two above it on. -/
theorem float_rounds {reader : Reader} (hwhole : IsDigits whole) (hfraction : IsDigits fraction)
    (h : reader.Delivers (Utf8.encode (whole ++ '.' :: fraction))) (config : Config)
    (hlimit : config.maxLiteralLength = none) :
    let result := (new reader config).tokenize.result
    let q := Decimal.exact whole fraction
    (result = .error ⟨.numberOverflow (String.ofList (whole ++ '.' :: fraction)), .start⟩ ↔
        2 ^ 128 - 2 ^ 103 ≤ q) ∧
      (q < 2 ^ 128 - 2 ^ 103 → ∃ x : Binary32, result = .ok [.float x] ∧
        ∀ y : Binary32, y = x ↔ y.negative = false ∧ y.Rounds q) := by
  intro result q
  obtain ⟨hread, hlarge⟩ := tokenize_point hwhole hfraction h config hlimit
  cases hvalue : Binary32.ofDecimal? whole fraction with
  | none =>
    have hq : 2 ^ 128 - 2 ^ 103 ≤ q := Binary32.ofDecimal?_too_large_iff.mp hvalue
    constructor
    · exact ⟨fun _ => hq, fun _ => hlarge hvalue⟩
    · intro hsmall
      exact absurd hsmall (not_lt.mpr hq)
  | some x =>
    have hresult : result = .ok [.float x] := hread x hvalue
    obtain ⟨hq, -⟩ := Binary32.ofDecimal?_eq_some_iff.mp hvalue
    constructor
    · rw [hresult]
      constructor
      · nofun
      · intro hle
        exact absurd hq (not_lt.mpr hle)
    · intro hsmall
      refine ⟨x, hresult, fun y => ?_⟩
      calc
        y = x ↔ Binary32.ofDecimal? whole fraction = some y := by
          rw [hvalue, Option.some.injEq, eq_comm]
        _ ↔ y.negative = false ∧ y.Rounds q :=
          Binary32.ofDecimal?_eq_some_iff.trans (and_iff_right hsmall)

/-- Between two numbers the even one is taken, and the first decimal that is too large is the one in
the middle behind the greatest number. -/
theorem float_rounds_middle :
    let tie := Reader.ofBytes (Utf8.encode "16777217.0".toList)
    let large := Reader.ofBytes (Utf8.encode "340282356779733661637539395458142568448.0".toList)
    tie.Delivers (Utf8.encode "16777217.0".toList) ∧
      (new tie {}).tokenize.result = .ok [.float ⟨0x4B800000⟩] ∧
      Binary32.Rounds 16777217 ⟨0x4B800000⟩ ∧
      large.Delivers (Utf8.encode "340282356779733661637539395458142568448.0".toList) ∧
      (new large {}).tokenize.result =
        .error ⟨.numberOverflow "340282356779733661637539395458142568448.0", .start⟩ := by
  intro tie large
  have htie := Reader.delivers_ofBytes (Utf8.encode "16777217.0".toList)
  have hlarge := Reader.delivers_ofBytes
    (Utf8.encode "340282356779733661637539395458142568448.0".toList)
  have hzero : IsDigits ['0'] := ⟨nofun, List.all_eq_true.mp rfl⟩
  have hwhole : IsDigits "16777217".toList := ⟨nofun, List.all_eq_true.mp rfl⟩
  have hwhole' : IsDigits "340282356779733661637539395458142568448".toList :=
    ⟨nofun, List.all_eq_true.mp rfl⟩
  have hvalue : Decimal.value "16777217".toList = 16777217 := by decide
  have hvalue' : Decimal.value "340282356779733661637539395458142568448".toList =
      340282356779733661637539395458142568448 := by decide
  have hexact : Decimal.exact "16777217".toList ['0'] = 16777217 := by
    rw [Decimal.exact_zero, hvalue]
    norm_num
  have hexact' : Decimal.exact "340282356779733661637539395458142568448".toList ['0'] =
      2 ^ 128 - 2 ^ 103 := by
    rw [Decimal.exact_zero, hvalue']
    norm_num
  have hrounds := (float_rounds hwhole hzero htie {} rfl).2
  have hoverflows := (float_rounds hwhole' hzero hlarge {} rfl).1.mpr hexact'.ge
  rw [hexact] at hrounds
  obtain ⟨x, hresult, hx⟩ := hrounds (by norm_num)
  have hbits : x = ⟨0x4B800000⟩ := by
    have hread : Binary32.ofDecimal? "16777217".toList ['0'] = some ⟨0x4B800000⟩ := by
      decide +kernel
    exact ((hx _).mpr (hexact ▸ (Binary32.ofDecimal?_eq_some_iff.mp hread).2)).symm
  subst hbits
  exact ⟨htie, hresult, ((hx _).mp rfl).2, hlarge, hoverflows⟩

/-! ## Written numbers -/

theorem ofDecimal?_of_tokenize (hwhole : IsDigits whole) (hfraction : IsDigits fraction)
    {x : Binary32}
    (h : (ofText (whole ++ '.' :: fraction)).tokenize.result = .ok [.float x]) :
    Binary32.ofDecimal? whole fraction = some x := by
  have hdelivers := Reader.delivers_ofBytes (Utf8.encode (whole ++ '.' :: fraction))
  obtain ⟨hread, hlarge⟩ := tokenize_point hwhole hfraction hdelivers {} rfl
  cases hvalue : Binary32.ofDecimal? whole fraction with
  | none => cases h.symm.trans (hlarge hvalue)
  | some y =>
    cases h.symm.trans (hread y hvalue)
    rfl

/-- Behind a sign the written digits are the lexeme of the number without a sign. -/
theorem lexes_chars {x : Binary32} (hfinite : x.isFinite = true) :
    Lexes none x.chars (if x.negative then
      [.operator .minus, .float ⟨UInt32.ofNat x.magnitude⟩] else [.float x]) := by
  have hdenotes := denotes_digits (of_decide_eq_true hfinite)
  have hnumber : Lexes none (Binary32.digits x.magnitude) [.float ⟨UInt32.ofNat x.magnitude⟩] := by
    rw [← List.append_nil (Binary32.digits x.magnitude)]
    exact .lexeme hdenotes (fits_none _ _) nofun (.ended isGap_nil)
  rw [Binary32.chars_of_isFinite hfinite]
  cases hsign : x.negative with
  | false =>
    rw [← Binary32.eq_ofNat hsign] at hnumber
    exact hnumber
  | true =>
    have hends : Ends (.operator .minus) (Binary32.digits x.magnitude) := fun c _ =>
      ⟨fun ⟨hlonger, _⟩ => absurd hlonger (by decide), nofun⟩
    exact .lexeme (.operator .minus) trivial hends hnumber

/-- A finite number is written with digits on both sides of a point, behind a minus sign if its sign
bit is set; no other digits around a point that are read as its magnitude have fewer behind the
point. An integer is written as it is with one zero behind the point. What is written is read as the
sign and the number without it, to the bit. -/
theorem float_reread (x : Binary32) (hfinite : x.isFinite = true) :
    let written := (Token.float x).render.toList
    let sign : List Char := if x.negative then ['-'] else []
    let unsigned : Binary32 := ⟨x.bits &&& 0x7FFFFFFF⟩
    (∃ whole fraction, IsDigits whole ∧ IsDigits fraction ∧
        written = sign ++ (whole ++ '.' :: fraction) ∧
        ∀ whole' fraction', IsDigits whole' → IsDigits fraction' →
          (ofText (whole' ++ '.' :: fraction')).tokenize.result = .ok [.float unsigned] →
          fraction.length ≤ fraction'.length) ∧
      (∀ n : ℤ, x.toRat = n → written = sign ++ (Decimal.digits n.natAbs ++ ".0".toList)) ∧
      (ofText written).tokenize.result =
        .ok (if x.negative then [.operator .minus, .float unsigned] else [.float x]) := by
  intro written sign unsigned
  have hwritten : written = x.chars := String.toList_ofList
  have hunsigned : unsigned = ⟨UInt32.ofNat x.magnitude⟩ := x.unsigned_eq
  rw [hwritten, hunsigned]
  refine ⟨?_, ?_, ?_⟩
  · obtain ⟨places, n, hplaces, hdigits, hshortest⟩ :=
      Binary32.digits_shortest (of_decide_eq_true hfinite)
    refine ⟨_, _, isDigits_digits (n / Decimal.scale places), isDigits_lastDigits hplaces n, ?_, ?_⟩
    · rw [Binary32.chars_of_isFinite hfinite, hdigits]
      rfl
    · intro whole fraction hwhole hfraction hread
      rw [Decimal.length_lastDigits]
      exact hshortest whole fraction hfraction.1 (ofDecimal?_of_tokenize hwhole hfraction hread)
  · intro n hn
    exact Binary32.chars_of_int hfinite hn
  · exact tokenize_of_lexes (lexes_chars hfinite)

/-- The greatest number below zero. -/
theorem float_reread_greatest_negative :
    let x : Binary32 := ⟨0x80000001⟩
    let written := "-0.000000000000000000000000000000000000000000001"
    x.isFinite = true ∧ (Token.float x).render = written ∧
      (ofText written.toList).tokenize.result =
        .ok [.operator .minus, .float ⟨0x00000001⟩] := by
  intro x written
  have hfinite : x.isFinite = true := by decide
  have hwritten : (Token.float x).render = written := by decide +kernel
  have hnegative : x.negative = true := by decide
  have hunsigned : x.bits &&& 0x7FFFFFFF = 0x00000001 := by decide
  obtain ⟨-, -, hread⟩ := float_reread x hfinite
  rw [hwritten, if_pos hnegative, hunsigned] at hread
  exact ⟨hfinite, hwritten, hread⟩

end StreamLexer.Lexer
