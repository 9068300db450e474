import StreamLexer.Proofs.Scan.Reading

/-! # What a reading leaves

A reading takes a beginning of its text and leaves the rest, and a fault stands behind characters
that the token starts with. Both are kept by the ways in which readings are put together.
-/

set_option autoImplicit false

namespace StreamLexer.Reading

variable {α β : Type}

/-- The reading of `text` behind the characters `behind` of its token. -/
structure Covers (behind text : List Char) (reading : Reading α) : Prop where
  split : reading.taken ++ reading.rest = text
  fault : ∀ fault, reading.result = .error fault → fault.before <+: behind ++ text

namespace Covers

variable {behind text : List Char} {reading : Reading α}

theorem done (a : α) : Covers behind text (Reading.done a text) :=
  ⟨rfl, fun _ h => nomatch h⟩

theorem fail (cause : LexError.Cause) :
    Covers behind text (Reading.fail cause text : Reading α) := by
  refine ⟨rfl, fun fault h => ?_⟩
  cases h
  exact List.nil_prefix

theorem push {c : Char} (h : Covers (behind ++ [c]) text reading) :
    Covers behind (c :: text) (reading.push c) := by
  obtain ⟨hsplit, hfault⟩ := h
  refine ⟨congrArg (c :: ·) hsplit, fun fault herror => ?_⟩
  have hbefore := hfault fault herror
  rwa [List.append_assoc] at hbefore

theorem bind {next : α → List Char → Reading β} (h : Covers behind text reading)
    (hnext : ∀ a, reading.result = .ok a →
      Covers (behind ++ reading.taken) reading.rest (next a reading.rest)) :
    Covers behind text (reading.bind next) := by
  obtain ⟨result, taken, rest⟩ := reading
  obtain ⟨hsplit, hfault⟩ := h
  dsimp only at hsplit
  cases result with
  | error fault => exact ⟨hsplit, fun _ herror => hfault _ (by cases herror; rfl)⟩
  | ok a =>
    obtain ⟨hsplit', hfault'⟩ := hnext a rfl
    dsimp only at hsplit' hfault'
    refine ⟨?_, fun fault herror => ?_⟩
    · calc
        taken ++ (next a rest).taken ++ (next a rest).rest = taken ++ rest := by
          rw [List.append_assoc, hsplit']
        _ = text := hsplit
    · have hbefore := hfault' fault herror
      rwa [List.append_assoc, hsplit] at hbefore

theorem map (h : Covers behind text reading) (f : α → β) : Covers behind text (reading.map f) :=
  h.bind fun a _ => done (f a)

theorem check (limit : Option Nat) (length : Nat) :
    Covers behind text (Reading.check limit length text) := by
  simp only [Reading.check]
  split
  · exact done ()
  · split
    · exact fail _
    · exact done ()

theorem check_bind {limit : Option Nat} {length : Nat} {next : Reading β}
    (h : Covers behind text next) :
    Covers behind text ((Reading.check limit length text).bind fun _ _ => next) := by
  apply (check limit length).bind
  intro _ _
  rwa [check_taken, check_rest, List.append_nil]

theorem accept {expected : Char} {yes : List Char → Reading α} {no : Reading α}
    (hyes : ∀ rest, text = expected :: rest → Covers (behind ++ [expected]) rest (yes rest))
    (hno : Covers behind text no) : Covers behind text (Reading.accept expected text yes no) := by
  cases text with
  | nil => exact hno
  | cons c rest =>
    change Covers behind (c :: rest) (if c = expected then (yes rest).push c else no)
    split
    · rename_i hc
      subst hc
      exact (hyes rest rfl).push
    · exact hno

theorem span (limit : Option Nat) (p : Char → Bool) (count : Nat) :
    Covers behind text (Reading.span limit p count text) := by
  induction text generalizing behind count with
  | nil => exact done []
  | cons c rest ih =>
    simp only [Reading.span]
    split
    · exact (check_bind ((ih (count + 1)).map _)).push
    · exact done []

theorem escaped {before : List Char} {letter : Char} (h : before <+: behind) :
    Covers behind (letter :: text) (Reading.escaped before letter text) := by
  apply push
  split
  · refine ⟨rfl, fun fault herror => ?_⟩
    cases herror
    exact (h.trans (List.prefix_append _ _)).trans (List.prefix_append _ _)
  · exact done _

theorem content (limit : Option Nat) (count : Nat) :
    Covers behind text (Reading.content limit behind count text) := by
  fun_induction Reading.content limit behind count text with
  | case1 behind count => exact fail _
  | case2 behind count rest => exact (done []).push
  | case3 behind count => exact (fail _).push
  | case4 behind count letter rest hquote ih =>
    refine push (bind (escaped (List.prefix_append _ _)) fun meaning _ => ?_)
    rw [escaped_taken, escaped_rest, List.append_assoc]
    exact check_bind (ih.map _)
  | case5 behind count c rest hquote hescape ih =>
    exact (check_bind (ih.map _)).push

theorem ofDigits (digits : List Char) : Covers behind text (Reading.ofDigits digits text) := by
  simp only [Reading.ofDigits]
  split
  · exact done _
  · exact fail _

theorem ofFloat (digits : List Char) (value : Option Binary32) :
    Covers behind text (Reading.ofFloat digits value text) := by
  cases value with
  | none => exact fail _
  | some value => exact done _

theorem fraction (limit : Option Nat) (whole : List Char) :
    Covers behind text (Reading.fraction limit whole text) := by
  simp only [Reading.fraction]
  split
  · exact (span _ _ _).bind fun digits _ => ofFloat _ _
  · exact fail _

theorem number (limit : Option Nat) : Covers behind text (Reading.number limit text) :=
  (span _ _ _).bind fun _ _ => accept (fun _ _ => fraction _ _) (ofDigits _)

theorem operator (c : Char) : Covers behind (c :: text) (Reading.operator c text) := by
  refine push (bind ?_ fun spelling _ => ?_)
  · simp only [Reading.operatorText]
    split
    · exact done _
    · exact accept (fun _ _ => done _) (done _)
  · simp only [Reading.ofSpelling]
    split
    · exact done _
    · exact fail _

theorem token (limit : Option Nat) (c : Char) :
    Covers [] (c :: text) (Reading.token limit c text) := by
  simp only [Reading.token]
  split
  · rename_i hquote
    subst hquote
    exact ((content limit 0).map _).push
  · split
    · exact number limit
    · split
      · exact (span _ _ _).map _
      · split
        · exact operator c
        · exact (fail _).push

theorem blanks : Covers [] text (Reading.blanks text) :=
  (span _ _ _).map _

end Covers

end StreamLexer.Reading
