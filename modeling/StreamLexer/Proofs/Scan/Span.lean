import StreamLexer.Proofs.Scan.Reading

/-! # Runs of a class of characters

A run takes the longest beginning of the text in its class. It succeeds if and only if the limit
allows every character of it.
-/

set_option autoImplicit false

namespace StreamLexer

/-- The limit, if there is one, allows a literal of this length. -/
def Allows (limit : Option Nat) (length : Nat) : Prop :=
  ∀ bound ∈ limit, length ≤ bound

theorem Allows.mono {limit : Option Nat} {few many : Nat} (h : Allows limit many)
    (hle : few ≤ many) : Allows limit few :=
  fun bound hbound => Nat.le_trans hle (h bound hbound)

theorem allows_none (length : Nat) : Allows none length := fun _ h => nomatch h

namespace Reading

variable {limit : Option Nat} {p : Char → Bool} {count : Nat}

theorem check_of_allows {length : Nat} (h : Allows limit length) (rest : List Char) :
    check limit length rest = done () rest := by
  simp only [check]
  split
  · rfl
  · rename_i bound
    rw [if_neg (Nat.not_lt.mpr (h bound rfl))]

theorem allows_of_check {length : Nat} {rest : List Char}
    (h : (check limit length rest).result = .ok ()) : Allows limit length := by
  intro bound hbound
  cases hbound
  apply Nat.le_of_not_lt
  intro hlt
  simp [check, hlt, fail] at h

theorem span_of_allows {text : List Char}
    (h : Allows limit (count + (text.takeWhile p).length)) :
    span limit p count text = ⟨.ok (text.takeWhile p), text.takeWhile p, text.dropWhile p⟩ := by
  induction text generalizing count with
  | nil => rfl
  | cons c rest ih =>
    simp only [span]
    by_cases hc : p c
    · rw [List.takeWhile_cons_of_pos hc] at h
      rw [List.length_cons] at h
      have hrest := ih (h.mono (by omega) : Allows limit (count + 1 + (rest.takeWhile p).length))
      rw [if_pos hc, check_of_allows (h.mono (by omega)), hrest,
        List.takeWhile_cons_of_pos hc, List.dropWhile_cons_of_pos hc]
      simp only [bind, done, push, map, List.nil_append, List.append_nil]
    · rw [if_neg hc, List.takeWhile_cons_of_neg hc, List.dropWhile_cons_of_neg hc]
      rfl

theorem span_of_takeWhile_nil {text : List Char} (h : text.takeWhile p = []) :
    span limit p count text = done [] text := by
  cases text with
  | nil => rfl
  | cons c rest =>
    have hc : ¬p c := fun hc => by simp [List.takeWhile_cons_of_pos hc] at h
    rw [span, if_neg hc]

theorem allows_of_span {text run : List Char} (h : (span limit p count text).result = .ok run)
    (hrun : text.takeWhile p ≠ []) : Allows limit (count + (text.takeWhile p).length) := by
  induction text generalizing count run with
  | nil => exact absurd rfl hrun
  | cons c rest ih =>
    have hc : p c := by
      by_cases hc : p c
      · exact hc
      · exact absurd (List.takeWhile_cons_of_neg hc) hrun
    rw [span, if_pos hc] at h
    rw [List.takeWhile_cons_of_pos hc]
    cases hcheck : (check limit (count + 1) rest).result with
    | error fault => simp [push, bind, hcheck] at h
    | ok u =>
      by_cases hrest : rest.takeWhile p = []
      · rw [hrest]
        exact allows_of_check hcheck
      · cases hspan : (span limit p (count + 1) rest).result with
        | error fault => simp [push, bind, map, hcheck, hspan] at h
        | ok run' =>
          have hlonger := ih hspan hrest
          rw [List.length_cons]
          exact hlonger.mono (by omega)

theorem span_eq_of_ok {text run : List Char} (h : (span limit p count text).result = .ok run) :
    span limit p count text = ⟨.ok (text.takeWhile p), text.takeWhile p, text.dropWhile p⟩ := by
  by_cases hrun : text.takeWhile p = []
  · have htext := @List.takeWhile_append_dropWhile _ p text
    rw [hrun, List.nil_append] at htext
    rw [span_of_takeWhile_nil hrun, hrun, htext]
    rfl
  · exact span_of_allows (allows_of_span h hrun)

theorem not_class_of_head {text : List Char} {c : Char} (h : c ∈ (text.dropWhile p).head?) :
    ¬p c := by
  have hhead := List.head?_dropWhile_not p text
  rw [Option.mem_def.mp h] at hhead
  simpa using hhead

section Exact

variable {run rest : List Char} (hrun : ∀ c ∈ run, p c) (hrest : ∀ c ∈ rest.head?, ¬p c)
include hrun hrest

theorem takeWhile_exact : (run ++ rest).takeWhile p = run := by
  have hnone : rest.takeWhile p = [] := by
    cases rest with
    | nil => rfl
    | cons c rest => exact List.takeWhile_cons_of_neg (hrest c rfl)
  rw [List.takeWhile_append_of_pos hrun, hnone, List.append_nil]

theorem dropWhile_exact : (run ++ rest).dropWhile p = rest := by
  rw [List.dropWhile_append_of_pos hrun]
  cases rest with
  | nil => rfl
  | cons c rest => exact List.dropWhile_cons_of_neg (hrest c rfl)

theorem span_append (hallows : Allows limit (count + run.length)) :
    span limit p count (run ++ rest) = ⟨.ok run, run, rest⟩ := by
  have htake := takeWhile_exact hrun hrest
  rw [span_of_allows (htake.symm ▸ hallows), htake, dropWhile_exact hrun hrest]

end Exact

theorem check_of_long {n length : Nat} (h : n < length) (rest : List Char) :
    check (some n) length rest = fail (.literalTooLong n) rest := if_pos h

/-- A run that is too long is faulted behind the first character that is, or at once. -/
theorem span_beyond {n : Nat} {run : List Char} (hrun : ∀ c ∈ run, p c) (hne : run ≠ [])
    (hlong : n < count + run.length) (rest : List Char) :
    let taken := max 1 (n + 1 - count)
    span (some n) p count (run ++ rest) =
      ⟨.error ⟨.literalTooLong n, []⟩, run.take taken, run.drop taken ++ rest⟩ := by
  induction run generalizing count with
  | nil => exact absurd rfl hne
  | cons c run ih =>
    intro taken
    rw [List.cons_append, span, if_pos (hrun c List.mem_cons_self)]
    by_cases hnow : n < count + 1
    · have htaken : taken = 1 := by omega
      rw [check_of_long hnow, htaken]
      rfl
    · have hallows : Allows (some n) (count + 1) := fun bound hbound =>
        Option.some.inj hbound ▸ Nat.le_of_not_lt hnow
      have htaken : taken = max 1 (n + 1 - (count + 1)) + 1 := by omega
      have hmore : run ≠ [] := by
        rintro rfl
        rw [List.length_singleton] at hlong
        exact hnow hlong
      rw [List.length_cons] at hlong
      have hrest := ih (fun d hd => hrun d (List.mem_cons_of_mem _ hd)) hmore
        (by omega : n < count + 1 + run.length)
      rw [check_of_allows hallows, hrest, htaken]
      rfl

theorem blanks_eq (text : List Char) :
    blanks text =
      ⟨.ok (), text.takeWhile CharClass.isBlank, text.dropWhile CharClass.isBlank⟩ := by
  simp only [blanks]
  rw [span_of_allows (allows_none _)]
  simp only [map, bind, done, List.append_nil]

end Reading

end StreamLexer
