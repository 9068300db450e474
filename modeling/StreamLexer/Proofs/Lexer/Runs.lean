import StreamLexer.Lexer.Session

/-! # Runs, call by call

A run is one call in front of the run of the lexer that the call leaves behind.
-/

set_option autoImplicit false

namespace StreamLexer.Lexer

variable {lexer : Lexer}

theorem drain_of_none (h : lexer.next.result = none) :
    lexer.drain = ⟨[], lexer.next.events, lexer.next.lexer⟩ := by
  rw [drain]
  split
  · rename_i hnext
    rw [hnext]
  · rename_i hnext
    rw [hnext] at h
    cases h

theorem drain_of_some {item : Except LexError Token} (h : lexer.next.result = some item) :
    lexer.drain =
      ⟨item :: lexer.next.lexer.drain.result, lexer.next.events ++ lexer.next.lexer.drain.events,
        lexer.next.lexer.drain.lexer⟩ := by
  rw [drain]
  split
  · rename_i hnext
    rw [hnext] at h
    cases h
  · rename_i hnext
    rw [hnext] at h ⊢
    cases h
    rfl

theorem scan_of_end (h : lexer.nextPlaced.result = .ok none) :
    lexer.scan = ⟨[], lexer.nextPlaced.events, lexer.nextPlaced.lexer⟩ := by
  rw [scan]
  split
  · rename_i hnext
    rw [hnext]
  · rename_i hnext
    rw [hnext] at h
    cases h
  · rename_i hnext
    rw [hnext] at h
    cases h

theorem scan_of_item {outcome : Except LexError Placed}
    (h : lexer.nextPlaced.result = outcome.map some) :
    lexer.scan =
      ⟨⟨outcome, lexer.nextPlaced.lexer.position⟩ :: lexer.nextPlaced.lexer.scan.result,
        lexer.nextPlaced.events ++ lexer.nextPlaced.lexer.scan.events,
        lexer.nextPlaced.lexer.scan.lexer⟩ := by
  rw [scan]
  split
  · rename_i hnext
    rw [hnext] at h
    cases outcome <;> cases h
  · rename_i hnext
    rw [hnext] at h ⊢
    cases outcome <;> cases h
    rfl
  · rename_i hnext
    rw [hnext] at h ⊢
    cases outcome <;> cases h
    rfl

/-- A call ends the stream or gives an item. -/
theorem end_or_item (lexer : Lexer) :
    lexer.nextPlaced.result = .ok none ∨
      ∃ outcome : Except LexError Placed, lexer.nextPlaced.result = outcome.map some := by
  match lexer.nextPlaced.result with
  | .ok none => exact .inl rfl
  | .ok (some placed) => exact .inr ⟨.ok placed, rfl⟩
  | .error error => exact .inr ⟨.error error, rfl⟩

/-- Every item leaves less to be read. -/
theorem weight_lt_of_item {outcome : Except LexError Placed}
    (h : lexer.nextPlaced.result = outcome.map some) :
    lexer.nextPlaced.lexer.weight < lexer.weight := by
  apply lexer.weight_nextPlaced.2
  rw [h]
  cases outcome <;> simp [Except.map]

/-- What holds in front of the end, and in front of an item if it holds behind it, holds of every
lexer. -/
theorem scan_induction {motive : Lexer → Prop}
    (ended : ∀ lexer, lexer.nextPlaced.result = .ok none → motive lexer)
    (item : ∀ (lexer : Lexer) (outcome : Except LexError Placed),
      lexer.nextPlaced.result = outcome.map some → motive lexer.nextPlaced.lexer → motive lexer)
    (lexer : Lexer) : motive lexer := by
  induction hweight : lexer.weight using Nat.strongRecOn generalizing lexer with
  | ind weight ih =>
    rcases end_or_item lexer with hend | ⟨outcome, hitem⟩
    · exact ended lexer hend
    · exact item lexer outcome hitem (ih _ (hweight ▸ weight_lt_of_item hitem) _ rfl)

/-- The same for the sequence that ends with the first error. -/
theorem drain_induction {motive : Lexer → Prop}
    (ended : ∀ lexer, lexer.next.result = none → motive lexer)
    (item : ∀ (lexer : Lexer) (item : Except LexError Token),
      lexer.next.result = some item → motive lexer.next.lexer → motive lexer)
    (lexer : Lexer) : motive lexer := by
  induction hweight : lexer.weight using Nat.strongRecOn generalizing lexer with
  | ind weight ih =>
    cases hresult : lexer.next.result with
    | none => exact ended lexer hresult
    | some found =>
      have hlt := @weight_next_lt lexer (by rw [hresult]; rfl)
      exact item lexer found hresult (ih _ (hweight ▸ hlt) _ rfl)

/-! ## A number of items -/

/-- The next calls of a lexer give these items and leave another lexer behind. -/
inductive Yields : Lexer → List Item → Lexer → Prop where
  | nil (lexer : Lexer) : Yields lexer [] lexer
  | cons {lexer last : Lexer} {outcome : Except LexError Placed} {items : List Item}
      (hitem : lexer.nextPlaced.result = outcome.map some)
      (hlater : Yields lexer.nextPlaced.lexer items last) :
      Yields lexer (⟨outcome, lexer.nextPlaced.lexer.position⟩ :: items) last

namespace Yields

variable {last : Lexer} {items : List Item} {item : Item}

/-- The first of the items is what the next call gives. -/
theorem of_cons (h : lexer.Yields (item :: items) last) :
    lexer.nextPlaced.result = item.outcome.map some ∧
      lexer.nextPlaced.lexer.position = item.stop ∧ lexer.nextPlaced.lexer.Yields items last := by
  cases h with
  | cons hitem hlater => exact ⟨hitem, rfl, hlater⟩

theorem scan (h : lexer.Yields items last) : lexer.scan.result = items ++ last.scan.result := by
  induction h with
  | nil lexer => rfl
  | cons hitem hlater ih => rw [scan_of_item hitem, ih, List.cons_append]

theorem keeps {P : Lexer → Prop} (hP : ∀ {lexer : Lexer}, P lexer → P lexer.nextPlaced.lexer)
    (h : lexer.Yields items last) (hlexer : P lexer) : P last := by
  induction h with
  | nil lexer => exact hlexer
  | cons hitem hlater ih => exact ih (hP hlexer)

theorem position (h : lexer.Yields (items ++ [item]) last) : last.position = item.stop := by
  induction items generalizing lexer with
  | nil =>
    cases h with
    | cons hitem hlater =>
      cases hlater
      rfl
  | cons first items ih =>
    cases h with
    | cons hitem hlater => exact ih hlater

end Yields

theorem exists_yields {items later : List Item} (h : lexer.scan.result = items ++ later) :
    ∃ last, lexer.Yields items last ∧ last.scan.result = later := by
  induction items generalizing lexer with
  | nil => exact ⟨lexer, .nil lexer, h⟩
  | cons item items ih =>
    rcases end_or_item lexer with hend | ⟨outcome, hitem⟩
    · rw [scan_of_end hend] at h
      cases h
    · rw [scan_of_item hitem] at h
      obtain ⟨rfl, hrest⟩ := List.cons_eq_cons.mp h
      obtain ⟨last, hyields, hlast⟩ := ih hrest
      exact ⟨last, .cons hitem hyields, hlast⟩

/-- All the items of a scan, and then the call that ends it. -/
theorem exists_yields_scan (lexer : Lexer) :
    ∃ last, lexer.Yields lexer.scan.result last ∧ last.nextPlaced.result = .ok none := by
  obtain ⟨last, hyields, hlast⟩ := exists_yields (List.append_nil lexer.scan.result).symm
  refine ⟨last, hyields, ?_⟩
  rcases end_or_item last with hend | ⟨outcome, hitem⟩
  · exact hend
  · rw [scan_of_item hitem] at hlast
    cases hlast

theorem first_of_scan {item : Item} {later : List Item}
    (h : lexer.scan.result = item :: later) :
    lexer.nextPlaced.result = item.outcome.map some ∧
      item = ⟨item.outcome, lexer.nextPlaced.lexer.position⟩ := by
  rcases end_or_item lexer with hend | ⟨outcome, hitem⟩
  · rw [scan_of_end hend] at h
    cases h
  · rw [scan_of_item hitem] at h
    obtain ⟨rfl, -⟩ := List.cons_eq_cons.mp h
    exact ⟨hitem, rfl⟩

theorem head?_scan {outcome : Except LexError Placed}
    (h : lexer.nextPlaced.result = outcome.map some) :
    lexer.scan.result.head? = some ⟨outcome, lexer.nextPlaced.lexer.position⟩ := by
  rw [scan_of_item h]
  rfl

/-! ## The sequence that ends with the first error -/

theorem placed_of_next {token : Token} (h : lexer.next.result = some (.ok token)) :
    ∃ placed, lexer.nextPlaced.result = .ok (some placed) ∧
      lexer.next.lexer = lexer.nextPlaced.lexer := by
  rw [next] at h ⊢
  split at h
  · cases h
  · rename_i hfailed
    rw [if_neg hfailed, nextToken, Call.map] at *
    generalize lexer.nextPlaced = call at h ⊢
    obtain ⟨_ | _ | placed, events, last⟩ := call
    · cases h
    · cases h
    · exact ⟨placed, rfl, rfl⟩

theorem error_of_next {error : LexError} (h : lexer.next.result = some (.error error)) :
    lexer.nextPlaced.result = .error error := by
  rw [next] at h
  split at h
  · cases h
  · rw [nextToken, Call.map] at h
    generalize lexer.nextPlaced = call at h ⊢
    obtain ⟨_ | _ | placed, events, last⟩ := call <;> cases h
    rfl

section Next

variable (hfailed : lexer.failed = false)
include hfailed

theorem next_of_end (h : lexer.nextPlaced.result = .ok none) : lexer.next.result = none := by
  have hnot : ¬lexer.failed = true := by simp [hfailed]
  rw [next, if_neg hnot, nextToken, Call.map, h]
  rfl

theorem next_of_placed {placed : Placed} (h : lexer.nextPlaced.result = .ok (some placed)) :
    lexer.next.result = some (.ok placed.token) ∧ lexer.next.lexer = lexer.nextPlaced.lexer := by
  have hnot : ¬lexer.failed = true := by simp [hfailed]
  rw [next, if_neg hnot, nextToken, Call.map, h]
  exact ⟨rfl, rfl⟩

theorem next_of_error {error : LexError} (h : lexer.nextPlaced.result = .error error) :
    lexer.next.result = some (.error error) := by
  have hnot : ¬lexer.failed = true := by simp [hfailed]
  rw [next, if_neg hnot, nextToken, Call.map, h]
  rfl

theorem tokenize_of_end (h : lexer.nextPlaced.result = .ok none) :
    lexer.tokenize.result = .ok [] := by
  rw [tokenize, drain_of_none (next_of_end hfailed h)]
  rfl

theorem tokenize_of_placed {placed : Placed} (h : lexer.nextPlaced.result = .ok (some placed)) :
    lexer.tokenize.result =
      lexer.nextPlaced.lexer.tokenize.result.map (placed.token :: ·) := by
  obtain ⟨hresult, hlexer⟩ := next_of_placed hfailed h
  rw [tokenize, drain_of_some hresult, tokenize, hlexer]
  simp only [Call.map, List.mapM_cons]
  cases lexer.nextPlaced.lexer.drain.result.mapM id <;> rfl

theorem tokenize_eq_ok_iff {placed : Placed} {tokens : List Token}
    (h : lexer.nextPlaced.result = .ok (some placed)) :
    lexer.tokenize.result = .ok tokens ↔ ∃ later, tokens = placed.token :: later ∧
      lexer.nextPlaced.lexer.tokenize.result = .ok later := by
  rw [tokenize_of_placed hfailed h]
  cases lexer.nextPlaced.lexer.tokenize.result with
  | error error => simp [Except.map]
  | ok later => simp [Except.map, eq_comm]

theorem tokenize_of_error {error : LexError} (h : lexer.nextPlaced.result = .error error) :
    lexer.tokenize.result = .error error := by
  rw [tokenize, drain_of_some (next_of_error hfailed h)]
  rfl

end Next

end StreamLexer.Lexer
