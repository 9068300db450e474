import StreamLexer.Proofs.Lexer.Lookahead
import StreamLexer.Proofs.Lexer.Memory
import StreamLexer.Proofs.Lexer.Resumption

/-! # Blanks separate texts

To every token a blank behind it is as good as the end of the text, unless a string is left open
there; and behind blanks a lexer goes on as a new one would. So a text that consists of two others
with blanks between them gives the items of the first and then those of the second.
-/

set_option autoImplicit false

namespace StreamLexer.Lexer

open CharClass Grammar

variable {limit : Option Nat} {text first gap second : List Char} {lexer : Lexer}

/-- Behind a gap a lexer goes on as a new one that skips no mark. -/
theorem scan_behind_gap (hready : lexer.Ready) (halong : lexer.view.Along limit text)
    (hroom : text.length < Position.maxCount) (htext : gap ++ second = lexer.view.tape.text)
    (hskips : lexer.view.Skips gap) (hmore : gap ≠ []) (capacity : Nat) :
    lexer.scan.result =
      (new (.ofBytes (Utf8.encode second)) ⟨capacity, false, limit⟩).scan.result.map
        (Item.relocate (lexer.position.pastAll gap).translate) := by
  have hmoved : (lexer.view.movedTo gap second).Along limit text := halong.movedTo htext
  have hresumes := resumes_along hmoved rfl hroom capacity
  have hnext : lexer.view.next = (lexer.view.movedTo gap second).next :=
    View.next_of_skipped halong.stop htext hskips hmore
  exact (scan_of_view (View.simulation_resumes _) (ready_new _ _) hready hresumes hnext).1

/-- Where a text ended, blanks can follow. -/
theorem exchange_gap {closed : Prop} (hgap : IsGap gap) (hmore : gap ≠ []) (hclosed : closed)
    (ending : List Char) : Exchange closed ending (ending ++ (gap ++ second)) := by
  cases ending with
  | nil =>
    obtain ⟨c, blanks, rfl⟩ := List.exists_cons_of_ne_nil hmore
    exact .blank rfl rfl (hgap c List.mem_cons_self) hclosed
  | cons c ending => exact .alike rfl

/-- In front of a longer text a lexer gives the items of the shorter one, if what follows can stand
there in place of its end, and then is where the shorter text has only a gap left. -/
theorem exists_yields_longer (first later : List Char) (config : Config)
    (hlater : ∀ ending, Exchange
      (∀ item ∈ (new (.ofBytes (Utf8.encode first)) config).scan.result,
        isClosed item.outcome = true) ending (ending ++ later)) :
    ∃ last, (new (.ofBytes (Utf8.encode (first ++ later))) config).Yields
        (new (.ofBytes (Utf8.encode first)) config).scan.result last ∧ last.Ready ∧
      ∃ before ending, before ++ ending = first ∧ last.view.tape.text = ending ++ later ∧
        last.view.Skips ending ∧ last.position = Position.start.pastAll before := by
  have hready := ready_new (.ofBytes (Utf8.encode first)) config
  obtain ⟨last, hyields, hend⟩ := exists_yields_scan (new (.ofBytes (Utf8.encode first)) config)
  obtain ⟨hlastReady, halong⟩ := hyields.along hready (along_new first config)
  obtain ⟨before, hfirst, hposition⟩ := halong.taken
  have hskips : last.view.Skips last.view.tape.text :=
    View.skips_of_end halong.stop ((result_nextPlaced hlastReady).symm.trans hend)
  have htape : (new (.ofBytes (Utf8.encode first)) config).view.tape =
      ⟨before ++ last.view.tape.text, none⟩ := by rw [hfirst, tape_new]
  have hwhole : before ++ (last.view.tape.text ++ later) = first ++ later := by
    rw [← List.append_assoc, hfirst]
  obtain ⟨last', hsame, hready', hview⟩ := hyields.exchanged hready (ready_new _ config) htape
    (view_new first _ config) rfl (hlater last.view.tape.text)
  rw [hwhole] at hsame
  refine ⟨last', hsame, hready', before, last.view.tape.text, hfirst, congrArg (·.tape.text) hview,
    ?_, (congrArg View.position hview).trans hposition⟩
  rw [hview]
  exact hskips

theorem scan_of_separated (config : Config) (hgap : IsGap gap) (hmore : gap ≠ [])
    (hroom : (first ++ gap ++ second).length < Position.maxCount)
    (hclosed : ∀ item ∈ (new (.ofBytes (Utf8.encode first)) config).scan.result,
      isClosed item.outcome = true) :
    (new (.ofBytes (Utf8.encode (first ++ gap ++ second))) config).scan.result =
      (new (.ofBytes (Utf8.encode first)) config).scan.result ++
        (new (.ofBytes (Utf8.encode second)) { config with skipMark := false }).scan.result.map
          (Item.relocate (Position.behind (first ++ gap)).translate) := by
  obtain ⟨last, hyields, hready, before, ending, hfirst, htext, hskips, hposition⟩ :=
    exists_yields_longer first (gap ++ second) config (exchange_gap hgap hmore hclosed)
  rw [← List.append_assoc] at hyields htext
  obtain ⟨-, halong⟩ := hyields.along (ready_new _ config) (along_new _ config)
  have hbehind : last.position.pastAll (ending ++ gap) = Position.behind (first ++ gap) := by
    rw [List.length_append] at hroom
    calc
      last.position.pastAll (ending ++ gap)
        = Position.start.pastAll (first ++ gap) := by
          rw [hposition, ← Position.pastAll_append, ← List.append_assoc, hfirst]
      _ = Position.behind (first ++ gap) := Position.pastAll_start (by omega)
  have hlater := scan_behind_gap hready halong hroom htext.symm (hskips.append hgap)
    (fun hnil => hmore (List.append_eq_nil_iff.mp hnil).2) config.bufferCapacity
  rw [hyields.scan, hlater, hbehind]

theorem isClosed_iff {outcome : Except LexError Placed} :
    isClosed outcome = true ↔ ∀ p, outcome ≠ .error ⟨.unterminatedString, p⟩ := by
  constructor
  · rintro h p rfl
    cases h
  · intro h
    match outcome with
    | .ok placed => rfl
    | .error ⟨cause, p⟩ =>
      cases cause with
      | unterminatedString => exact absurd rfl (h p)
      | _ => rfl

/-- Blanks between two texts separate their items, unless a string of the first is left open: the
items of the second are as in a text of its own, behind the first and the blanks. So the tokens of
the whole are those of both. -/
theorem blanks_separate (first second : List Char) (config : Config) (hgap : IsGap gap)
    (hmore : gap ≠ []) (hroom : (first ++ gap ++ second).length < Position.maxCount) :
    let whole := new (.ofBytes (Utf8.encode (first ++ gap ++ second))) config
    let former := new (.ofBytes (Utf8.encode first)) config
    let latter := new (.ofBytes (Utf8.encode second)) { config with skipMark := false }
    let p := Position.behind (first ++ gap)
    ((∀ item ∈ former.scan.result, ∀ q, item.outcome ≠ .error ⟨.unterminatedString, q⟩) →
        whole.scan.result = former.scan.result ++
          latter.scan.result.map (Item.relocate p.translate)) ∧
      ∀ tokens later, former.tokenize.result = .ok tokens → latter.tokenize.result = .ok later →
        whole.tokenize.result = .ok (tokens ++ later) := by
  intro whole former latter p
  constructor
  · intro hclosed
    exact scan_of_separated config hgap hmore hroom fun item hitem =>
      isClosed_iff.mpr (hclosed item hitem)
  · intro tokens later htokens hlater
    obtain ⟨placed, hformer, rfl⟩ := (tokenize_iff_outcomes rfl).mp htokens
    obtain ⟨placed', hlatter, rfl⟩ := (tokenize_iff_outcomes rfl).mp hlater
    have hclosed : ∀ item ∈ former.scan.result, isClosed item.outcome = true := by
      intro item hitem
      have houtcome : item.outcome ∈ former.outcomes := List.mem_map_of_mem hitem
      rw [hformer] at houtcome
      obtain ⟨token, -, htoken⟩ := List.mem_map.mp houtcome
      rw [← htoken]
      rfl
    have houtcomes : whole.outcomes = former.outcomes ++
        latter.outcomes.map (relocateResult p.translate (Placed.relocate p.translate)) := by
      calc
        whole.outcomes = (former.scan.result ++
            latter.scan.result.map (Item.relocate p.translate)).map Item.outcome :=
          congrArg (List.map Item.outcome) (scan_of_separated config hgap hmore hroom hclosed)
        _ = former.outcomes ++ latter.outcomes.map
            (relocateResult p.translate (Placed.relocate p.translate)) := by
          rw [outcomes, outcomes, List.map_append, List.map_map, List.map_map]
          rfl
    refine (tokenize_iff_outcomes rfl).mpr
      ⟨placed ++ placed'.map (Placed.relocate p.translate), ?_, ?_⟩
    · rw [houtcomes, hformer, hlatter, List.map_append, List.map_map, List.map_map]
      rfl
    · rw [List.map_append, List.map_map]
      rfl

/-- Faults before the blanks, and a mark behind them that is not skipped. -/
theorem blanks_separate_faults :
    let first := "\ufeffx ? 12.".toList
    let gap := "\r\n\t".toList
    let second := "\ufeff\"é\n\" 1.5 y".toList
    let whole := new (.ofBytes (Utf8.encode (first ++ gap ++ second))) {}
    let former := new (.ofBytes (Utf8.encode first)) {}
    let latter := new (.ofBytes (Utf8.encode second)) ⟨8192, false, none⟩
    IsGap gap ∧ gap ≠ [] ∧ (first ++ gap ++ second).length < Position.maxCount ∧
      (∀ item ∈ former.scan.result, ∀ q, item.outcome ≠ .error ⟨.unterminatedString, q⟩) ∧
      former.scan.result.length = 3 ∧ latter.scan.result.length = 4 ∧
      whole.scan.result = former.scan.result ++
        latter.scan.result.map (Item.relocate (Position.translate ⟨2, 2, 13⟩)) := by
  intro first gap second whole former latter
  have hblanks : gap.all isBlank = true := by decide
  have hgap : IsGap gap := List.all_eq_true.mp hblanks
  have hmore : gap ≠ [] := by decide
  have hroom : (first ++ gap ++ second).length < Position.maxCount := by decide
  have hclosed : former.scan.result.all (fun item => isClosed item.outcome) = true := by
    decide +kernel
  have hnone : ∀ item ∈ former.scan.result, ∀ q,
      item.outcome ≠ .error ⟨.unterminatedString, q⟩ := fun item hitem =>
    isClosed_iff.mp (List.all_eq_true.mp hclosed item hitem)
  have hscan := (blanks_separate first second {} hgap hmore hroom).1 hnone
  have hbehind : Position.behind (first ++ gap) = ⟨2, 2, 13⟩ := by decide
  rw [hbehind] at hscan
  exact ⟨hgap, hmore, hroom, hnone, by decide +kernel, by decide +kernel, hscan⟩

end StreamLexer.Lexer
