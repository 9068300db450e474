import StreamLexer.Proofs.Lexer.Acceptance
import StreamLexer.Proofs.Lexer.Call
import StreamLexer.Proofs.Lexer.Finality
import StreamLexer.Proofs.Stream.Decoding
import StreamLexer.Proofs.Text.Boundary

/-! # The positions that a lexer reports

On a text without failures one call skips a gap and takes what it needs for its token or its error.
So the position of a lexer, the start of its last token and every position in its answers stand
between characters of the text and are counted exactly.
-/

set_option autoImplicit false

namespace StreamLexer

open CharClass Grammar Lexer

namespace Position

variable {text : List Char} {p q : Position}

theorem behind_pastAll {before part after : List Char} (hroom : text.length < maxCount)
    (htext : before ++ part ++ after = text) :
    (behind before).pastAll part = behind (before ++ part) := by
  rw [← htext, List.length_append, List.length_append] at hroom
  have hbefore : before.length < maxCount := by omega
  have hpart : (before ++ part).length < maxCount := by
    rw [List.length_append]
    omega
  rw [← pastAll_start hbefore, ← pastAll_append, pastAll_start hpart]

/-- The characters of the text that stand between two of its positions. -/
def Between (text : List Char) (p q : Position) (part : List Char) : Prop :=
  ∃ before after, before ++ part ++ after = text ∧ p = behind before ∧ q = behind (before ++ part)

theorem Between.left {part : List Char} (h : Between text p q part) : p.IsBoundary text := by
  obtain ⟨before, after, htext, hp, -⟩ := h
  exact ⟨before, part ++ after, by rw [← List.append_assoc, htext], hp⟩

theorem Between.right {part : List Char} (h : Between text p q part) : q.IsBoundary text := by
  obtain ⟨before, after, htext, -, hq⟩ := h
  exact ⟨before ++ part, after, htext, hq⟩

theorem Between.compare_eq_lt {part : List Char} (h : Between text p q part) (hpart : part ≠ []) :
    compare p q = .lt := by
  obtain ⟨before, after, -, rfl, rfl⟩ := h
  exact compare_behind_append before hpart

theorem Between.compare_ne_gt {part : List Char} (h : Between text p q part) :
    compare p q ≠ .gt := by
  by_cases hpart : part = []
  · obtain ⟨before, after, -, rfl, rfl⟩ := h
    rw [hpart, List.append_nil, compare_self]
    decide
  · rw [h.compare_eq_lt hpart]
    decide

end Position

namespace View

variable {v w : View}

/-- One call in front of a text: it skips the gap and takes the lexeme for the result it gives. -/
structure Step (v : View) (gap lexeme : List Char) (result : Except LexError (Option Placed))
    (w : View) : Prop where
  text : gap ++ (lexeme ++ w.tape.text) = v.tape.text
  stop : w.tape.stop = none
  skips : v.Skips gap
  skipMark : w.skipMark = v.skipMark
  tokenStart : w.tokenStart = v.position.pastAll gap
  position : w.position = w.tokenStart.pastAll lexeme
  placed : ∀ placed, result = .ok (some placed) →
    placed.start = w.tokenStart ∧ Denotes lexeme placed.token
  error : ∀ error, result = .error error → ∃ before, before <+: lexeme ++ w.tape.text ∧
    error.position = w.tokenStart.pastAll before

/-- The lexeme is what the reading takes. -/
theorem step_of_text {gap rest : List Char} {c : Char} (hstop : v.tape.stop = none)
    (htext : gap ++ c :: rest = v.tape.text) (hskips : v.Skips gap)
    (hrests : v.Rests gap (c :: rest)) :
    v.Step gap (Reading.token v.limit c rest).taken v.next.1 v.next.2 := by
  have hcovers : (Reading.token v.limit c rest).Covers [] (c :: rest) :=
    Reading.Covers.token v.limit c
  have hdenotes := fun token => @Reading.token_recognizes v.limit c rest token
  rw [next_of_text hstop htext hskips hrests]
  generalize Reading.token v.limit c rest = reading at hcovers hdenotes ⊢
  obtain ⟨result, taken, rest⟩ := reading
  refine ⟨?_, rfl, hskips, rfl, rfl, Position.pastAll_append _ _ _, ?_, ?_⟩
  · exact htext ▸ congrArg (gap ++ ·) hcovers.split
  · intro placed hplaced
    cases result with
    | error fault => cases hplaced
    | ok token =>
      cases hplaced
      exact ⟨rfl, (hdenotes token rfl).denotes⟩
  · intro error herror
    cases result with
    | error fault =>
      cases herror
      exact ⟨fault.before, hcovers.split ▸ hcovers.fault fault rfl, rfl⟩
    | ok token => cases herror

theorem exists_step (h : v.tape.stop = none) :
    ∃ gap lexeme, v.Step gap lexeme v.next.1 v.next.2 := by
  obtain ⟨gap, left, htext, hskips, hrests⟩ := v.exists_gap
  cases left with
  | nil =>
    obtain rfl : gap = v.tape.text := by rw [← htext, List.append_nil]
    rw [next_of_gap h hskips]
    exact ⟨_, [], htext, rfl, hskips, rfl, rfl, rfl, nofun, nofun⟩
  | cons c rest => exact ⟨gap, _, step_of_text h htext hskips hrests⟩

/-- The positions of a call in front of a text, counted from the start of the text. -/
theorem Step.places {text before gap lexeme : List Char}
    {result : Except LexError (Option Placed)} (h : v.Step gap lexeme result w)
    (hroom : text.length < Position.maxCount) (htext : before ++ v.tape.text = text)
    (hposition : v.position = .behind before) :
    before ++ gap ++ lexeme ++ w.tape.text = text ∧ w.tokenStart = .behind (before ++ gap) ∧
      w.position = .behind (before ++ gap ++ lexeme) ∧
      ∀ error, result = .error error → error.position.IsBoundary text := by
  have hlexeme : before ++ gap ++ (lexeme ++ w.tape.text) = text := by
    rw [List.append_assoc, h.text, htext]
  have hsplit : before ++ gap ++ lexeme ++ w.tape.text = text := by
    rw [List.append_assoc, hlexeme]
  have hstart : w.tokenStart = .behind (before ++ gap) := by
    rw [h.tokenStart, hposition, Position.behind_pastAll hroom hlexeme]
  refine ⟨hsplit, hstart, ?_, ?_⟩
  · rw [h.position, hstart, Position.behind_pastAll hroom hsplit]
  · intro error herror
    obtain ⟨part, ⟨after, hafter⟩, hplace⟩ := h.error error herror
    have hpart : before ++ gap ++ part ++ after = text := by
      rw [List.append_assoc, hafter, hlexeme]
    refine ⟨before ++ gap ++ part, after, hpart, ?_⟩
    rw [hplace, hstart, Position.behind_pastAll hroom hpart]

end View

namespace Lexer

variable {skipMark : Bool} {text : List Char} {lexer : Lexer}

/-- Behind some of the text, with the rest in front, and all positions counted exactly. -/
structure Exact (skipMark : Bool) (text : List Char) (lexer : Lexer) : Prop where
  ready : lexer.Ready
  stop : lexer.view.tape.stop = none
  skipMark : lexer.config.skipMark = skipMark
  position : ∃ before, before ++ lexer.view.tape.text = text ∧ lexer.position = .behind before
  first : lexer.phase = .fresh → lexer.position = .start
  tokenStart : lexer.tokenStart.IsBoundary text

/-- What a call may skip: blanks, and at the start of the text a mark before them. -/
def Skips (skipMark : Bool) (lexer : Lexer) (gap : List Char) : Prop :=
  IsGap gap ∨ skipMark = true ∧ lexer.phase = .fresh ∧ lexer.position = .start ∧
    ∃ blanks, gap = byteOrderMark :: blanks ∧ IsGap blanks

/-- What a call tells of positions, where it skips the gap and takes the lexeme. -/
structure Advances (skipMark : Bool) (text : List Char) (lexer : Lexer) (gap lexeme : List Char) :
    Prop where
  exact : lexer.nextPlaced.lexer.Exact skipMark text
  skips : Skips skipMark lexer gap
  start : Position.Between text lexer.position lexer.nextPlaced.lexer.tokenStart gap
  stop : Position.Between text lexer.nextPlaced.lexer.tokenStart lexer.nextPlaced.lexer.position
    lexeme
  placed : ∀ placed, lexer.nextPlaced.result = .ok (some placed) →
    placed.start = lexer.nextPlaced.lexer.tokenStart ∧ Denotes lexeme placed.token
  error : ∀ error, lexer.nextPlaced.result = .error error → error.position.IsBoundary text

theorem Exact.advances (h : lexer.Exact skipMark text)
    (hroom : text.length < Position.maxCount) :
    ∃ gap lexeme, lexer.Advances skipMark text gap lexeme := by
  obtain ⟨before, htext, hbefore⟩ := h.position
  obtain ⟨gap, lexeme, hstep⟩ := View.exists_step h.stop
  rw [← result_nextPlaced h.ready, ← view_nextPlaced h.ready] at hstep
  obtain ⟨hsplit, hstart, hposition, herror⟩ := hstep.places hroom htext hbefore
  have hlexeme : before ++ gap ++ (lexeme ++ lexer.nextPlaced.lexer.view.tape.text) = text := by
    rw [← List.append_assoc, hsplit]
  refine ⟨gap, lexeme, ?_, ?_, ?_, ?_, hstep.placed, herror⟩
  · refine ⟨ready_nextPlaced h.ready, hstep.stop, hstep.skipMark.trans h.skipMark, ?_, ?_, ?_⟩
    · exact ⟨before ++ gap ++ lexeme, hsplit, hposition⟩
    · intro hfresh
      cases hfresh.symm.trans (started_nextPlaced h.ready)
    · exact ⟨before ++ gap, _, hlexeme, hstart⟩
  · rcases hstep.skips with hblanks | ⟨hmark, hfresh, hgap⟩
    · exact .inl hblanks
    · exact .inr ⟨h.skipMark.symm.trans hmark, hfresh, h.first hfresh, hgap⟩
  · exact ⟨before, _, hlexeme, hbefore, hstart⟩
  · exact ⟨before ++ gap, _, hsplit, hstart, hposition⟩

theorem invariant_exact (hroom : text.length < Position.maxCount) :
    Invariant (Exact skipMark text) where
  call h := by
    obtain ⟨gap, lexeme, hadvances⟩ := h.advances hroom
    exact hadvances.exact
  fail h := by
    obtain ⟨gap, lexeme, hadvances⟩ := h.advances hroom
    exact { hadvances.exact with }

/-! ## Answers -/

/-- Where a call says that something stands. -/
def placesOf : Except LexError (Option Placed) → List Position
  | .ok found => found.toList.map Placed.start
  | .error error => [error.position]

def Item.positions (item : Item) : List Position :=
  item.stop :: placesOf (item.outcome.map some)

def Answer.positions : Answer → List Position
  | token (.error error) | item (some (.error error)) => [error.position]
  | placed result => placesOf result
  | items list => list.flatMap Item.positions
  | _ => []

def Answer.isToken : Answer → Bool
  | token (.ok (some _)) | placed (.ok (some _)) | item (some (.ok _)) => true
  | _ => false

/-- All positions that are reported: at first, and then with and behind the answers. -/
def positions (lexer : Lexer) (requests : List Request) : List Position :=
  lexer.position :: lexer.tokenStart :: (lexer.session requests).flatMap fun call =>
    call.lexer.position :: call.lexer.tokenStart :: call.result.positions

theorem Advances.places {gap lexeme : List Char} (h : lexer.Advances skipMark text gap lexeme) :
    ∀ p ∈ placesOf lexer.nextPlaced.result, p.IsBoundary text := by
  intro p hp
  cases hresult : lexer.nextPlaced.result with
  | error error =>
    rw [hresult] at hp
    rw [List.mem_singleton.mp hp]
    exact h.error error hresult
  | ok found =>
    rw [hresult] at hp
    cases found with
    | none => cases hp
    | some placed =>
      rw [List.mem_singleton.mp hp, (h.placed placed hresult).1]
      exact h.start.right

theorem positions_token (result : Except LexError (Option Placed)) :
    (Answer.token (result.map (·.map Placed.token))).positions ⊆ placesOf result := by
  cases result with
  | error error => exact List.Subset.refl _
  | ok found => exact List.nil_subset _

theorem positions_item (lexer : Lexer) :
    (Answer.item lexer.next.result).positions ⊆ placesOf lexer.nextPlaced.result := by
  cases hresult : lexer.next.result with
  | none => exact List.nil_subset _
  | some result =>
    cases result with
    | ok token => exact List.nil_subset _
    | error error =>
      rw [error_of_next hresult]
      exact List.Subset.refl _

theorem Exact.scan (h : lexer.Exact skipMark text) (hroom : text.length < Position.maxCount) :
    ∀ item ∈ lexer.scan.result, ∀ p ∈ item.positions, p.IsBoundary text := by
  induction lexer using scan_induction with
  | ended lexer hend =>
    rw [scan_of_end hend]
    intro item hitem
    cases hitem
  | item lexer outcome hresult ih =>
    obtain ⟨gap, lexeme, hadvances⟩ := h.advances hroom
    rw [scan_of_item hresult]
    intro item hitem p hp
    rcases List.mem_cons.mp hitem with rfl | hlater
    · rcases List.mem_cons.mp hp with rfl | hplace
      · exact hadvances.stop.right
      · exact hadvances.places p (hresult ▸ hplace)
    · exact ih hadvances.exact item hlater p hp

theorem Exact.answer (h : lexer.Exact skipMark text) (hroom : text.length < Position.maxCount)
    (request : Request) : ∀ p ∈ (lexer.answer request).result.positions, p.IsBoundary text := by
  obtain ⟨gap, lexeme, hadvances⟩ := h.advances hroom
  intro p hp
  cases request with
  | nextToken => exact hadvances.places p (positions_token _ hp)
  | nextPlaced => exact hadvances.places p hp
  | next => exact hadvances.places p (positions_item lexer hp)
  | scan =>
    obtain ⟨item, hitem, hmem⟩ := List.mem_flatMap.mp hp
    exact h.scan hroom item hitem p hmem
  | count | config | inspect => cases hp

theorem Exact.place (h : lexer.Exact skipMark text) : lexer.position.IsBoundary text := by
  obtain ⟨before, htext, hposition⟩ := h.position
  exact ⟨before, _, htext, hposition⟩

theorem Exact.positions (h : lexer.Exact skipMark text)
    (hroom : text.length < Position.maxCount) (requests : List Request) :
    ∀ p ∈ lexer.positions requests, p.IsBoundary text := by
  induction requests generalizing lexer with
  | nil =>
    intro p hp
    rcases List.mem_pair.mp hp with rfl | rfl
    · exact h.place
    · exact h.tokenStart
  | cons request rest ih =>
    have hanswer := h.answer hroom request
    have hnext : (lexer.answer request).lexer.Exact skipMark text :=
      (invariant_exact hroom).answer h request
    intro p hp
    simp only [Lexer.positions, Lexer.session, List.flatMap_cons, List.mem_cons, List.mem_append]
      at hp ih
    rcases hp with rfl | rfl | (hplace | hplace | hplace) | hlater
    · exact h.place
    · exact h.tokenStart
    · exact hplace ▸ hnext.place
    · exact hplace ▸ hnext.tokenStart
    · exact hanswer p hplace
    · exact ih hnext p (.inr (.inr hlater))

theorem isToken_token (result : Except LexError (Option Placed)) :
    (Answer.token (result.map (·.map Placed.token))).isToken = (Answer.placed result).isToken := by
  cases result with
  | error error => rfl
  | ok found => cases found <;> rfl

theorem placed_of_result {result : Except LexError (Option Placed)}
    (h : (Answer.placed result).isToken = true) : ∃ placed, result = .ok (some placed) := by
  cases result with
  | error error => cases h
  | ok found =>
    cases found with
    | none => cases h
    | some placed => exact ⟨placed, rfl⟩

/-- A request that is answered with a token makes one call. -/
theorem placed_of_isToken {request : Request}
    (h : (lexer.answer request).result.isToken = true) :
    ∃ placed, lexer.nextPlaced.result = .ok (some placed) ∧
      (lexer.answer request).lexer = lexer.nextPlaced.lexer ∧
      ∀ found, (lexer.answer request).result = .placed (.ok (some found)) → found = placed := by
  cases request with
  | nextToken =>
    obtain ⟨placed, hresult⟩ := placed_of_result ((isToken_token _).symm.trans h)
    refine ⟨placed, hresult, rfl, ?_⟩
    intro found hfound
    cases hfound
  | nextPlaced =>
    obtain ⟨placed, hresult⟩ := placed_of_result h
    refine ⟨placed, hresult, rfl, ?_⟩
    intro found hfound
    have hsame : lexer.nextPlaced.result = .ok (some found) := Answer.placed.inj hfound
    rw [hresult] at hsame
    cases hsame
    rfl
  | next =>
    rw [Lexer.answer, Call.map] at h ⊢
    cases hresult : lexer.next.result with
    | none =>
      rw [hresult] at h
      cases h
    | some result =>
      rw [hresult] at h
      cases result with
      | error error => cases h
      | ok token =>
        obtain ⟨placed, hplaced, hlexer⟩ := placed_of_next hresult
        refine ⟨placed, hplaced, hlexer, ?_⟩
        intro found hfound
        cases hfound
  | count | scan | config | inspect => cases h

theorem tape_of_delivers {reader : Reader} (h : reader.Delivers (Utf8.encode text))
    (config : Config) : (new reader config).view.tape = ⟨text, none⟩ :=
  h.tape_eq .start config.bufferCapacity

theorem exact_new {reader : Reader} (h : reader.Delivers (Utf8.encode text)) (config : Config) :
    (new reader config).Exact config.skipMark text := by
  have htape := tape_of_delivers h config
  constructor
  · exact ready_new reader config
  · rw [htape]
  · rfl
  · exact ⟨[], congrArg Tape.text htape, rfl⟩
  · intro _
    rfl
  · exact ⟨[], text, rfl, rfl⟩

/-- A call that gives a token skips the gap in front of it and goes past its lexeme. -/
structure Spans (skipMark : Bool) (text : List Char) (former : Lexer) (call : Call Answer)
    (gap lexeme : List Char) : Prop where
  skips : Skips skipMark former gap
  start : Position.Between text former.position call.lexer.tokenStart gap
  taken : lexeme ≠ []
  stop : Position.Between text call.lexer.tokenStart call.lexer.position lexeme
  placed : ∀ placed, call.result = .placed (.ok (some placed)) →
    placed.start = call.lexer.tokenStart
  before : compare former.position call.lexer.tokenStart ≠ .gt
  after : compare call.lexer.tokenStart call.lexer.position = .lt

/-- Every position that is reported on a text stands between characters of the text and counts its
lines, the columns of its line and its bytes, so that positions are in the order of their offsets.
The token of a call starts behind what the call skips, and the call goes past it. -/
theorem positions_exact {reader : Reader} {text : List Char}
    (h : reader.Delivers (Utf8.encode text)) (hroom : text.length < Position.maxCount)
    (config : Config) (requests : List Request) :
    let lexer := new reader config
    (∀ p ∈ lexer.positions requests, p.IsBoundary text) ∧
      (∀ p ∈ lexer.positions requests, ∀ q ∈ lexer.positions requests,
        compare p q = compare p.offset q.offset) ∧
      ∀ request,
        let former := lexer.after requests
        let call := former.answer request
        call.result.isToken = true →
          ∃ gap lexeme, Spans config.skipMark text former call gap lexeme := by
  intro lexer
  have hexact : lexer.Exact config.skipMark text := exact_new h config
  have hpositions := hexact.positions hroom requests
  refine ⟨hpositions, ?_, ?_⟩
  · intro p hp q hq
    exact (hpositions p hp).compare_eq (hpositions q hq)
  · intro request former call htoken
    obtain ⟨gap, lexeme, hadvances⟩ :=
      ((invariant_exact hroom).after hexact requests).advances hroom
    obtain ⟨placed, hresult, hlexer, hfound⟩ := placed_of_isToken htoken
    obtain ⟨hstart, hdenotes⟩ := hadvances.placed placed hresult
    obtain ⟨c, tail, hlexeme, -⟩ := hdenotes.opens
    have hmore : lexeme ≠ [] := by simp [hlexeme]
    have hcall : call.lexer = former.nextPlaced.lexer := hlexer
    refine ⟨gap, lexeme, hadvances.skips, ?_, hmore, ?_, ?_, ?_, ?_⟩ <;> rw [hcall]
    · exact hadvances.start
    · exact hadvances.stop
    · intro found hanswer
      rw [hfound found hanswer, hstart]
    · exact hadvances.start.compare_ne_gt
    · exact hadvances.stop.compare_eq_lt hmore

/-- Behind a mark that is skipped and a line that is empty, a string with a line feed in it. -/
theorem positions_exact_marked :
    let text := "\ufeff\r\nx = \"é\n\" y".toList
    let lexer := new (.ofBytes (Utf8.encode text)) {}
    let former := lexer.after [.nextPlaced, .nextToken]
    let call := former.answer .next
    (Reader.ofBytes (Utf8.encode text)).Delivers (Utf8.encode text) ∧
      text.length < Position.maxCount ∧ call.result.isToken = true ∧
      former.position = ⟨2, 4, 8⟩ ∧ call.lexer.tokenStart = ⟨2, 5, 9⟩ ∧
      call.lexer.position = ⟨3, 2, 14⟩ ∧
      (∀ p ∈ lexer.positions [.nextPlaced, .nextToken], p.IsBoundary text) ∧
      ∃ gap lexeme, Spans true text former call gap lexeme := by
  intro text lexer former call
  have hdelivers := Reader.delivers_ofBytes (Utf8.encode text)
  have hroom : text.length < Position.maxCount := by decide
  have htoken : call.result.isToken = true := by decide +kernel
  have hformer : former.position = ⟨2, 4, 8⟩ := by decide +kernel
  have hstart : call.lexer.tokenStart = ⟨2, 5, 9⟩ := by decide +kernel
  have hstop : call.lexer.position = ⟨3, 2, 14⟩ := by decide +kernel
  obtain ⟨hboundary, -, hspans⟩ :=
    positions_exact hdelivers hroom {} [.nextPlaced, .nextToken]
  exact ⟨hdelivers, hroom, htoken, hformer, hstart, hstop, hboundary, hspans .next htoken⟩

end Lexer

end StreamLexer
