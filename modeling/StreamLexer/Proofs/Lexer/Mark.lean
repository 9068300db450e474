import StreamLexer.Proofs.Lexer.Resumption
import StreamLexer.Proofs.Lexer.Transcript

/-! # A mark at the start of a text

A mark that is skipped takes the start of the text three bytes and one column to the right, and
behind it a lexer goes on as one in front of the text alone. Only there does it matter whether a
mark is to be skipped: two views that differ in nothing else take the same calls, unless the text in
front of them is unread and starts with a mark.
-/

set_option autoImplicit false

namespace StreamLexer

open Grammar Lexer

namespace Position

/-- Where a position of a text is found if a mark stands before the text. -/
def behindMark (p : Position) : Position where
  line := p.line
  column := if p.line = 1 then p.column + 1 else p.column
  offset := p.offset + 3

theorem IsBoundary.counted {text : List Char} {p : Position} (h : p.IsBoundary text) :
    p.Counted := by
  obtain ⟨before, after, -, rfl⟩ := h
  constructor
  · exact Nat.le_add_right 1 _
  · exact Nat.le_add_right 1 _

theorem Counted.behindMark_eq {p : Position} (h : p.Counted) :
    p.behindMark = translate ⟨1, 2, 3⟩ p := by
  obtain ⟨hline, hcolumn⟩ := h
  simp only [behindMark, translate, mk.injEq]
  refine ⟨?_, ?_, ?_⟩
  · omega
  · split <;> omega
  · omega

end Position

namespace View

variable {v w : View}

/-! ## Whether a mark is skipped -/

def withMark (v : View) (skipMark : Bool) : View := { v with skipMark }

/-- No mark is in front that could be skipped. -/
def Unmarked (v : View) : Prop :=
  v.phase = .fresh → v.tape.text.head? ≠ some byteOrderMark

theorem Skips.blank {gap left : List Char} (h : v.Skips gap) (hfree : v.Unmarked)
    (htext : gap ++ left = v.tape.text) : IsGap gap := by
  rcases h with hgap | ⟨-, hfresh, blanks, rfl, -⟩
  · exact hgap
  · exact absurd (congrArg List.head? htext).symm (hfree hfresh)

/-- A call that meets no mark does not depend on whether one is to be skipped. -/
theorem next_withMark (hstop : v.tape.stop = none) (hfree : v.Unmarked) (skipMark : Bool) :
    (v.withMark skipMark).next = (v.next.1, v.next.2.withMark skipMark) ∧
      v.next.2.phase = .started ∧ v.next.2.tape.stop = none := by
  obtain ⟨gap, left, htext, hskips, hrests⟩ := v.exists_gap
  have hgap := hskips.blank hfree htext
  have hskips' : (v.withMark skipMark).Skips gap := .inl hgap
  have hrests' : (v.withMark skipMark).Rests gap left := by
    refine ⟨hrests.blank, fun hnil _ hfresh => ?_⟩
    rw [hnil, List.nil_append] at htext
    exact htext ▸ hfree hfresh
  cases left with
  | nil =>
    rw [List.append_nil] at htext
    subst htext
    rw [next_of_gap hstop hskips, @next_of_gap (v.withMark skipMark) hstop hskips']
    exact ⟨rfl, rfl, rfl⟩
  | cons c rest =>
    rw [next_of_text hstop htext hskips hrests,
      @next_of_text (v.withMark skipMark) _ _ _ hstop htext hskips' hrests']
    exact ⟨rfl, rfl, rfl⟩

/-- Views in front of the same text, which no mark starts, that differ in whether one is skipped. -/
structure Regardless (v w : View) : Prop where
  same : w = v.withMark w.skipMark
  stop : v.tape.stop = none
  free : v.Unmarked

theorem Regardless.next (h : Regardless v w) :
    w.next.1 = v.next.1 ∧ Regardless v.next.2 w.next.2 := by
  obtain ⟨hnext, hstarted, hstop⟩ := next_withMark h.stop h.free w.skipMark
  rw [← h.same] at hnext
  rw [hnext]
  refine ⟨rfl, rfl, hstop, fun hfresh => ?_⟩
  cases hfresh.symm.trans hstarted

theorem simulation_regardless : View.Simulation id Regardless where
  failed h := (congrArg View.failed h.same).trans rfl
  position h := (congrArg View.position h.same).trans rfl
  fail h := ⟨congrArg (fun v : View => { v with failed := true }) h.same, h.stop, h.free⟩
  next h := h.next.2
  result h := h.next.1.trans (relocateResult_id Placed.map_relocate_id _).symm

end View

namespace Lexer

variable {text : List Char}

theorem Item.relocate_congr {f g : Position → Position} {item : Item}
    (h : ∀ p ∈ item.positions, f p = g p) : item.relocate f = item.relocate g := by
  obtain ⟨outcome, stop⟩ := item
  have hstop : f stop = g stop := h stop List.mem_cons_self
  cases outcome with
  | error error =>
    have herror : f error.position = g error.position := h _ (.tail _ List.mem_cons_self)
    simp only [Item.relocate, relocateResult, LexError.relocate, hstop, herror]
  | ok placed =>
    have hstart : f placed.start = g placed.start := h _ (.tail _ List.mem_cons_self)
    simp only [Item.relocate, relocateResult, Placed.relocate, hstop, hstart]

/-- Behind the mark a lexer that skips it is in front of the same text as one without it. -/
theorem resumes_behind_mark (marked : Reader) {plain : Reader} {a b : Config}
    (hplain : plain.Delivers (Utf8.encode text)) (hkept : b.skipMark = false)
    (hlimit : a.maxLiteralLength = b.maxLiteralLength)
    (hroom : text.length + 1 < Position.maxCount) :
    View.Resumes ⟨1, 2, 3⟩ (new plain b).view
      ((new marked a).view.movedTo [byteOrderMark] text) where
  limit := hlimit
  failed := rfl
  unmarked := hkept
  started := rfl
  tape := (tape_of_delivers hplain b).symm
  stop := congrArg Tape.stop (tape_of_delivers hplain b)
  base := ⟨Nat.le_refl 1, Nat.le_succ 1⟩
  counted := Position.counted_start
  position := rfl
  room := by
    rw [tape_of_delivers hplain]
    have hspace : Position.Room .start (text.length + 1) :=
      @Position.room_start (byteOrderMark :: text) hroom
    exact hspace.past byteOrderMark

theorem scan_behind_mark {marked plain : Reader} {a b : Config}
    (hmarked : marked.Delivers (Utf8.encode (byteOrderMark :: text)))
    (hplain : plain.Delivers (Utf8.encode text)) (hskip : a.skipMark = true)
    (hkept : b.skipMark = false) (hlimit : a.maxLiteralLength = b.maxLiteralLength)
    (hroom : text.length + 1 < Position.maxCount) :
    (new marked a).scan.result = (new plain b).scan.result.map (Item.relocate .behindMark) ∧
      (new marked a).scan.lexer.position = (new plain b).scan.lexer.position.behindMark := by
  have htape := tape_of_delivers hmarked a
  have hresumes := resumes_behind_mark marked hplain hkept hlimit hroom
  have hnext : (new marked a).view.next =
      ((new marked a).view.movedTo [byteOrderMark] text).next :=
    View.next_of_skipped (congrArg Tape.stop htape) (congrArg Tape.text htape).symm
      (.inr ⟨hskip, rfl, [], rfl, isGap_nil⟩) nofun
  obtain ⟨hitems, hlast⟩ :=
    scan_of_view (View.simulation_resumes _) (ready_new plain b) (ready_new marked a) hresumes hnext
  have hshort : text.length < Position.maxCount := by omega
  have hexact := exact_new hplain b
  have hplaces := hexact.scan hshort
  constructor
  · rw [hitems]
    apply List.map_congr_left
    intro item hitem
    apply Item.relocate_congr
    intro p hp
    exact (hplaces item hitem p hp).counted.behindMark_eq.symm
  · have hend := ((invariant_exact hshort).scan hexact).place
    rw [hend.counted.behindMark_eq]
    exact hlast.views.position

theorem related_regardless {first second : Reader} {a b : Config}
    (hfirst : first.Delivers (Utf8.encode text)) (hsecond : second.Delivers (Utf8.encode text))
    (hlimit : a.maxLiteralLength = b.maxLiteralLength) (hfree : text.head? ≠ some byteOrderMark) :
    Related View.Regardless (new first a) (new second b) where
  left := ready_new first a
  right := ready_new second b
  views := by
    have htape := tape_of_delivers hfirst a
    refine ⟨?_, congrArg Tape.stop htape, fun _ => ?_⟩
    · have hview : (new second b).view =
          { (new first a).view with
            limit := b.maxLiteralLength
            skipMark := b.skipMark
            tape := (new second b).view.tape } := rfl
      rw [hview, tape_of_delivers hsecond, ← htape, ← hlimit]
      rfl
    · rw [htape]
      exact hfree

/-- One mark that is skipped moves the positions of a text behind it and does nothing else. A text
that no mark starts is read in the same way whether a mark is to be skipped or not. -/
theorem mark_transparent (text : List Char) (a b : Config)
    (hlimit : a.maxLiteralLength = b.maxLiteralLength) :
    (∀ marked plain : Reader, marked.Delivers (Utf8.encode (byteOrderMark :: text)) →
      plain.Delivers (Utf8.encode text) → a.skipMark = true → b.skipMark = false →
      text.length + 1 < Position.maxCount →
      (new marked a).scan.result = (new plain b).scan.result.map (Item.relocate .behindMark) ∧
        (new marked a).scan.lexer.position = (new plain b).scan.lexer.position.behindMark) ∧
      (text.head? ≠ some byteOrderMark → ∀ first second : Reader,
        first.Delivers (Utf8.encode text) → second.Delivers (Utf8.encode text) →
        ∀ requests, .config ∉ requests →
          ((new first a).session requests).map observed =
            ((new second b).session requests).map observed) := by
  constructor
  · intro marked plain hmarked hplain hskip hkept hroom
    exact scan_behind_mark hmarked hplain hskip hkept hlimit hroom
  · intro hfree first second hfirst hsecond requests hrequests
    have hrelated := related_regardless hfirst hsecond hlimit hfree
    refine hrelated.observed_of View.simulation_regardless (fun h => ?_) hrequests
    rw [h.same]
    exact ⟨rfl, rfl⟩

/-- The second of two marks is an item, and the last two items start or end in the second line. -/
theorem mark_transparent_twice :
    let rest := "x \"é\n\" y".toList
    let text := byteOrderMark :: rest
    let marked := Reader.ofBytes (Utf8.encode (byteOrderMark :: text))
    let plain := Reader.ofBytes (Utf8.encode text)
    let free := Reader.ofBytes (Utf8.encode rest)
    let skipping : Config := {}
    let keeping : Config := { bufferCapacity := 1, skipMark := false }
    marked.Delivers (Utf8.encode (byteOrderMark :: text)) ∧ plain.Delivers (Utf8.encode text) ∧
      text.length + 1 < Position.maxCount ∧
      (new plain keeping).scan.result.map Item.stop =
        [⟨1, 2, 3⟩, ⟨1, 3, 4⟩, ⟨2, 2, 10⟩, ⟨2, 4, 12⟩] ∧
      (new marked skipping).scan.result =
        (new plain keeping).scan.result.map (Item.relocate .behindMark) ∧
      free.Delivers (Utf8.encode rest) ∧ rest.head? ≠ some byteOrderMark ∧
      ((new free skipping).session [.next, .scan]).map observed =
        ((new free keeping).session [.next, .scan]).map observed := by
  intro rest text marked plain free skipping keeping
  have hmarked := Reader.delivers_ofBytes (Utf8.encode (byteOrderMark :: text))
  have hplain := Reader.delivers_ofBytes (Utf8.encode text)
  have hfree := Reader.delivers_ofBytes (Utf8.encode rest)
  have hroom : text.length + 1 < Position.maxCount := by decide
  have hhead : rest.head? ≠ some byteOrderMark := by decide
  have hitems := ((mark_transparent text skipping keeping rfl).1 marked plain hmarked hplain rfl rfl
    hroom).1
  have hseen := (mark_transparent rest skipping keeping rfl).2 hhead free free hfree hfree
    [.next, .scan] (by decide)
  exact ⟨hmarked, hplain, hroom, by decide +kernel, hitems, hfree, hhead, hseen⟩

end Lexer

end StreamLexer
