import Mathlib.Data.List.Forall2
import StreamLexer.Proofs.Lexer.Runs
import StreamLexer.Proofs.Lexer.View

/-! # Lexers that answer alike

Two lexers answer alike up to a change of positions when one call is enough to keep them so: a
simulation relates their views, and a call gives the same result with every position changed. Then
all requests of a session are answered alike, however calls of different kinds are mixed.
-/

set_option autoImplicit false

namespace StreamLexer

variable {α β : Type} (f : Position → Position)

def LexError.relocate (error : LexError) : LexError :=
  { error with position := f error.position }

def Placed.relocate (placed : Placed) : Placed :=
  { placed with start := f placed.start }

/-- A result with its error relocated and its value changed by `g`. -/
def relocateResult (g : α → β) : Except LexError α → Except LexError β
  | .ok a => .ok (g a)
  | .error error => .error (error.relocate f)

namespace Lexer

def Item.relocate (item : Item) : Item :=
  ⟨relocateResult f (Placed.relocate f) item.outcome, f item.stop⟩

def Answer.relocate : Answer → Answer
  | token result => token (relocateResult f id result)
  | placed result => placed (relocateResult f (·.map (Placed.relocate f)) result)
  | item result => item (result.map (relocateResult f id))
  | items list => items (list.map (Item.relocate f))
  | count n => count n
  | config c => config c
  | nothing => nothing

end Lexer

/-- Views that a call keeps related, with results that differ by `f` in their positions. -/
structure View.Simulation (V : View → View → Prop) : Prop where
  failed : ∀ {v w : View}, V v w → w.failed = v.failed
  position : ∀ {v w : View}, V v w → w.position = f v.position
  fail : ∀ {v w : View}, V v w → V { v with failed := true } { w with failed := true }
  next : ∀ {v w : View}, V v w → V v.next.2 w.next.2
  result : ∀ {v w : View}, V v w →
    w.next.1 = relocateResult f (·.map (Placed.relocate f)) v.next.1

namespace Lexer

/-- Both lexers have an empty lookahead as long as they have read nothing, and `V` relates what
is to be seen of them. -/
structure Related (V : View → View → Prop) (l m : Lexer) : Prop where
  left : l.Ready
  right : m.Ready
  views : V l.view m.view

variable {f} {V : View → View → Prop} {l m : Lexer}

theorem Related.nextPlaced (hV : View.Simulation f V) (h : Related V l m) :
    m.nextPlaced.result = relocateResult f (·.map (Placed.relocate f)) l.nextPlaced.result ∧
      Related V l.nextPlaced.lexer m.nextPlaced.lexer := by
  refine ⟨?_, ready_nextPlaced h.left, ready_nextPlaced h.right, ?_⟩
  · rw [result_nextPlaced h.left, result_nextPlaced h.right]
    exact hV.result h.views
  · rw [view_nextPlaced h.left, view_nextPlaced h.right]
    exact hV.next h.views

theorem Related.nextToken (hV : View.Simulation f V) (h : Related V l m) :
    m.nextToken.result = relocateResult f id l.nextToken.result ∧
      Related V l.nextToken.lexer m.nextToken.lexer := by
  obtain ⟨hresult, hlexer⟩ := h.nextPlaced hV
  refine ⟨?_, hlexer⟩
  simp only [Lexer.nextToken, Call.map, hresult]
  cases l.nextPlaced.result with
  | error error => rfl
  | ok placed => cases placed <;> rfl

theorem Related.fail (hV : View.Simulation f V) (h : Related V l m) :
    Related V { l with failed := true } { m with failed := true } :=
  ⟨h.left, h.right, hV.fail h.views⟩

theorem Related.next (hV : View.Simulation f V) (h : Related V l m) :
    m.next.result = l.next.result.map (relocateResult f id) ∧
      Related V l.next.lexer m.next.lexer := by
  have hfailed : m.failed = l.failed := hV.failed h.views
  obtain ⟨hresult, hlexer⟩ := h.nextToken hV
  rw [Lexer.next, Lexer.next, hfailed]
  split
  · exact ⟨rfl, h⟩
  · generalize l.nextToken = c at hresult hlexer ⊢
    generalize m.nextToken = d at hresult hlexer ⊢
    obtain ⟨result, events, last⟩ := c
    obtain ⟨_, events', last'⟩ := d
    subst hresult
    rcases result with error | _ | token
    · exact ⟨rfl, hlexer.fail hV⟩
    · exact ⟨rfl, hlexer⟩
    · exact ⟨rfl, hlexer⟩

theorem Related.drain (hV : View.Simulation f V) (h : Related V l m) :
    m.drain.result = l.drain.result.map (relocateResult f id) ∧
      Related V l.drain.lexer m.drain.lexer := by
  induction l using drain_induction generalizing m with
  | ended l hnone =>
    obtain ⟨hresult, hnext⟩ := h.next hV
    rw [hnone] at hresult
    rw [drain_of_none hnone, drain_of_none hresult]
    exact ⟨rfl, hnext⟩
  | item l item hsome ih =>
    obtain ⟨hresult, hnext⟩ := h.next hV
    rw [hsome] at hresult
    rw [drain_of_some hsome, drain_of_some hresult]
    obtain ⟨hrest, hlast⟩ := ih hnext
    exact ⟨by rw [hrest]; rfl, hlast⟩

/-- Two scans that start with calls of the same result are alike if they go on alike. -/
theorem scan_of_calls (hV : View.Simulation f V)
    (hresult : m.nextPlaced.result =
      relocateResult f (·.map (Placed.relocate f)) l.nextPlaced.result)
    (hnext : Related V l.nextPlaced.lexer m.nextPlaced.lexer)
    (hlater : l.nextPlaced.result ≠ .ok none →
      m.nextPlaced.lexer.scan.result =
          l.nextPlaced.lexer.scan.result.map (Item.relocate f) ∧
        Related V l.nextPlaced.lexer.scan.lexer m.nextPlaced.lexer.scan.lexer) :
    m.scan.result = l.scan.result.map (Item.relocate f) ∧ Related V l.scan.lexer m.scan.lexer := by
  have hposition : m.nextPlaced.lexer.position = f l.nextPlaced.lexer.position :=
    hV.position hnext.views
  rcases end_or_item l with hend | ⟨outcome, hitem⟩
  · have hend' : m.nextPlaced.result = .ok none := by
      rw [hresult, hend]
      rfl
    rw [scan_of_end hend, scan_of_end hend']
    exact ⟨rfl, hnext⟩
  · have hitem' : m.nextPlaced.result =
        (relocateResult f (Placed.relocate f) outcome).map some := by
      rw [hresult, hitem]
      cases outcome <;> rfl
    obtain ⟨hrest, hlast⟩ := hlater (by rw [hitem]; cases outcome <;> simp [Except.map])
    rw [scan_of_item hitem, scan_of_item hitem']
    exact ⟨by rw [hrest, hposition]; rfl, hlast⟩

theorem Related.scan (hV : View.Simulation f V) (h : Related V l m) :
    m.scan.result = l.scan.result.map (Item.relocate f) ∧ Related V l.scan.lexer m.scan.lexer := by
  induction l using scan_induction generalizing m with
  | ended l hend =>
    obtain ⟨hresult, hnext⟩ := h.nextPlaced hV
    exact scan_of_calls hV hresult hnext fun hmore => absurd hend hmore
  | item l outcome hitem ih =>
    obtain ⟨hresult, hnext⟩ := h.nextPlaced hV
    exact scan_of_calls hV hresult hnext fun _ => ih hnext

/-- Of a lexer whose next call is that of a related view the whole scan is alike. -/
theorem scan_of_view (hV : View.Simulation f V) (hl : l.Ready) (hm : m.Ready) {w : View}
    (hview : V l.view w) (hnext : m.view.next = w.next) :
    m.scan.result = l.scan.result.map (Item.relocate f) ∧ Related V l.scan.lexer m.scan.lexer := by
  have hresult := hV.result hview
  have hlater := hV.next hview
  rw [← hnext, ← result_nextPlaced hm, ← result_nextPlaced hl] at hresult
  rw [← hnext, ← view_nextPlaced hm, ← view_nextPlaced hl] at hlater
  have hrelated : Related V l.nextPlaced.lexer m.nextPlaced.lexer :=
    ⟨ready_nextPlaced hl, ready_nextPlaced hm, hlater⟩
  exact scan_of_calls hV hresult hrelated fun _ => hrelated.scan hV

theorem Related.answer (hV : View.Simulation f V) (h : Related V l m) {request : Request}
    (hrequest : request ≠ .config) :
    (m.answer request).result = (l.answer request).result.relocate f ∧
      Related V (l.answer request).lexer (m.answer request).lexer := by
  cases request with
  | nextToken => exact ⟨congrArg Answer.token (h.nextToken hV).1, (h.nextToken hV).2⟩
  | nextPlaced => exact ⟨congrArg Answer.placed (h.nextPlaced hV).1, (h.nextPlaced hV).2⟩
  | next => exact ⟨congrArg Answer.item (h.next hV).1, (h.next hV).2⟩
  | count =>
    obtain ⟨hresult, hlast⟩ := h.drain hV
    refine ⟨congrArg Answer.count ?_, hlast⟩
    rw [hresult, List.length_map]
  | scan => exact ⟨congrArg Answer.items (h.scan hV).1, (h.scan hV).2⟩
  | config => exact absurd rfl hrequest
  | inspect => exact ⟨rfl, h⟩

/-- All requests of a session are answered alike, in states that stay related. -/
theorem Related.session (hV : View.Simulation f V) (h : Related V l m) {requests : List Request}
    (hrequests : .config ∉ requests) :
    List.Forall₂ (fun c d => d.result = c.result.relocate f ∧ Related V c.lexer d.lexer)
      (l.session requests) (m.session requests) := by
  induction requests generalizing l m with
  | nil => exact .nil
  | cons request rest ih =>
    obtain ⟨hne, hrest⟩ := List.ne_and_not_mem_of_not_mem_cons hrequests
    have hanswer := h.answer hV hne.symm
    exact .cons hanswer (ih hanswer.2 hrest)

theorem mapM_relocate (f : Position → Position) (items : List (Except LexError Token)) :
    (items.map (relocateResult f id)).mapM id = relocateResult f id (items.mapM id) := by
  induction items with
  | nil => rfl
  | cons item items ih =>
    rw [List.map_cons, List.mapM_cons, List.mapM_cons, ih]
    cases item with
    | error error => rfl
    | ok token => cases items.mapM id <;> rfl

theorem Related.tokenize (hV : View.Simulation f V) (h : Related V l m) :
    m.tokenize.result = relocateResult f id l.tokenize.result := by
  simp only [Lexer.tokenize, Call.map, (h.drain hV).1, mapM_relocate]

end Lexer

end StreamLexer
