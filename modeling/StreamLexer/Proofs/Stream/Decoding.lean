import StreamLexer.Proofs.Stream.Tape
import StreamLexer.Proofs.Text.WellFormed

/-! # What is read from the signals of a stream

The next character of a stream, or the reason why there is none, is a matter of its signals alone:
`Signal.Decodes` lists what can come first, and `Source.readChar_iff` says that a source does nothing
else. A cursor that goes on until its lookahead stays empty or a step fails therefore turns a byte
string into the longest text that it starts with (`Cursor.collect_of_delivers`).
-/

set_option autoImplicit false

namespace StreamLexer

namespace Signal

/-- Why a group that starts at `offset` ends before its next byte, if it does. -/
def gap (offset : Nat) : List Signal → Option ReadError
  | [] | .pause :: _ => some (.truncated offset)
  | .failure cause :: _ => some (.failed cause)
  | .byte _ :: _ => none

/-- One reading for a character at `offset`: what it gives in front of these signals, and the
signals that it leaves. -/
inductive Decodes (offset : Nat) :
    List Signal → Except ReadError (Option Char) → List Signal → Prop where
  | ended : Decodes offset [] (.ok none) []
  | paused (rest : List Signal) : Decodes offset (.pause :: rest) (.ok none) rest
  | failed (cause : Failure) (rest : List Signal) :
      Decodes offset (.failure cause :: rest) (.error (.failed cause)) rest
  | char (c : Char) (rest : List Signal) :
      Decodes offset ((String.utf8EncodeChar c).map .byte ++ rest) (.ok (some c)) rest
  | invalidLead {lead : UInt8} (hlead : Utf8.groupLength? lead = none) (rest : List Signal) :
      Decodes offset (.byte lead :: rest) (.error (.invalidLead lead offset)) rest
  | cut {lead : UInt8} {tail : List UInt8} {length : Nat} {stop : List Signal} {error : ReadError}
      (hlength : Utf8.groupLength? lead = some length) (hshort : tail.length + 1 < length)
      (hgap : gap offset stop = some error) :
      Decodes offset ((lead :: tail).map .byte ++ stop) (.error error) stop.tail
  | malformed {lead : UInt8} {tail : List UInt8} {sound : Nat}
      (hlength : Utf8.groupLength? lead = some (tail.length + 1))
      (hdecode : Utf8.decodeGroup lead tail = .error sound) (rest : List Signal) :
      Decodes offset ((lead :: tail).map .byte ++ rest) (.error (.malformed sound)) rest

variable {offset : Nat}

/-- Behind the lead of a group there are either all the bytes that are asked for or a gap. -/
theorem exists_bytes_or_gap (offset count : Nat) (signals : List Signal) :
    ∃ (tail : List UInt8) (stop : List Signal), signals = tail.map .byte ++ stop ∧
      (tail.length = count ∨ tail.length < count ∧ ∃ error, gap offset stop = some error) := by
  induction count generalizing signals with
  | zero => exact ⟨[], signals, rfl, .inl rfl⟩
  | succ count ih =>
    cases signals with
    | nil => exact ⟨[], [], rfl, .inr ⟨Nat.succ_pos _, _, rfl⟩⟩
    | cons signal rest =>
      cases signal with
      | failure cause => exact ⟨[], .failure cause :: rest, rfl, .inr ⟨Nat.succ_pos _, _, rfl⟩⟩
      | pause => exact ⟨[], .pause :: rest, rfl, .inr ⟨Nat.succ_pos _, _, rfl⟩⟩
      | byte value =>
        obtain ⟨tail, stop, rfl, hlength⟩ := ih rest
        refine ⟨value :: tail, stop, rfl, ?_⟩
        rw [List.length_cons]
        exact hlength.imp (congrArg (· + 1)) fun ⟨hlt, hgap⟩ => ⟨Nat.succ_lt_succ hlt, hgap⟩

theorem exists_decodes (offset : Nat) (signals : List Signal) :
    ∃ result rest, Decodes offset signals result rest := by
  cases signals with
  | nil => exact ⟨_, _, .ended⟩
  | cons signal rest =>
    cases signal with
    | pause => exact ⟨_, _, .paused rest⟩
    | failure cause => exact ⟨_, _, .failed cause rest⟩
    | byte lead =>
      cases hlead : Utf8.groupLength? lead with
      | none => exact ⟨_, _, .invalidLead hlead rest⟩
      | some length =>
        obtain ⟨tail, stop, rfl, hwhole | ⟨hshort, error, hgap⟩⟩ :=
          exists_bytes_or_gap offset (length - 1) rest
        · have hlength : Utf8.groupLength? lead = some (tail.length + 1) := by
            have hcases := Utf8.groupLength?_cases hlead
            rw [hlead, hwhole, Option.some.injEq]
            omega
          cases hdecode : Utf8.decodeGroup lead tail with
          | error sound => exact ⟨_, _, .malformed hlength hdecode stop⟩
          | ok c =>
            have hencoded := Utf8.utf8EncodeChar_of_decodeGroup hlength hdecode
            have hchar : Decodes offset _ (.ok (some c)) stop := .char c stop
            rw [hencoded] at hchar
            exact ⟨_, _, hchar⟩
        · exact ⟨_, _, .cut hlead (by omega : tail.length + 1 < length) hgap⟩

end Signal

/-- A result, in the state that it leaves. -/
def Stateful.leaving {ε σ α : Type} (next : σ) : Except ε α → EStateM.Result ε σ α
  | .ok a => .ok a next
  | .error error => .error error next

namespace Source

open Stateful

variable {offset : Nat} {source : Source} {result : Except ReadError (Option Char)}
  {rest : List Signal}

theorem readTail_cut (offset : Nat) {tail : List UInt8} {count : Nat} {source : Source}
    {stop : List Signal} {error : ReadError} (hcapacity : 0 < source.capacity)
    (hsignals : source.signals = tail.map .byte ++ stop) (hcount : tail.length < count)
    (hgap : Signal.gap offset stop = some error) :
    ∃ next : Source, readTail offset count source = .error error next ∧
      next.signals = stop.tail ∧ 0 < next.capacity := by
  induction tail generalizing count source with
  | nil =>
    obtain ⟨count, rfl⟩ := Nat.exists_eq_add_one.mpr hcount
    obtain ⟨next, hread, htail, hnext⟩ := readByte_signals hcapacity
    rw [hsignals, List.map_nil, List.nil_append] at hread htail
    refine ⟨next, ?_, htail, by omega⟩
    match stop with
    | [] | .pause :: _ =>
      cases hgap
      exact bind_of_ok hread
    | .failure cause :: _ =>
      cases hgap
      exact bind_of_error hread
  | cons byte tail ih =>
    rw [List.length_cons] at hcount
    obtain ⟨count, rfl⟩ := Nat.exists_eq_add_one.mpr (Nat.zero_lt_of_lt hcount)
    obtain ⟨middle, hread, htail, hmiddle⟩ := readByte_signals hcapacity
    rw [hsignals] at hread htail
    obtain ⟨next, hrest, hnext⟩ := ih (by omega) htail (Nat.lt_of_succ_lt_succ hcount)
    refine ⟨next, ?_, hnext⟩
    calc
      readTail offset (count + 1) source
        = (do return byte :: (← readTail offset count)) middle := bind_of_ok hread
      _ = .error error next := bind_of_error hrest

/-- A source reads what its signals give. -/
theorem readChar_of_decodes (hcapacity : 0 < source.capacity)
    (h : Signal.Decodes offset source.signals result rest) :
    ∃ next : Source, readChar offset source = leaving next result ∧
      next.signals = rest ∧ 0 < next.capacity := by
  generalize hsignals : source.signals = signals at h
  obtain ⟨middle, hread, htail, hmiddle⟩ := readByte_signals hcapacity
  rw [hsignals] at hread htail
  have hroom : 0 < middle.capacity := by omega
  cases h with
  | ended => exact ⟨middle, bind_of_ok hread, htail, hroom⟩
  | paused rest => exact ⟨middle, bind_of_ok hread, htail, hroom⟩
  | failed cause rest => exact ⟨middle, bind_of_error hread, htail, hroom⟩
  | char c rest => exact readChar_encoded offset c hcapacity hsignals
  | @invalidLead lead hlead rest =>
    refine ⟨middle, ?_, htail, hroom⟩
    have hgroup : readGroup offset lead middle = .error (.invalidLead lead offset) middle := by
      rw [readGroup, hlead]
      rfl
    exact (bind_of_ok hread).trans (bind_of_error hgroup)
  | @cut lead tail length stop error hlength hshort hgap =>
    obtain ⟨next, hrest, hnext⟩ :=
      readTail_cut offset hroom htail (by omega : tail.length < length - 1) hgap
    refine ⟨next, ?_, hnext⟩
    have hgroup : readGroup offset lead middle = .error error next := by
      rw [readGroup, hlength]
      exact bind_of_error hrest
    exact (bind_of_ok hread).trans (bind_of_error hgroup)
  | @malformed lead tail sound hlength hdecode rest =>
    obtain ⟨next, hrest, hnext⟩ := readTail_bytes offset tail hroom htail
    refine ⟨next, ?_, hnext⟩
    have hgroup : readGroup offset lead middle = .error (.malformed sound) next := by
      rw [readGroup, hlength]
      exact (bind_of_ok hrest).trans (by rw [hdecode]; rfl)
    exact (bind_of_ok hread).trans (bind_of_error hgroup)

theorem leaving_inj {ε σ α : Type} {s t : σ} {x y : Except ε α}
    (h : leaving s x = leaving t y) : s = t ∧ x = y := by
  cases x <;> cases y <;> cases h <;> exact ⟨rfl, rfl⟩

/-- Nothing but what the signals give is read. -/
theorem readChar_iff (hcapacity : 0 < source.capacity) :
    (∃ next : Source, readChar offset source = leaving next result ∧ next.signals = rest) ↔
      Signal.Decodes offset source.signals result rest := by
  constructor
  · rintro ⟨next, hread, rfl⟩
    obtain ⟨result', rest', hdecodes⟩ := Signal.exists_decodes offset source.signals
    obtain ⟨next', hread', rfl, -⟩ := readChar_of_decodes hcapacity hdecodes
    obtain ⟨rfl, rfl⟩ := leaving_inj (hread.symm.trans hread')
    exact hdecodes
  · intro h
    obtain ⟨next, hread, hrest, -⟩ := readChar_of_decodes hcapacity h
    exact ⟨next, hread, hrest⟩

/-- The tape of a text with a failure behind it. -/
theorem tape_of_failure (p : Position) {text : List Char} {source : Source}
    {rest later : List Signal} {error : ReadError} (hcapacity : 0 < source.capacity)
    (hsignals : source.signals = (Utf8.encode text).map .byte ++ rest)
    (hfails : Signal.Decodes (p.pastAll text).offset rest (.error error) later) :
    source.tape p = ⟨text, some error⟩ := by
  induction text generalizing p source with
  | nil =>
    rw [Utf8.encode_nil, List.map_nil, List.nil_append] at hsignals
    obtain ⟨next, hread, -⟩ := readChar_of_decodes hcapacity (hsignals ▸ hfails)
    exact tape_of_error hread
  | cons c text ih =>
    rw [Utf8.encode_cons, List.map_append, List.append_assoc] at hsignals
    obtain ⟨next, hread, hnext, hroom⟩ := readChar_encoded p.offset c hcapacity hsignals
    rw [tape_of_some hread, ih (p.past c) hroom hnext hfails]
    rfl

/-- What the source delivers begins with the encoding of its tape. -/
theorem signals_of_tape (p : Position) (hcapacity : 0 < source.capacity) :
    ∃ rest, source.signals = (Utf8.encode (source.tape p).text).map .byte ++ rest := by
  fun_induction Source.tape p source with
  | case1 p source => exact ⟨source.signals, rfl⟩
  | case2 p source => exact ⟨source.signals, rfl⟩
  | case3 p source c next hread ih =>
    have hdecodes : Signal.Decodes p.offset source.signals (.ok (some c)) next.signals :=
      (readChar_iff hcapacity).mp ⟨next, hread, rfl⟩
    obtain ⟨next', hread', -, hroom⟩ := readChar_of_decodes hcapacity hdecodes
    obtain rfl : next = next' := by
      rw [hread] at hread'
      cases hread'
      rfl
    obtain ⟨rest, hrest⟩ := ih hroom
    refine ⟨rest, ?_⟩
    rw [Tape.push, Utf8.encode_cons, List.map_append, List.append_assoc, ← hrest]
    generalize source.signals = signals at hdecodes
    cases hdecodes
    rfl

end Source

/-! ## Byte strings -/

def Signal.byte? : Signal → Option UInt8
  | byte value => some value
  | failure _ | pause => none

theorem Reader.filterMap_signals (reader : Reader) :
    reader.signals.filterMap Signal.byte? = reader.remaining := by
  have hstep : ∀ step : ReadStep, step.signals.filterMap Signal.byte? = step.bytes := by
    intro step
    match step with
    | .data [] => rfl
    | .data (byte :: bytes) =>
      rw [ReadStep.signals, List.filterMap_map]
      exact List.filterMap_some
    | .fail failure =>
      rw [ReadStep.signals]
      split <;> rfl
  rw [signals, remaining, List.filterMap_flatMap, funext hstep]

/-- The bytes come first, with no failure and no end among them, and then the stream ends or says
nothing more. -/
def Reader.Delivers (reader : Reader) (bytes : List UInt8) : Prop :=
  ∃ rest, reader.signals = bytes.map .byte ++ rest ∧
    (rest = [] ∨ ∃ later, rest = .pause :: later)

namespace Reader

theorem delivers_ofBytes (bytes : List UInt8) : (ofBytes bytes).Delivers bytes := by
  cases bytes with
  | nil => exact ⟨[.pause], rfl, .inr ⟨[], rfl⟩⟩
  | cons byte bytes =>
    refine ⟨[], ?_, .inl rfl⟩
    simp [ofBytes, signals, ReadStep.signals]

theorem Delivers.tape_eq {reader : Reader} {text : List Char}
    (h : reader.Delivers (Utf8.encode text)) (p : Position) (capacity : Nat) :
    (Source.new reader capacity).tape p = ⟨text, none⟩ := by
  obtain ⟨rest, hsignals, hend⟩ := h
  exact Source.tape_encoded p (Nat.le_max_right _ _) hsignals hend

end Reader

/-- Where no character comes first in bytes that are delivered, they are no UTF-8. -/
theorem Signal.decodes_of_stuck (offset : Nat) {bytes : List UInt8} {rest : List Signal}
    (hstuck : Utf8.Stuck bytes) (hbytes : bytes ≠ [])
    (hrest : rest = [] ∨ ∃ later, rest = .pause :: later) :
    ∃ error later, Decodes offset (bytes.map .byte ++ rest) (.error error) later ∧
      error.kind = .invalidData := by
  obtain ⟨lead, tail, rfl⟩ := List.exists_cons_of_ne_nil hbytes
  cases hlead : Utf8.groupLength? lead with
  | none => exact ⟨_, _, .invalidLead hlead _, rfl⟩
  | some length =>
    by_cases hshort : tail.length + 1 < length
    · have hgap : gap offset rest = some (.truncated offset) := by
        rcases hrest with rfl | ⟨later, rfl⟩ <;> rfl
      exact ⟨_, _, .cut hlead hshort hgap, rfl⟩
    · -- The group is complete, with more bytes behind it perhaps.
      obtain ⟨group, left, rfl, hgroup⟩ : ∃ group left, tail = group ++ left ∧
          group.length + 1 = length := by
        have hcases := Utf8.groupLength?_cases hlead
        refine ⟨tail.take (length - 1), tail.drop (length - 1), ?_, ?_⟩
        · rw [List.take_append_drop]
        · rw [List.length_take]
          omega
      subst hgroup
      cases hdecode : Utf8.decodeGroup lead group with
      | error sound =>
        have hmalformed : Decodes offset _ (.error (.malformed sound)) _ :=
          .malformed hlead hdecode (left.map .byte ++ rest)
        rw [← List.append_assoc, ← List.map_append] at hmalformed
        exact ⟨_, _, hmalformed, rfl⟩
      | ok c =>
        have hencoded := Utf8.utf8EncodeChar_of_decodeGroup hlead hdecode
        exact absurd ⟨left, by rw [hencoded]; rfl⟩ (hstuck c)

/-- Behind the longest text that the bytes start with, the source fails. -/
theorem Reader.Delivers.tape_of_stuck {reader : Reader} {chars : List Char} {stuck : List UInt8}
    (h : reader.Delivers (Utf8.encode chars ++ stuck)) (hstuck : Utf8.Stuck stuck)
    (hmore : stuck ≠ []) (capacity : Nat) :
    ∃ error, (Source.new reader capacity).tape .start = ⟨chars, some error⟩ ∧
      error.kind = .invalidData := by
  obtain ⟨rest, hsignals, hrest⟩ := h
  rw [List.map_append, List.append_assoc] at hsignals
  obtain ⟨error, later, hfails, hkind⟩ :=
    Signal.decodes_of_stuck (Position.start.pastAll chars).offset hstuck hmore hrest
  have htape : (Source.new reader capacity).tape .start = ⟨chars, some error⟩ :=
    Source.tape_of_failure .start (Nat.le_max_right _ _) hsignals hfails
  exact ⟨error, htape, hkind⟩

namespace Cursor

open Stateful

variable {cursor next : Cursor} {error : ReadError}

theorem readChar_of_advance_ok (h : cursor.advance = .ok () next) :
    Source.readChar cursor.nextPosition.offset cursor.source = .ok next.current next.source ∧
      next.position = cursor.nextPosition := by
  simp only [advance] at h
  split at h
  · rename_i hread
    cases h
    exact ⟨hread, rfl⟩
  · cases h

theorem readChar_of_advance_error (h : cursor.advance = .error error next) :
    Source.readChar cursor.nextPosition.offset cursor.source = .error error next.source := by
  simp only [advance] at h
  split at h
  · cases h
  · rename_i hread
    cases h
    exact hread

/-- The characters that a cursor steps to, until its lookahead stays empty or a step fails. -/
def collect (cursor : Cursor) : Tape :=
  match _ : cursor.advance with
  | .error error _ => ⟨[], some error⟩
  | .ok () next =>
    match _ : next.current with
    | none => .ended
    | some c => (collect next).push c
termination_by cursor.source.size
decreasing_by
  rename_i hadvance hcurrent
  obtain ⟨hread, -⟩ := readChar_of_advance_ok hadvance
  exact Source.size_readChar_some (hcurrent ▸ hread)

theorem collect_eq_tape (cursor : Cursor) :
    cursor.collect = cursor.source.tape cursor.nextPosition := by
  fun_induction collect cursor with
  | case1 cursor error next hadvance =>
    exact (Source.tape_of_error (readChar_of_advance_error hadvance)).symm
  | case2 cursor next hadvance hcurrent =>
    obtain ⟨hread, -⟩ := readChar_of_advance_ok hadvance
    exact (Source.tape_of_none (hcurrent ▸ hread)).symm
  | case3 cursor next hadvance c hcurrent ih =>
    obtain ⟨hread, hposition⟩ := readChar_of_advance_ok hadvance
    have hnext : next.nextPosition = cursor.nextPosition.past c := by
      rw [nextPosition, hcurrent, ← hposition]
    have htape := Source.tape_of_some (hcurrent ▸ hread)
    rw [ih, hnext, htape]

/-- What a cursor decodes is a beginning of the bytes that its reader has. -/
theorem encode_collect (reader : Reader) (capacity : Nat) :
    Utf8.encode (new reader capacity).collect.text <+: reader.remaining := by
  have hroom : 0 < (Source.new reader capacity).capacity := Nat.le_max_right capacity 1
  obtain ⟨rest, hsignals⟩ := Source.signals_of_tape .start hroom
  have hreader : (Source.new reader capacity).signals = reader.signals := rfl
  have hcollect : (new reader capacity).collect = (Source.new reader capacity).tape .start :=
    collect_eq_tape _
  rw [hreader] at hsignals
  refine ⟨rest.filterMap Signal.byte?, ?_⟩
  rw [← reader.filterMap_signals, hsignals, List.filterMap_append, List.filterMap_map, hcollect]
  exact congrArg (· ++ _) List.filterMap_some.symm

/-- A cursor turns the bytes of a text into the text. Of other bytes it gives the longest text that
they start with, and the step behind it fails as invalid data. -/
theorem collect_of_delivers {reader : Reader} {bytes : List UInt8} (h : reader.Delivers bytes)
    (capacity : Nat) :
    let decoded := (new reader capacity).collect
    (decoded.stop = none → Utf8.encode decoded.text = bytes) ∧
      (∀ error, decoded.stop = some error → error.kind = .invalidData ∧ ¬Utf8.Valid bytes ∧
        Utf8.LongestValid (Utf8.encode decoded.text) bytes) ∧
      ∀ text, Utf8.encode text = bytes → decoded = ⟨text, none⟩ := by
  intro decoded
  have htape : decoded = (Source.new reader capacity).tape .start := collect_eq_tape _
  have htext : ∀ text, Utf8.encode text = bytes → decoded = ⟨text, none⟩ := by
    rintro text rfl
    exact htape.trans (h.tape_eq .start capacity)
  obtain ⟨chars, stuck, rfl, hstuck⟩ := Utf8.exists_encode_append_stuck bytes
  by_cases hempty : stuck = []
  · have hdecoded := htext chars (by rw [hempty, List.append_nil])
    refine ⟨?_, ?_, htext⟩
    · intro _
      rw [hdecoded, hempty, List.append_nil]
    · intro error herror
      rw [hdecoded] at herror
      cases herror
  · obtain ⟨error, hfailed, hkind⟩ := h.tape_of_stuck hstuck hempty capacity
    have hdecoded : decoded = ⟨chars, some error⟩ := htape.trans hfailed
    refine ⟨?_, ?_, htext⟩
    · intro hnone
      rw [hdecoded] at hnone
      cases hnone
    · intro error' herror
      rw [hdecoded] at herror ⊢
      cases herror
      refine ⟨hkind, ?_, Utf8.longestValid_of_stuck hstuck chars⟩
      intro hvalid
      obtain ⟨text, hall⟩ := Utf8.valid_iff.mp hvalid
      have hended := htext text hall
      rw [hdecoded] at hended
      cases hended

end Cursor

/-- Two characters, the second in two pieces, and the beginning of a third that the end cuts off;
what is delivered behind the end does not complete it. -/
def Reader.cutOff : Reader :=
  ⟨[.data [0x61, 0xC3], .fail ⟨.interrupted, none⟩, .data [0xA9, 0xF0, 0x9F], .data [],
    .data [0x8E, 0x89]]⟩

theorem Cursor.collect_cutOff :
    let bytes := [0x61, 0xC3, 0xA9, 0xF0, 0x9F]
    Reader.cutOff.Delivers bytes ∧
      (Cursor.new Reader.cutOff 2).collect = ⟨['a', 'é'], some (.truncated 3)⟩ ∧
      (ReadError.truncated 3).kind = .invalidData ∧ ¬Utf8.Valid bytes ∧
      Utf8.LongestValid (Utf8.encode ['a', 'é']) bytes := by
  intro bytes
  have hdelivers : Reader.cutOff.Delivers bytes :=
    ⟨[.pause, .byte 0x8E, .byte 0x89], by decide, .inr ⟨_, rfl⟩⟩
  have hcollect : (Cursor.new Reader.cutOff 2).collect = ⟨['a', 'é'], some (.truncated 3)⟩ := by
    decide +kernel
  obtain ⟨-, hfails, -⟩ := Cursor.collect_of_delivers hdelivers 2
  obtain ⟨hkind, hinvalid, hlongest⟩ := hfails (.truncated 3) (congrArg Tape.stop hcollect)
  rw [hcollect] at hlongest
  exact ⟨hdelivers, hcollect, hkind, hinvalid, hlongest⟩

end StreamLexer
