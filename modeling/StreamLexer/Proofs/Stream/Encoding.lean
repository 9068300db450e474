import StreamLexer.Proofs.Stream.Signal

/-! # Encoded text is read as it was written

The group of bytes that encodes a character announces its own length and decodes to that character,
whatever follows it in the stream.
-/

set_option autoImplicit false

namespace StreamLexer

namespace Utf8

theorem toNat_ofNat_of_lt {n : Nat} (h : n < 256) : (UInt8.ofNat n).toNat = n := by
  simp [UInt8.toNat_ofNat', Nat.mod_eq_of_lt h]

theorem valid_cases (c : Char) : c.toNat < 0xD800 ∨ 0xDFFF < c.toNat ∧ c.toNat < 0x110000 :=
  c.valid

theorem ofNat_of_eq {n : Nat} (c : Char) (h : n = c.toNat) : Char.ofNat n = c := by
  rw [h, Char.ofNat_toNat]

theorem opens_of_bounds {a b : Nat} (ha : 0xC2 ≤ a) (ha' : a ≤ 0xF4) (hb : 0x80 ≤ b)
    (hb' : b ≤ 0xBF) (hE0 : a = 0xE0 → 0xA0 ≤ b) (hED : a = 0xED → b ≤ 0x9F)
    (hF0 : a = 0xF0 → 0x90 ≤ b) (hF4 : a = 0xF4 → b ≤ 0x8F) :
    opens (UInt8.ofNat a) (UInt8.ofNat b) = true := by
  have hA : (UInt8.ofNat a).toNat = a := toNat_ofNat_of_lt (by omega)
  have hB : (UInt8.ofNat b).toNat = b := toNat_ofNat_of_lt (by omega)
  rw [opens, secondRange]
  rw [hA, hB]
  split <;> simp <;> omega

theorem continues_ofNat {b : Nat} (h : 0x80 ≤ b) (h' : b ≤ 0xBF) :
    continues (UInt8.ofNat b) = true := by
  have hB : (UInt8.ofNat b).toNat = b := toNat_ofNat_of_lt (by omega)
  simp [continues, hB, h, h']

theorem payload_ofNat {b : Nat} (h : b < 0x40) : payload (UInt8.ofNat (b + 0x80)) = b := by
  rw [payload, toNat_ofNat_of_lt (by omega)]
  omega

section Groups

variable {l b c d : Nat}

theorem groupLength?_one (h : l < 0x80) : groupLength? (UInt8.ofNat l) = some 1 := by
  rw [groupLength?, toNat_ofNat_of_lt (by omega)]
  exact if_pos h

theorem groupLength?_two (h : 0xC0 ≤ l) (h' : l < 0xE0) :
    groupLength? (UInt8.ofNat l) = some 2 := by
  rw [groupLength?, toNat_ofNat_of_lt (by omega), if_neg (by omega), if_neg (by omega), if_pos h']

theorem groupLength?_three (h : 0xE0 ≤ l) (h' : l < 0xF0) :
    groupLength? (UInt8.ofNat l) = some 3 := by
  rw [groupLength?, toNat_ofNat_of_lt (by omega), if_neg (by omega), if_neg (by omega),
    if_neg (by omega), if_pos h']

theorem groupLength?_four (h : 0xF0 ≤ l) (h' : l < 0xF8) :
    groupLength? (UInt8.ofNat l) = some 4 := by
  rw [groupLength?, toNat_ofNat_of_lt (by omega), if_neg (by omega), if_neg (by omega),
    if_neg (by omega), if_neg (by omega), if_pos h']

theorem decodeGroup_one (h : l < 0x80) : decodeGroup (UInt8.ofNat l) [] = .ok (Char.ofNat l) := by
  rw [decodeGroup, toNat_ofNat_of_lt (by omega), if_pos h]

theorem decodeGroup_two (h : 0xC2 ≤ l) (h' : l < 0xE0) (hb : b < 0x40) :
    decodeGroup (UInt8.ofNat l) [UInt8.ofNat (b + 0x80)] =
      .ok (Char.ofNat (l % 0x20 * 0x40 + b)) := by
  have hopens := @opens_of_bounds l (b + 0x80) (by omega) (by omega) (by omega) (by omega)
    (by omega) (by omega) (by omega) (by omega)
  rw [decodeGroup, if_pos hopens, payload_ofNat hb, toNat_ofNat_of_lt (by omega)]

theorem decodeGroup_three (h : 0xE0 ≤ l) (h' : l < 0xF0) (hlong : l = 0xE0 → 0x20 ≤ b)
    (hsurrogate : l = 0xED → b < 0x20) (hb : b < 0x40) (hc : c < 0x40) :
    decodeGroup (UInt8.ofNat l) [UInt8.ofNat (b + 0x80), UInt8.ofNat (c + 0x80)] =
      .ok (Char.ofNat ((l % 0x10 * 0x40 + b) * 0x40 + c)) := by
  have hopens := @opens_of_bounds l (b + 0x80) (by omega) (by omega) (by omega) (by omega)
    (by omega) (by omega) (by omega) (by omega)
  have hcontinues := @continues_ofNat (c + 0x80) (by omega) (by omega)
  rw [decodeGroup, hopens, hcontinues, payload_ofNat hb, payload_ofNat hc,
    toNat_ofNat_of_lt (by omega)]
  rfl

theorem decodeGroup_four (h : 0xF0 ≤ l) (h' : l ≤ 0xF4) (hlong : l = 0xF0 → 0x10 ≤ b)
    (hlast : l = 0xF4 → b < 0x10) (hb : b < 0x40) (hc : c < 0x40) (hd : d < 0x40) :
    decodeGroup (UInt8.ofNat l)
        [UInt8.ofNat (b + 0x80), UInt8.ofNat (c + 0x80), UInt8.ofNat (d + 0x80)] =
      .ok (Char.ofNat (((l % 0x08 * 0x40 + b) * 0x40 + c) * 0x40 + d)) := by
  have hopens := @opens_of_bounds l (b + 0x80) (by omega) (by omega) (by omega) (by omega)
    (by omega) (by omega) (by omega) (by omega)
  have hcontinues := @continues_ofNat (c + 0x80) (by omega) (by omega)
  have hcontinues' := @continues_ofNat (d + 0x80) (by omega) (by omega)
  rw [decodeGroup, hopens, hcontinues, hcontinues', payload_ofNat hb, payload_ofNat hc,
    payload_ofNat hd, toNat_ofNat_of_lt (by omega)]
  rfl

end Groups

/-- The group of a character announces its length and decodes to the character. -/
theorem utf8EncodeChar_group (c : Char) :
    ∃ lead tail, String.utf8EncodeChar c = lead :: tail ∧
      groupLength? lead = some (tail.length + 1) ∧ decodeGroup lead tail = .ok c := by
  have hvalid := valid_cases c
  have hval : c.val.toNat = c.toNat := rfl
  simp only [String.utf8EncodeChar]
  simp only [hval]
  generalize hn : c.toNat = n at hvalid ⊢
  split
  · refine ⟨_, _, rfl, groupLength?_one (by omega), ?_⟩
    rw [decodeGroup_one (by omega), ofNat_of_eq c hn.symm]
  · split
    · refine ⟨_, _, rfl, groupLength?_two (by omega) (by omega), ?_⟩
      rw [decodeGroup_two (by omega) (by omega) (by omega), ofNat_of_eq c (by omega)]
    · split
      · refine ⟨_, _, rfl, groupLength?_three (by omega) (by omega), ?_⟩
        rw [decodeGroup_three (by omega) (by omega) (by omega) (by omega) (by omega) (by omega),
          ofNat_of_eq c (by omega)]
      · refine ⟨_, _, rfl, groupLength?_four (by omega) (by omega), ?_⟩
        rw [decodeGroup_four (by omega) (by omega) (by omega) (by omega) (by omega) (by omega)
          (by omega), ofNat_of_eq c (by omega)]

@[simp] theorem encode_cons (c : Char) (text : List Char) :
    encode (c :: text) = String.utf8EncodeChar c ++ encode text := rfl

@[simp] theorem encode_append (left right : List Char) :
    encode (left ++ right) = encode left ++ encode right :=
  List.flatMap_append

theorem decode?_encode (text : List Char) : decode? (encode text) = some text := by
  induction text with
  | nil => rw [encode, List.flatMap_nil, decode?]
  | cons c text ih =>
    obtain ⟨lead, tail, hgroup, hlength, hdecode⟩ := utf8EncodeChar_group c
    rw [encode_cons, hgroup, List.cons_append, decode?, hlength]
    simp [hdecode, ih]

end Utf8

namespace Source

open Stateful

theorem readTail_bytes (offset : Nat) (tail : List UInt8) {source : Source} {rest : List Signal}
    (hcapacity : 0 < source.capacity) (hsignals : source.signals = tail.map .byte ++ rest) :
    ∃ next : Source, readTail offset tail.length source = .ok tail next ∧
      next.signals = rest ∧ 0 < next.capacity := by
  induction tail generalizing source with
  | nil => exact ⟨source, rfl, hsignals, hcapacity⟩
  | cons byte tail ih =>
    obtain ⟨middle, hread, htail, hmiddle⟩ := readByte_signals hcapacity
    rw [hsignals] at hread htail
    obtain ⟨next, hrest, hnext⟩ := ih (by omega) htail
    refine ⟨next, ?_, hnext⟩
    calc
      readTail offset (tail.length + 1) source
        = (do return byte :: (← readTail offset tail.length)) middle := bind_of_ok hread
      _ = .ok (byte :: tail) next := bind_of_ok hrest

theorem readChar_encoded (offset : Nat) (c : Char) {source : Source} {rest : List Signal}
    (hcapacity : 0 < source.capacity)
    (hsignals : source.signals = (String.utf8EncodeChar c).map .byte ++ rest) :
    ∃ next : Source, readChar offset source = .ok (some c) next ∧
      next.signals = rest ∧ 0 < next.capacity := by
  obtain ⟨lead, tail, hgroup, hlength, hdecode⟩ := Utf8.utf8EncodeChar_group c
  obtain ⟨middle, hread, htail, hmiddle⟩ := readByte_signals hcapacity
  rw [hsignals, hgroup] at hread htail
  obtain ⟨next, hrest, hnext⟩ := readTail_bytes offset tail (by omega) htail
  refine ⟨next, ?_, hnext⟩
  have hchar : readGroup offset lead middle = .ok c next := by
    simp only [readGroup]
    rw [hlength]
    exact (bind_of_ok hrest).trans (by rw [hdecode]; rfl)
  exact (bind_of_ok hread).trans (bind_of_ok hchar)

/-- The stream reports its end here, or has nothing more to say. -/
def AtEnd (source : Source) : Prop :=
  source.signals = [] ∨ ∃ rest, source.signals = .pause :: rest

theorem readChar_atEnd (offset : Nat) {source : Source} (hcapacity : 0 < source.capacity)
    (hend : source.AtEnd) : ∃ next : Source, readChar offset source = .ok none next := by
  obtain ⟨next, hread, -, -⟩ := readByte_signals hcapacity
  refine ⟨next, ?_⟩
  rcases hend with hend | ⟨rest, hend⟩
  · rw [hend] at hread
    exact bind_of_ok hread
  · rw [hend] at hread
    exact bind_of_ok hread

end Source

end StreamLexer
