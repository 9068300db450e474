import StreamLexer.Proofs.Stream.Encoding

/-! # Well-formed UTF-8

The grammar of the groups that stand for a character, by the ranges of their bytes alone. It derives
the encodings of the characters and nothing else (`group_iff`), and a complete group is decoded if
and only if it is one of them (`decodeGroup_eq_ok_iff`). Bytes are valid if they are a sequence of
such groups, so every byte string has a longest valid beginning, and it ends where no character
comes next (`longestValid_of_stuck`).
-/

set_option autoImplicit false

namespace StreamLexer.Utf8

/-- The byte lies between two bounds, both of them allowed. -/
def Within (low high : Nat) (b : UInt8) : Prop := low ≤ b.toNat ∧ b.toNat ≤ high

/-- A byte behind the second one of a group, or the second one where no narrower range applies. -/
abbrev Tail (b : UInt8) : Prop := Within 0x80 0xBF b

/-- The second byte is narrowed behind the leads `E0` and `F0`, which would allow overlong forms,
behind `ED`, which would allow surrogates, and behind `F4`, which would pass `U+10FFFF`. -/
inductive Group : List UInt8 → Prop where
  | one {a : UInt8} (ha : Within 0x00 0x7F a) : Group [a]
  | two {a b : UInt8} (ha : Within 0xC2 0xDF a) (hb : Tail b) : Group [a, b]
  | threeLow {a b c : UInt8} (ha : Within 0xE0 0xE0 a) (hb : Within 0xA0 0xBF b) (hc : Tail c) :
      Group [a, b, c]
  | three {a b c : UInt8} (ha : Within 0xE1 0xEC a) (hb : Tail b) (hc : Tail c) : Group [a, b, c]
  | threeSplit {a b c : UInt8} (ha : Within 0xED 0xED a) (hb : Within 0x80 0x9F b) (hc : Tail c) :
      Group [a, b, c]
  | threeHigh {a b c : UInt8} (ha : Within 0xEE 0xEF a) (hb : Tail b) (hc : Tail c) :
      Group [a, b, c]
  | fourLow {a b c d : UInt8} (ha : Within 0xF0 0xF0 a) (hb : Within 0x90 0xBF b) (hc : Tail c)
      (hd : Tail d) : Group [a, b, c, d]
  | four {a b c d : UInt8} (ha : Within 0xF1 0xF3 a) (hb : Tail b) (hc : Tail c) (hd : Tail d) :
      Group [a, b, c, d]
  | fourHigh {a b c d : UInt8} (ha : Within 0xF4 0xF4 a) (hb : Within 0x80 0x8F b) (hc : Tail c)
      (hd : Tail d) : Group [a, b, c, d]

/-- The bytes are a sequence of whole groups. -/
def Valid (bytes : List UInt8) : Prop :=
  ∃ groups : List (List UInt8), (∀ group ∈ groups, Group group) ∧ groups.flatten = bytes

/-- Of the valid beginnings of the bytes, `first` is the longest. -/
structure LongestValid (first bytes : List UInt8) : Prop where
  valid : Valid first
  starts : first <+: bytes
  longest : ∀ whole, Valid whole → whole <+: bytes → whole <+: first

/-! ## Groups and characters -/

theorem ofNat_eq {n : Nat} {b : UInt8} (h : n = b.toNat) : UInt8.ofNat n = b := by
  rw [h, UInt8.ofNat_toNat]

theorem val_ofNat {n : Nat} (h : n < 0xD800 ∨ 0xDFFF < n ∧ n < 0x110000) :
    (Char.ofNat n).val.toNat = n := by
  rw [Char.ofNat, dif_pos h]
  rfl

section Encode

variable {a b c d : UInt8}

theorem utf8EncodeChar_one (ha : Within 0x00 0x7F a) :
    String.utf8EncodeChar (Char.ofNat a.toNat) = [a] := by
  obtain ⟨-, ha⟩ := ha
  rw [String.utf8EncodeChar]
  simp only [val_ofNat (.inl (by omega : a.toNat < 0xD800))]
  rw [if_pos ha, UInt8.ofNat_toNat]

theorem utf8EncodeChar_two (ha : Within 0xC2 0xDF a) (hb : Tail b) :
    String.utf8EncodeChar (Char.ofNat (a.toNat % 0x20 * 0x40 + payload b)) = [a, b] := by
  obtain ⟨halow, hahigh⟩ := ha
  obtain ⟨hblow, hbhigh⟩ := hb
  rw [payload, String.utf8EncodeChar]
  have hvalid : a.toNat % 0x20 * 0x40 + b.toNat % 0x40 < 0xD800 := by omega
  simp only [val_ofNat (.inl hvalid)]
  rw [if_neg (by omega), if_pos (by omega), ofNat_eq (by omega : _ = a.toNat),
    ofNat_eq (by omega : _ = b.toNat)]

theorem utf8EncodeChar_three (ha : Within 0xE0 0xEF a) (hb : Tail b) (hc : Tail c)
    (hlong : a.toNat = 0xE0 → 0xA0 ≤ b.toNat) (hsurrogate : a.toNat = 0xED → b.toNat ≤ 0x9F) :
    String.utf8EncodeChar
      (Char.ofNat ((a.toNat % 0x10 * 0x40 + payload b) * 0x40 + payload c)) = [a, b, c] := by
  obtain ⟨halow, hahigh⟩ := ha
  obtain ⟨hblow, hbhigh⟩ := hb
  obtain ⟨hclow, hchigh⟩ := hc
  rw [payload, payload, String.utf8EncodeChar]
  have hvalid : (a.toNat % 0x10 * 0x40 + b.toNat % 0x40) * 0x40 + c.toNat % 0x40 < 0xD800 ∨
      0xDFFF < (a.toNat % 0x10 * 0x40 + b.toNat % 0x40) * 0x40 + c.toNat % 0x40 ∧
        (a.toNat % 0x10 * 0x40 + b.toNat % 0x40) * 0x40 + c.toNat % 0x40 < 0x110000 := by omega
  simp only [val_ofNat hvalid]
  rw [if_neg (by omega), if_neg (by omega), if_pos (by omega), ofNat_eq (by omega : _ = a.toNat),
    ofNat_eq (by omega : _ = b.toNat), ofNat_eq (by omega : _ = c.toNat)]

theorem utf8EncodeChar_four (ha : Within 0xF0 0xF4 a) (hb : Tail b) (hc : Tail c) (hd : Tail d)
    (hlong : a.toNat = 0xF0 → 0x90 ≤ b.toNat) (hlast : a.toNat = 0xF4 → b.toNat ≤ 0x8F) :
    String.utf8EncodeChar (Char.ofNat
      (((a.toNat % 0x08 * 0x40 + payload b) * 0x40 + payload c) * 0x40 + payload d)) =
      [a, b, c, d] := by
  obtain ⟨halow, hahigh⟩ := ha
  obtain ⟨hblow, hbhigh⟩ := hb
  obtain ⟨hclow, hchigh⟩ := hc
  obtain ⟨hdlow, hdhigh⟩ := hd
  rw [payload, payload, payload, String.utf8EncodeChar]
  generalize hn : ((a.toNat % 0x08 * 0x40 + b.toNat % 0x40) * 0x40 + c.toNat % 0x40) * 0x40 +
    d.toNat % 0x40 = n
  have hvalid : 0xDFFF < n ∧ n < 0x110000 := by omega
  simp only [val_ofNat (.inr hvalid)]
  rw [if_neg (by omega), if_neg (by omega), if_neg (by omega), ofNat_eq (by omega : _ = a.toNat),
    ofNat_eq (by omega : _ = b.toNat), ofNat_eq (by omega : _ = c.toNat),
    ofNat_eq (by omega : _ = d.toNat)]

end Encode

theorem groupLength?_cases {lead : UInt8} {length : Nat} (h : groupLength? lead = some length) :
    length = 1 ∧ Within 0x00 0x7F lead ∨ length = 2 ∧ Within 0xC0 0xDF lead ∨
      length = 3 ∧ Within 0xE0 0xEF lead ∨ length = 4 ∧ Within 0xF0 0xF7 lead := by
  simp only [groupLength?] at h
  simp only [Within]
  split at h
  · cases h
    omega
  · split at h
    · cases h
    · split at h
      · cases h
        omega
      · split at h
        · cases h
          omega
        · split at h
          · cases h
            omega
          · cases h

theorem tail_of_continues {b : UInt8} (h : continues b = true) : Tail b := by
  simpa [continues, Within] using h

/-- What the first two bytes of a character are known to be. -/
theorem bounds_of_opens {lead second : UInt8} (h : opens lead second = true) :
    Within 0xC2 0xF4 lead ∧ Tail second ∧ (lead.toNat = 0xE0 → 0xA0 ≤ second.toNat) ∧
      (lead.toNat = 0xED → second.toNat ≤ 0x9F) ∧ (lead.toNat = 0xF0 → 0x90 ≤ second.toNat) ∧
      (lead.toNat = 0xF4 → second.toNat ≤ 0x8F) := by
  simp only [opens, Bool.and_eq_true, decide_eq_true_eq] at h
  simp only [secondRange] at h
  simp only [Within]
  split at h <;> grind

/-- A complete group that is decoded is the encoding of its character. -/
theorem utf8EncodeChar_of_decodeGroup {lead : UInt8} {tail : List UInt8} {c : Char}
    (hlength : groupLength? lead = some (tail.length + 1))
    (h : decodeGroup lead tail = .ok c) : String.utf8EncodeChar c = lead :: tail := by
  have hlead := groupLength?_cases hlength
  match tail with
  | [] =>
    rw [decodeGroup] at h
    split at h
    · rename_i hone
      cases h
      exact utf8EncodeChar_one ⟨Nat.zero_le _, Nat.le_of_lt_succ hone⟩
    · cases h
  | [b] =>
    simp only [List.length_cons, List.length_nil] at hlead
    rw [decodeGroup] at h
    split at h
    · rename_i hopens
      obtain ⟨ha, hb, -⟩ := bounds_of_opens hopens
      cases h
      refine utf8EncodeChar_two ?_ hb
      simp only [Within] at ha hlead ⊢
      omega
    · cases h
  | [b, d] =>
    simp only [List.length_cons, List.length_nil] at hlead
    simp only [decodeGroup, Bool.not_eq_true'] at h
    split at h
    · cases h
    · rename_i hopens
      split at h
      · cases h
      · rename_i hcontinues
        obtain ⟨-, hb, hlong, hsurrogate, -⟩ := bounds_of_opens (by simpa using hopens)
        cases h
        refine utf8EncodeChar_three ?_ hb (tail_of_continues (by simpa using hcontinues)) hlong
          hsurrogate
        simp only [Within] at hlead ⊢
        omega
  | [b, d, e] =>
    simp only [List.length_cons, List.length_nil] at hlead
    simp only [decodeGroup, Bool.not_eq_true'] at h
    split at h
    · cases h
    · rename_i hopens
      split at h
      · cases h
      · rename_i hcontinues
        split at h
        · cases h
        · rename_i hcontinues'
          obtain ⟨ha, hb, -, -, hlong, hlast⟩ := bounds_of_opens (by simpa using hopens)
          cases h
          refine utf8EncodeChar_four ?_ hb (tail_of_continues (by simpa using hcontinues))
            (tail_of_continues (by simpa using hcontinues')) hlong hlast
          simp only [Within] at ha hlead ⊢
          omega
  | _ :: _ :: _ :: _ :: _ =>
    simp only [List.length_cons] at hlead
    omega

theorem decodeGroup_eq_ok_iff {lead : UInt8} {tail : List UInt8} {c : Char}
    (hlength : groupLength? lead = some (tail.length + 1)) :
    decodeGroup lead tail = .ok c ↔ String.utf8EncodeChar c = lead :: tail := by
  constructor
  · exact utf8EncodeChar_of_decodeGroup hlength
  · intro hgroup
    obtain ⟨first, rest, hencoded, -, hdecode⟩ := utf8EncodeChar_group c
    rw [hencoded] at hgroup
    cases hgroup
    exact hdecode

theorem group_utf8EncodeChar (c : Char) : Group (String.utf8EncodeChar c) := by
  have hvalid := valid_cases c
  have hval : c.val.toNat = c.toNat := rfl
  simp only [String.utf8EncodeChar]
  simp only [hval]
  generalize c.toNat = n at hvalid ⊢
  have hbyte {k low high : Nat} (hlow : low ≤ k) (hhigh : k ≤ high) (hlt : high < 256) :
      Within low high (UInt8.ofNat k) := by
    rw [Within, toNat_ofNat_of_lt (by omega)]
    exact ⟨hlow, hhigh⟩
  have htail (k : Nat) : Tail (UInt8.ofNat (k % 64 + 128)) :=
    hbyte (by omega) (by omega) (by decide)
  split
  · exact .one (hbyte (by omega) (by omega) (by decide))
  · split
    · exact .two (hbyte (by omega) (by omega) (by decide)) (htail n)
    · split
      · rcases (by omega : n / 4096 = 0 ∨ 1 ≤ n / 4096 ∧ n / 4096 ≤ 12 ∨ n / 4096 = 13 ∨
          14 ≤ n / 4096) with h | h | h | h
        · exact .threeLow (hbyte (by omega) (by omega) (by decide))
            (hbyte (by omega) (by omega) (by decide)) (htail n)
        · exact .three (hbyte (by omega) (by omega) (by decide)) (htail _) (htail n)
        · exact .threeSplit (hbyte (by omega) (by omega) (by decide))
            (hbyte (by omega) (by omega) (by decide)) (htail n)
        · exact .threeHigh (hbyte (by omega) (by omega) (by decide)) (htail _) (htail n)
      · rcases (by omega : n / 262144 = 0 ∨ 1 ≤ n / 262144 ∧ n / 262144 ≤ 3 ∨ n / 262144 = 4)
          with h | h | h
        · exact .fourLow (hbyte (by omega) (by omega) (by decide))
            (hbyte (by omega) (by omega) (by decide)) (htail _) (htail n)
        · exact .four (hbyte (by omega) (by omega) (by decide)) (htail _) (htail _) (htail n)
        · exact .fourHigh (hbyte (by omega) (by omega) (by decide))
            (hbyte (by omega) (by omega) (by decide)) (htail _) (htail n)

theorem exists_char_of_group {group : List UInt8} (h : Group group) :
    ∃ c, String.utf8EncodeChar c = group := by
  have hwiden {low high low' high' : Nat} {b : UInt8} (hb : Within low high b) (hlow : low' ≤ low)
      (hhigh : high ≤ high') : Within low' high' b :=
    ⟨Nat.le_trans hlow hb.1, Nat.le_trans hb.2 hhigh⟩
  cases h with
  | one ha => exact ⟨_, utf8EncodeChar_one ha⟩
  | two ha hb => exact ⟨_, utf8EncodeChar_two ha hb⟩
  | threeLow ha hb hc | three ha hb hc | threeSplit ha hb hc | threeHigh ha hb hc =>
    refine ⟨_, utf8EncodeChar_three (hwiden ha ?_ ?_) (hwiden hb ?_ ?_) hc ?_ ?_⟩ <;>
      simp only [Within] at ha hb <;> omega
  | fourLow ha hb hc hd | four ha hb hc hd | fourHigh ha hb hc hd =>
    refine ⟨_, utf8EncodeChar_four (hwiden ha ?_ ?_) (hwiden hb ?_ ?_) hc hd ?_ ?_⟩ <;>
      simp only [Within] at ha hb <;> omega

theorem group_iff {group : List UInt8} : Group group ↔ ∃ c, String.utf8EncodeChar c = group := by
  constructor
  · exact exists_char_of_group
  · rintro ⟨c, rfl⟩
    exact group_utf8EncodeChar c

/-! ## Texts -/

@[simp] theorem encode_nil : encode [] = [] := rfl

/-- Valid bytes are the encodings of the texts. -/
theorem valid_iff {bytes : List UInt8} : Valid bytes ↔ ∃ text, encode text = bytes := by
  constructor
  · rintro ⟨groups, hgroups, rfl⟩
    induction groups with
    | nil => exact ⟨[], rfl⟩
    | cons group groups ih =>
      obtain ⟨c, rfl⟩ := group_iff.mp (hgroups group List.mem_cons_self)
      obtain ⟨text, htext⟩ := ih fun other hother => hgroups other (List.mem_cons_of_mem _ hother)
      exact ⟨c :: text, by rw [encode_cons, htext, List.flatten_cons]⟩
  · rintro ⟨text, rfl⟩
    refine ⟨text.map String.utf8EncodeChar, ?_, rfl⟩
    intro group hgroup
    obtain ⟨c, -, rfl⟩ := List.mem_map.mp hgroup
    exact group_utf8EncodeChar c

/-- Which character comes first, and what is left behind it, is decided by the bytes. -/
theorem utf8EncodeChar_append_inj {c d : Char} {left right : List UInt8}
    (h : String.utf8EncodeChar c ++ left = String.utf8EncodeChar d ++ right) :
    c = d ∧ left = right := by
  obtain ⟨lead, tail, hc, hlength, hdecode⟩ := utf8EncodeChar_group c
  obtain ⟨lead', tail', hd, hlength', hdecode'⟩ := utf8EncodeChar_group d
  rw [hc, hd, List.cons_append, List.cons_append] at h
  obtain ⟨rfl, hrest⟩ := List.cons_eq_cons.mp h
  have hsame : tail.length = tail'.length := by
    rw [hlength, Option.some.injEq] at hlength'
    omega
  obtain ⟨rfl, hleft⟩ := List.append_inj hrest hsame
  exact ⟨Except.ok.inj (hdecode.symm.trans hdecode'), hleft⟩

/-- No character comes first in these bytes. -/
def Stuck (bytes : List UInt8) : Prop := ∀ c, ¬String.utf8EncodeChar c <+: bytes

/-- A text in front of bytes in which no character comes first is the longest one there. -/
theorem encode_prefix_of_stuck {chars text : List Char} {rest : List UInt8} (hrest : Stuck rest)
    (h : encode text <+: encode chars ++ rest) : encode text <+: encode chars := by
  induction text generalizing chars with
  | nil => exact List.nil_prefix
  | cons c text ih =>
    obtain ⟨left, hleft⟩ := h
    rw [encode_cons, List.append_assoc] at hleft
    cases chars with
    | nil =>
      rw [encode_nil, List.nil_append] at hleft
      exact absurd ⟨_, hleft⟩ (hrest c)
    | cons d chars =>
      rw [encode_cons, List.append_assoc] at hleft
      obtain ⟨rfl, hsame⟩ := utf8EncodeChar_append_inj hleft
      rw [encode_cons, encode_cons, List.prefix_append_right_inj]
      exact ih ⟨left, hsame⟩

theorem longestValid_of_stuck {rest : List UInt8} (hrest : Stuck rest) (chars : List Char) :
    LongestValid (encode chars) (encode chars ++ rest) where
  valid := valid_iff.mpr ⟨chars, rfl⟩
  starts := List.prefix_append _ _
  longest := by
    intro whole hvalid hstarts
    obtain ⟨text, rfl⟩ := valid_iff.mp hvalid
    exact encode_prefix_of_stuck hrest hstarts

/-- Every byte string is a text and bytes in which no character comes first. -/
theorem exists_encode_append_stuck (bytes : List UInt8) :
    ∃ chars rest, encode chars ++ rest = bytes ∧ Stuck rest := by
  induction hlength : bytes.length using Nat.strongRecOn generalizing bytes with
  | ind length ih =>
    by_cases hstuck : Stuck bytes
    · exact ⟨[], bytes, rfl, hstuck⟩
    · obtain ⟨c, hc⟩ := Classical.not_forall.mp hstuck
      obtain ⟨left, rfl⟩ := Classical.not_not.mp hc
      obtain ⟨lead, tail, hgroup, -, -⟩ := utf8EncodeChar_group c
      have hshorter : left.length < length := by
        rw [← hlength, hgroup, List.length_append, List.length_cons]
        omega
      obtain ⟨chars, rest, hchars, hrest⟩ := ih left.length hshorter left rfl
      refine ⟨c :: chars, rest, ?_, hrest⟩
      rw [encode_cons, List.append_assoc, hchars]

end StreamLexer.Utf8
