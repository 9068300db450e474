import StreamLexer.Proofs.Toml.Scalar

/-! # Documents of pairs

A text of lines with a bare key, an equals sign between spaces and a value each is a document as
long as no key comes twice, and its table holds the pairs in their order.
-/

set_option autoImplicit false

namespace StreamLexer.Toml

open StreamLexer.Toml.Parser

/-! ## Keys -/

structure IsBareKey (name : List Char) : Prop where
  ne_nil : name ≠ []
  bare : ∀ c ∈ name, isBare c

theorem isBareKey_iff {name : List Char} :
    IsBareKey name ↔ (!name.isEmpty && name.all isBare) = true := by
  rw [Bool.and_eq_true, List.all_eq_true, Bool.not_eq_true', List.isEmpty_eq_false_iff]
  exact ⟨fun h => ⟨h.ne_nil, h.bare⟩, fun h => ⟨h.1, h.2⟩⟩

section Keys

variable {name rest : List Char}

theorem IsBareKey.head? (hname : IsBareKey name) :
    ∃ c, isBare c ∧ ∀ rest, (name ++ rest).head? = some c := by
  obtain ⟨c, word, rfl⟩ := List.exists_cons_of_ne_nil hname.ne_nil
  exact ⟨c, hname.bare c List.mem_cons_self, fun _ => rfl⟩

theorem IsBareKey.head?_ne (hname : IsBareKey name) {c : Char} (hc : isBare c = false) :
    (name ++ rest).head? ≠ some c := by
  obtain ⟨d, hd, hhead⟩ := hname.head?
  intro h
  rw [Option.some.inj ((hhead rest).symm.trans h), hc] at hd
  cases hd

theorem IsBareKey.blanks (hname : IsBareKey name) :
    blanks (name ++ rest) = some ((), name ++ rest) :=
  blanks_of_head? (hname.head?_ne rfl) (hname.head?_ne rfl)

theorem simpleKey_bare (hname : IsBareKey name) (hrest : ∀ c ∈ rest.head?, isBare c = false) :
    simpleKey (name ++ rest) = some (String.ofList name, rest) := by
  have hbare : simpleKey (name ++ rest) = (do
      let name ← takeWhile isBare
      if name.isEmpty then failure else return String.ofList name : Parser String)
        (name ++ rest) := by
    rw [simpleKey, peek_bind]
    refine congrFun ?_ (name ++ rest)
    split
    · exact absurd ‹_› (hname.head?_ne rfl)
    · exact absurd ‹_› (hname.head?_ne rfl)
    · rfl
  rw [hbare, bind_of_some (takeWhile_append hname.bare hrest),
    if_neg (by simpa using hname.ne_nil)]
  rfl

theorem key_bare (hname : IsBareKey name) :
    key (name ++ ' ' :: '=' :: rest) = some (⟨[], String.ofList name⟩, '=' :: rest) := by
  have hspace : ∀ c ∈ (' ' :: '=' :: rest).head?, isBare c = false := by
    rintro c ⟨⟩
    rfl
  have hpart : keyPart (name ++ ' ' :: '=' :: rest) = some (String.ofList name, '=' :: rest) := by
    rw [keyPart, bind_of_some hname.blanks, bind_of_some (simpleKey_bare hname hspace)]
    rfl
  rw [key, bind_of_some hpart, bind_of_some (repeated_done rfl)]
  rfl

end Keys

/-! ## Lines -/

section Lines

variable {name word rest : List Char} {node : Node}

theorem pair_line (hname : IsBareKey name) (hword : Reads word node) :
    pair (value maxDepth) (name ++ ' ' :: '=' :: ' ' :: (word ++ '\n' :: rest)) =
      some ((⟨[], String.ofList name⟩, node), '\n' :: rest) := by
  have hblanks := blanks_space.trans (hword.blanks rest)
  rw [pair, bind_of_some (key_bare hname), bind_of_some (char_cons '='), bind_of_some hblanks,
    bind_of_some (hword.value rest)]
  rfl

theorem line_pair (hname : IsBareKey name) (hword : Reads word node) :
    line (name ++ ' ' :: '=' :: ' ' :: (word ++ '\n' :: rest)) =
      some (some (.pair ⟨[], String.ofList name⟩ node), rest) := by
  obtain ⟨c, hbare, hhead⟩ := hname.head?
  have hc (d : Char) (hd : isBare d = false) : c ≠ d := by
    rintro rfl
    exact Bool.false_ne_true (hd.symm.trans hbare)
  rw [line, bind_of_some hname.blanks, peek_bind, hhead]
  dsimp only
  rw [if_neg (hc '[' rfl), if_neg (by simp [hc '#' rfl, hc '\n' rfl, hc '\r' rfl]), bind_apply,
    map_apply, pair_line hname hword, Option.map_some, Option.bind_some,
    bind_of_some lineEnd_newline]
  rfl

end Lines

/-! ## Documents -/

/-- The text writes these entries, one on a line. -/
inductive Pairs : List Char → Entries → Prop
  | nil : Pairs [] []
  | cons {name word text : List Char} {node : Node} {entries : Entries} (hname : IsBareKey name)
      (hword : Reads word node) (pairs : Pairs text entries) :
      Pairs (name ++ ' ' :: '=' :: ' ' :: (word ++ '\n' :: text))
        ((String.ofList name, node) :: entries)

namespace Pairs

variable {text : List Char} {entries : Entries}

theorem lines (pairs : Pairs text entries) :
    repeated line text =
      some (entries.map fun entry => .pair ⟨[], entry.1⟩ entry.2, []) := by
  induction pairs with
  | nil => exact repeated_done rfl
  | @cons name word text node entries hname hword pairs ih =>
    rw [repeated_more (line_pair hname hword) (by simp; omega), ih]
    rfl

/-- Neither a key nor the end of the text is a byte order mark. -/
theorem head?_ne_mark (pairs : Pairs text entries) : text.head? ≠ some '\ufeff' := by
  cases pairs with
  | nil => exact Option.some_ne_none _ |>.symm
  | cons hname => exact hname.head?_ne rfl

end Pairs

theorem add_pair {root : Entries} {name : String} (hnew : root.get? name = none) (node : Node) :
    Document.add ⟨root, []⟩ (.pair ⟨[], name⟩ node) = some ⟨root ++ [(name, node)], []⟩ := by
  have hinsert : root.insert [] name node = some (root ++ [(name, node)]) := by
    simp [Entries.insert, Entries.put, hnew]
  simp [Document.add, Entries.editAt, hinsert]

theorem foldlM_add {root entries : Entries} (hnames : ((root ++ entries).map Prod.fst).Nodup) :
    (entries.map fun entry => .pair ⟨[], entry.1⟩ entry.2).foldlM Document.add ⟨root, []⟩ =
      some ⟨root ++ entries, []⟩ := by
  induction entries generalizing root with
  | nil => simp
  | cons entry entries ih =>
    have hnew : root.get? entry.1 = none := by
      rw [Entries.get?, List.lookup_eq_none_iff]
      intro other hother
      rw [List.map_append, List.nodup_append] at hnames
      have hapart := hnames.2.2 other.1 (List.mem_map_of_mem hother) entry.1 List.mem_cons_self
      exact bne_iff_ne.mpr hapart.symm
    rw [List.map_cons, List.foldlM_cons, add_pair hnew, Option.bind_eq_bind, Option.bind_some,
      ih (by simpa using hnames), List.append_assoc, List.singleton_append]

theorem parse_pairs {text : List Char} {entries : Entries} (pairs : Pairs text entries)
    (hnames : (entries.map Prod.fst).Nodup) : parse text = some entries := by
  have hlines : (repeated line).run text = _ := pairs.lines
  have hadd := @foldlM_add [] entries hnames
  rw [parse, if_neg pairs.head?_ne_mark, hlines, Option.bind_eq_bind, Option.bind_some]
  dsimp only
  rw [Document.empty, hadd]
  rfl

end StreamLexer.Toml
