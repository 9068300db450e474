import StreamLexer.Config.Load
import StreamLexer.Proofs.Stream.Encoding
import StreamLexer.Proofs.Toml.Document

/-! # Configurations that are usable

What is loaded has passed the check, as the default does. A configuration that TOML can write is
read back as it was, so whether it can be loaded is up to the check alone.
-/

set_option autoImplicit false

namespace StreamLexer

namespace Config

variable {config : Config}

/-! ## The check -/

structure Usable (config : Config) : Prop where
  capacity : 0 < config.bufferCapacity
  limit : ∀ n ∈ config.maxLiteralLength, 0 < n

theorem defect?_eq_none_iff : config.defect? = none ↔ config.Usable := by
  rw [defect?]
  split
  · next hcapacity => exact ⟨nofun, fun h => absurd hcapacity (Nat.ne_of_gt h.capacity)⟩
  · next hcapacity =>
    split
    · next hlimit => exact ⟨nofun, fun h => absurd (h.limit 0 hlimit) (Nat.lt_irrefl 0)⟩
    · next hlimit =>
      refine ⟨fun _ => ⟨Nat.pos_of_ne_zero hcapacity, fun n hn => ?_⟩, fun _ => rfl⟩
      exact Nat.pos_of_ne_zero fun hzero => hlimit (hzero ▸ hn)

theorem validate_eq_ok_iff : config.validate = .ok () ↔ config.Usable := by
  rw [← defect?_eq_none_iff, validate]
  cases config.defect? with
  | none => exact ⟨fun _ => rfl, fun _ => rfl⟩
  | some defect => exact ⟨nofun, nofun⟩

theorem usable_default : Usable {} :=
  ⟨by decide, nofun⟩

/-! ## Tables -/

/-- A table counts by what it holds under the names of the settings. -/
theorem ofTable?_congr {table other : Toml.Entries}
    (h : ∀ name ∈ ["buffer_capacity", "skip_bom", "max_literal_len"],
      table.get? name = other.get? name) : ofTable? table = ofTable? other := by
  simp only [List.forall_mem_cons] at h
  obtain ⟨hcapacity, hmark, hlimit, -⟩ := h
  simp only [ofTable?, setting, hcapacity, hmark, hlimit]

/-- Settings that are missing stand for their defaults. -/
theorem ofTable?_default {table : Toml.Entries}
    (h : ∀ name ∈ ["buffer_capacity", "skip_bom", "max_literal_len"], table.get? name = none) :
    ofTable? table = some {} :=
  @ofTable?_congr table [] h

theorem validate_bind_eq_ok_iff {found : Config} :
    (do found.validate; return found) = Except.ok config ↔ found = config ∧ config.Usable := by
  rw [← validate_eq_ok_iff]
  cases hvalid : found.validate with
  | error error =>
    refine ⟨nofun, ?_⟩
    rintro ⟨rfl, h⟩
    exact nomatch hvalid.symm.trans h
  | ok _ =>
    refine ⟨fun h => ?_, fun h => congrArg Except.ok h.1⟩
    obtain rfl : found = config := Except.ok.inj h
    exact ⟨rfl, hvalid⟩

theorem ofToml_eq_ok_iff {text : List Char} :
    ofToml text = .ok config ↔
      (Toml.parse text >>= ofTable?) = some config ∧ config.Usable := by
  rw [ofToml]
  cases Toml.parse text >>= ofTable? with
  | none => exact ⟨nofun, fun h => nomatch h.1⟩
  | some found => exact validate_bind_eq_ok_iff.trans (by rw [Option.some.injEq])

section Files

variable {file : Option (List UInt8)}

theorem load_eq_ok_iff :
    load file = .ok config ↔
      ∃ text, file.bind Utf8.decode? = some text ∧ ofToml text = .ok config := by
  cases file with
  | none => exact ⟨nofun, fun ⟨_, h, _⟩ => nomatch h⟩
  | some bytes =>
    rw [load, Option.bind_some]
    cases Utf8.decode? bytes with
    | none => exact ⟨nofun, fun ⟨_, h, _⟩ => nomatch h⟩
    | some text => simp

theorem usable_of_load (h : load file = .ok config) : config.Usable := by
  obtain ⟨text, -, htext⟩ := load_eq_ok_iff.mp h
  exact (ofToml_eq_ok_iff.mp htext).2

end Files

/-! ## Reading back -/

def entries (config : Config) : Toml.Entries :=
  ("buffer_capacity", .integer config.bufferCapacity) :: ("skip_bom", .boolean config.skipMark) ::
    match config.maxLiteralLength with
    | none => []
    | some n => [("max_literal_len", .integer n)]

theorem ofTable?_entries (config : Config) : ofTable? config.entries = some config := by
  obtain ⟨capacity, mark, limit⟩ := config
  cases limit <;>
    simp [entries, ofTable?, setting, Toml.Entries.get?, natural, boolean, List.lookup_cons]

theorem nodup_entries (config : Config) : (config.entries.map Prod.fst).Nodup := by
  obtain ⟨capacity, mark, limit⟩ := config
  cases limit <;> simp [entries]

/-- A written setting is the line of a pair. -/
theorem pairs_setting {setting name word : String} {node : Toml.Node} {text : List Char}
    {entries : Toml.Entries} (hsetting : setting.toList = name.toList ++ [' ', '=', ' '])
    (hname : Toml.IsBareKey name.toList) (hword : Toml.Reads word.toList node)
    (pairs : Toml.Pairs text entries) :
    Toml.Pairs (setting.toList ++ (word.toList ++ ("\n".toList ++ text)))
      ((name, node) :: entries) := by
  have hpair := Toml.Pairs.cons hname hword pairs
  rw [String.ofList_toList] at hpair
  rw [hsetting, List.append_assoc]
  exact hpair

theorem toToml?_isSome_iff :
    config.toToml?.isSome ↔
      config.bufferCapacity ≤ Toml.maxInteger ∧
        ∀ n ∈ config.maxLiteralLength, (n : Int) ≤ Toml.maxInteger := by
  simp [toToml?, Option.all_eq_true]

theorem toToml?_pairs {text : String} (h : config.toToml? = some text) :
    Toml.Pairs text.toList config.entries := by
  obtain ⟨hcapacity, hlimit⟩ := toToml?_isSome_iff.mp (Option.isSome_of_eq_some h)
  obtain ⟨capacity, mark, limit⟩ := config
  have hreads {n : Nat} (hn : (n : Int) ≤ Toml.maxInteger) :
      Toml.Reads (Nat.repr n).toList (.integer n) := by
    rw [Nat.toList_repr]
    exact Toml.reads_digits hn
  simp only [toToml?] at h
  split at h
  · cases h
    simp only [String.toList_append, List.append_assoc]
    apply pairs_setting rfl (Toml.isBareKey_iff.mpr rfl) (hreads hcapacity)
    apply pairs_setting rfl (Toml.isBareKey_iff.mpr rfl) (Toml.reads_boolean mark)
    cases limit with
    | none => exact .nil
    | some n =>
      simp only [String.toList_append, List.append_assoc]
      exact pairs_setting rfl (Toml.isBareKey_iff.mpr rfl) (hreads (hlimit n rfl)) .nil
  · cases h

theorem ofToml_toToml? {text : String} (h : config.toToml? = some text) :
    ofToml text.toList = (do config.validate; return config) := by
  have hparse := Toml.parse_pairs (toToml?_pairs h) (nodup_entries config)
  rw [ofToml, hparse, Option.bind_eq_bind, Option.bind_some, ofTable?_entries]

/-- A usable configuration is loaded from the file that it is written to. -/
theorem load_toToml? (husable : config.Usable) {text : String} (h : config.toToml? = some text) :
    load (some (Utf8.encode text.toList)) = .ok config := by
  rw [load, Utf8.decode?_encode]
  dsimp only
  rw [ofToml_toToml? h, validate_eq_ok_iff.mpr husable]
  rfl

end Config

end StreamLexer
