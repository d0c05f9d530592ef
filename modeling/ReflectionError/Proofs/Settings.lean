import ReflectionError.Proofs.CommandLine.Run
import ReflectionError.Proofs.Json.Filling
import ReflectionError.Proofs.Json.Literal

/-!
# ReflectionError.Proofs.Settings

The options that a run reads payloads with: what a flag says, or else the settings file, or else the
default, and this for each option by itself.

* `Options.IsValid`, `Settings.IsValid`: the objects that are options, and those that are settings.
* `Options.exists_fill_iff`, `Settings.exists_fill_iff`: those are the objects whose members can be
  put in.
* `Options.update_frame`: a member changes the option that it is named for, and no other.
* `Options.strictText_of_fill`, `nestingLimit_of_fill`, `sizeLimit_of_fill`: what comes out for one
  option. `Settings.options_of_fill`: with the flags, `Options.resolve`.
* `Settings.parse_eq_ok_iff`: settings from a text that is an object.
* `Settings.Loads`: settings from a file, whatever it holds.
* `CommandLine.options_resolution`: when a settings file is read, and the options of the run.
-/

namespace ReflectionError

open Json

/-! ## Values of options -/

namespace Json.Value

def boolean? : Value → Option Bool
  | .boolean b => some b
  | _ => none

/-- A number that is written as digits only. -/
def natural? : Value → Option Nat
  | .number (.integer (.ofNat n)) => some n
  | _ => none

def IsBoolean (v : Value) : Prop := ∃ b, v = .boolean b

def IsNatural (v : Value) (bound : Nat) : Prop := ∃ n : Nat, n < bound ∧ v = .number (.integer n)

end Json.Value

/-! ## Options from members -/

namespace Options

def scheme : Scheme Options where
  names := ["strict_utf8", "recursion_limit", "max_message_size"]
  update key v :=
    if key = "strict_utf8" then
      (Leaf.boolean.judge v).accepted?.map fun strictText o => { o with strictText }
    else if key = "recursion_limit" then
      ((Leaf.natural (UInt32.size - 1) "u32").judge v).accepted?.map fun nestingLimit o =>
        { o with nestingLimit }
    else if key = "max_message_size" then
      ((Leaf.natural (UInt64.size - 1) "usize").optional.judge v).accepted?.map fun sizeLimit o =>
        { o with sizeLimit }
    else none

theorem follows (members : List (String × Value)) : record.Follows scheme members where
  names := rfl
  updates m _ field hfield hname := by
    simp only [record, List.mem_cons, List.not_mem_nil, or_false] at hfield
    rcases hfield with rfl | rfl | rfl
    · rw [← hname]
      exact Leaf.updates Leaf.isPlain_boolean _ _ m.2
    · rw [← hname]
      exact Leaf.updates (Leaf.isPlain_natural _ _) _ _ m.2
    · rw [← hname]
      exact Leaf.updates (Leaf.isPlain_optional_natural _ _) _ _ m.2

/-- The members are options: each of the three is there once at most and holds a value for it. The
other members may be anything. -/
structure IsValid (members : List (String × Value)) : Prop where
  strictText : Once members "strict_utf8" Value.IsBoolean
  nestingLimit : Once members "recursion_limit" (·.IsNatural (2 ^ 32))
  sizeLimit : Once members "max_message_size" fun v => v = .null ∨ v.IsNatural (2 ^ 64)

theorem update_strictText (v : Value) : scheme.update "strict_utf8" v =
    (Leaf.boolean.judge v).accepted?.map fun strictText o => { o with strictText } := rfl

theorem update_nestingLimit (v : Value) : scheme.update "recursion_limit" v =
    ((Leaf.natural (UInt32.size - 1) "u32").judge v).accepted?.map fun nestingLimit o =>
      { o with nestingLimit } := rfl

theorem update_sizeLimit (v : Value) : scheme.update "max_message_size" v =
    ((Leaf.natural (UInt64.size - 1) "usize").optional.judge v).accepted?.map fun sizeLimit o =>
      { o with sizeLimit } := rfl

theorem takes_strictText {v : Value} : scheme.Takes "strict_utf8" v ↔ v.IsBoolean := by
  rw [Scheme.takes_iff_isSome, update_strictText, Option.isSome_map, Option.isSome_iff_exists]
  exact exists_congr fun b => Leaf.accepted?_boolean

theorem takes_nestingLimit {v : Value} :
    scheme.Takes "recursion_limit" v ↔ v.IsNatural (2 ^ 32) := by
  rw [Scheme.takes_iff_isSome, update_nestingLimit, Option.isSome_map, Option.isSome_iff_exists]
  have hbound (n : Nat) : n ≤ UInt32.size - 1 ↔ n < 2 ^ 32 := Nat.le_sub_one_iff_lt (by decide)
  simp only [Leaf.accepted?_natural, hbound]
  exact Iff.rfl

theorem takes_sizeLimit {v : Value} :
    scheme.Takes "max_message_size" v ↔ v = .null ∨ v.IsNatural (2 ^ 64) := by
  rw [Scheme.takes_iff_isSome, update_sizeLimit, Option.isSome_map, Option.isSome_iff_exists]
  have hbound (n : Nat) : n ≤ UInt64.size - 1 ↔ n < 2 ^ 64 := Nat.le_sub_one_iff_lt (by decide)
  simp only [Leaf.accepted?_optional_natural, hbound]
  constructor
  · rintro ⟨_, ⟨hnull, -⟩ | ⟨n, hn, hv, -⟩⟩
    · exact .inl hnull
    · exact .inr ⟨n, hn, hv⟩
  · rintro (hnull | ⟨n, hn, hv⟩)
    · exact ⟨none, .inl ⟨hnull, rfl⟩⟩
    · exact ⟨some n, .inr ⟨n, hn, hv, rfl⟩⟩

theorem exists_fill_iff {members : List (String × Value)} :
    (∃ o, scheme.fill [] {} members = some o) ↔ IsValid members := by
  rw [Scheme.exists_fill_iff]
  constructor
  · intro h
    exact {
      strictText := (Once.congr fun _ => takes_strictText).1 (h "strict_utf8" (by decide)).2
      nestingLimit :=
        (Once.congr fun _ => takes_nestingLimit).1 (h "recursion_limit" (by decide)).2
      sizeLimit := (Once.congr fun _ => takes_sizeLimit).1 (h "max_message_size" (by decide)).2 }
  · intro h key hkey
    refine ⟨fun hseen => (nomatch hseen), ?_⟩
    simp only [scheme, List.mem_cons, List.not_mem_nil, or_false] at hkey
    rcases hkey with rfl | rfl | rfl
    · exact (Once.congr fun _ => takes_strictText).2 h.strictText
    · exact (Once.congr fun _ => takes_nestingLimit).2 h.nestingLimit
    · exact (Once.congr fun _ => takes_sizeLimit).2 h.sizeLimit

theorem update_frame {key : String} {v : Value} {f : Options → Options}
    (h : scheme.update key v = some f) (o : Options) :
    (key ≠ "strict_utf8" → (f o).strictText = o.strictText) ∧
      (key ≠ "recursion_limit" → (f o).nestingLimit = o.nestingLimit) ∧
      (key ≠ "max_message_size" → (f o).sizeLimit = o.sizeLimit) := by
  simp only [scheme] at h
  split at h
  · next hkey =>
    obtain ⟨b, -, rfl⟩ := Option.map_eq_some_iff.1 h
    exact ⟨fun hne => absurd hkey hne, fun _ => rfl, fun _ => rfl⟩
  split at h
  · next hkey =>
    obtain ⟨n, -, rfl⟩ := Option.map_eq_some_iff.1 h
    exact ⟨fun _ => rfl, fun hne => absurd hkey hne, fun _ => rfl⟩
  split at h
  · next hkey =>
    obtain ⟨n?, -, rfl⟩ := Option.map_eq_some_iff.1 h
    exact ⟨fun _ => rfl, fun _ => rfl, fun hne => absurd hkey hne⟩
  · cases h

section Filled

variable {members : List (String × Value)} {o : Options} (h : scheme.fill [] {} members = some o)
include h

theorem strictText_of_fill :
    o.strictText = ((lookup? members "strict_utf8").bind Value.boolean?).getD true := by
  rcases Scheme.get_of_fill strictText (by decide)
      (fun _ _ _ hne hf c => (update_frame hf c).1 hne) h with
    ⟨hnone, ho⟩ | ⟨v, f, c, hv, hf, ho⟩
  · rw [ho, hnone]
    rfl
  · obtain ⟨b, hb, rfl⟩ := Option.map_eq_some_iff.1 (update_strictText v ▸ hf)
    rw [ho, hv, Leaf.accepted?_boolean.1 hb]
    rfl

theorem nestingLimit_of_fill :
    o.nestingLimit = ((lookup? members "recursion_limit").bind Value.natural?).getD 100 := by
  rcases Scheme.get_of_fill nestingLimit (by decide)
      (fun _ _ _ hne hf c => (update_frame hf c).2.1 hne) h with
    ⟨hnone, ho⟩ | ⟨v, f, c, hv, hf, ho⟩
  · rw [ho, hnone]
    rfl
  · obtain ⟨n, hn, rfl⟩ := Option.map_eq_some_iff.1 (update_nestingLimit v ▸ hf)
    rw [ho, hv, (Leaf.accepted?_natural.1 hn).2]
    rfl

theorem sizeLimit_of_fill :
    o.sizeLimit = (lookup? members "max_message_size").bind Value.natural? := by
  rcases Scheme.get_of_fill sizeLimit (by decide)
      (fun _ _ _ hne hf c => (update_frame hf c).2.2 hne) h with
    ⟨hnone, ho⟩ | ⟨v, f, c, hv, hf, ho⟩
  · rw [ho, hnone]
    rfl
  · obtain ⟨n?, hn, rfl⟩ := Option.map_eq_some_iff.1 (update_sizeLimit v ▸ hf)
    rw [ho, hv]
    rcases Leaf.accepted?_optional_natural.1 hn with ⟨rfl, rfl⟩ | ⟨n, -, rfl, rfl⟩
    · rfl
    · rfl

end Filled

end Options

/-! ## Settings from members -/

/-- What a settings file says of the options, with nothing for those it leaves out. A size limit of
null counts as left out. -/
structure Stated where
  strictText : Option Bool := none
  nestingLimit : Option Nat := none
  sizeLimit : Option Nat := none

def Stated.ofMembers (members : List (String × Value)) : Stated where
  strictText := (lookup? members "strict_utf8").bind Value.boolean?
  nestingLimit := (lookup? members "recursion_limit").bind Value.natural?
  sizeLimit := (lookup? members "max_message_size").bind Value.natural?

/-- What a flag says, or else the settings file, or else the default: each option by itself. -/
def Options.resolve (flags : Overrides) (stated : Stated) : Options where
  strictText := if flags.lossy then false else stated.strictText.getD true
  nestingLimit := (flags.nestingLimit.or stated.nestingLimit).getD 100
  sizeLimit := flags.sizeLimit.or stated.sizeLimit

namespace Settings

def scheme : Scheme Settings where
  names := ["decode"]
  update key v :=
    if key = "decode" then
      match v with
      | .object members => (Options.scheme.fill [] {} members).map fun decode _ => { decode }
      | _ => none
    else none

/-- Every value that is there for the options is an object. -/
def HoldsObjects (members : List (String × Value)) : Prop :=
  ∀ v, ("decode", v) ∈ members → ∃ inner, v = .object inner

theorem follows {members : List (String × Value)} (h : HoldsObjects members) :
    record.Follows scheme members where
  names := rfl
  updates m hm field hfield hname := by
    obtain ⟨key, v⟩ := m
    simp only [record, List.mem_cons, List.not_mem_nil, or_false] at hfield
    subst hfield
    have hkey : key = "decode" := hname.symm
    subst hkey
    obtain ⟨inner, rfl⟩ := h v hm
    exact Record.updates "decode" {} _ (Options.follows inner)

/-- The members are settings: the options are there once at most, and are options. -/
def IsValid (members : List (String × Value)) : Prop :=
  Once members "decode" fun v => ∃ inner, v = .object inner ∧ Options.IsValid inner

theorem takes_decode {v : Value} :
    scheme.Takes "decode" v ↔ ∃ inner, v = .object inner ∧ Options.IsValid inner := by
  constructor
  · rintro ⟨f, hf⟩
    simp only [scheme, if_pos] at hf
    split at hf
    · next inner =>
      obtain ⟨o, ho, -⟩ := Option.map_eq_some_iff.1 hf
      exact ⟨inner, rfl, Options.exists_fill_iff.1 ⟨o, ho⟩⟩
    · cases hf
  · rintro ⟨inner, rfl, hvalid⟩
    obtain ⟨o, ho⟩ := Options.exists_fill_iff.2 hvalid
    exact ⟨_, by simp only [scheme, if_pos, ho]; rfl⟩

theorem exists_fill_iff {members : List (String × Value)} :
    (∃ settings, scheme.fill [] {} members = some settings) ↔ IsValid members := by
  rw [Scheme.exists_fill_iff]
  constructor
  · intro h
    exact (Once.congr fun _ => takes_decode).1 (h "decode" (by decide)).2
  · intro h key hkey
    obtain rfl : key = "decode" := List.mem_singleton.1 hkey
    exact ⟨fun hseen => (nomatch hseen), (Once.congr fun _ => takes_decode).2 h⟩

/-- What the members say of the options. -/
def stated (members : List (String × Value)) : Stated :=
  match lookup? members "decode" with
  | some (.object inner) => .ofMembers inner
  | _ => {}

theorem options_eq {o : Options} {flags : Overrides} {said : Stated}
    (hstrict : o.strictText = said.strictText.getD true)
    (hnesting : o.nestingLimit = said.nestingLimit.getD 100)
    (hsize : o.sizeLimit = said.sizeLimit) :
    Settings.options { decode := o } flags = Options.resolve flags said := by
  obtain ⟨lossy, nestingLimit, sizeLimit⟩ := flags
  simp only [options, Options.resolve, hstrict, hnesting, hsize, Options.mk.injEq, and_true]
  constructor
  · cases lossy with
    | false => simp
    | true => simp
  · cases nestingLimit with
    | none => rfl
    | some n => rfl

theorem options_of_fill {members : List (String × Value)} {settings : Settings}
    (h : scheme.fill [] {} members = some settings) (flags : Overrides) :
    settings.options flags = Options.resolve flags (stated members) := by
  have hother (name : String) (v : Value) (f : Settings → Settings) (hne : name ≠ "decode")
      (hf : scheme.update name v = some f) (c : Settings) : (f c).decode = c.decode := by
    simp only [scheme, if_neg hne] at hf
    cases hf
  rcases Scheme.get_of_fill decode (by decide) hother h with
    ⟨hnone, hs⟩ | ⟨v, f, c, hv, hf, hs⟩
  · rw [stated, hnone]
    exact options_eq (congrArg Options.strictText hs) (congrArg Options.nestingLimit hs)
      (congrArg Options.sizeLimit hs)
  · simp only [scheme, if_pos] at hf
    split at hf
    · next inner =>
      obtain ⟨o, ho, rfl⟩ := Option.map_eq_some_iff.1 hf
      have hdecode : settings.decode = o := hs
      rw [stated, hv]
      subst hdecode
      exact options_eq (Options.strictText_of_fill ho) (Options.nestingLimit_of_fill ho)
        (Options.sizeLimit_of_fill ho)
    · cases hf

theorem parse_eq_ok_iff {text : String} {members : List (String × Value)} {settings : Settings}
    (htext : Value.parse text = .ok (.object members)) (hobjects : HoldsObjects members) :
    parse text = .ok settings ↔ scheme.fill [] {} members = some settings := by
  obtain ⟨rest, hread, hrest⟩ := readAll_eq_ok_iff.1 htext
  rw [parse, readAll_eq_ok_iff]
  constructor
  · rintro ⟨rest', h, -⟩
    obtain ⟨b, hb, he⟩ := (Record.read_eq_ok_iff hread (follows hobjects)).1 h
    cases he
    exact hb
  · intro h
    exact ⟨rest, (Record.read_eq_ok_iff hread (follows hobjects)).2 ⟨settings, h, rfl⟩, hrest⟩

theorem load_content {bytes : List UInt8} {text : String} {settings : Settings}
    (htext : Utf8.decode bytes = .ok text) :
    load (.content bytes) = .ok settings ↔ parse text = .ok settings := by
  simp only [load, htext]
  cases parse text with
  | error e => simp
  | ok s => simp

/-- What is in a settings file, and what comes of reading it. -/
inductive Loads : File → Except LoadError Settings → Prop where
  | missing : Loads .missing (.ok {})
  | unreadable (fault : File.Fault) : Loads (.unreadable fault) (.error (.unreadable fault))
  | notText {bytes : List UInt8} (fault : ∀ text, bytes ≠ Utf8.encode text) :
      Loads (.content bytes) (.error .notText)
  | valid {text : String} {settings : Settings} (read : parse text = .ok settings) :
      Loads (.content (Utf8.encode text)) (.ok settings)
  | invalid {text : String} {e : Json.Error} (refused : parse text = .error e) :
      Loads (.content (Utf8.encode text)) (.error (.invalid e))

theorem loads_iff {file : File} {outcome : Except LoadError Settings} :
    Loads file outcome ↔ load file = outcome := by
  constructor
  · intro h
    cases h with
    | missing => rfl
    | unreadable fault => rfl
    | notText fault =>
      obtain ⟨fault, hfault⟩ := Utf8.decode_eq_error_iff.2 fault
      simp only [load, hfault]
    | valid read => simp only [load, Utf8.decode_encode, read]
    | invalid refused => simp only [load, Utf8.decode_encode, refused]
  · rintro rfl
    cases file with
    | missing => exact .missing
    | unreadable fault => exact .unreadable fault
    | content bytes =>
      cases htext : Utf8.decode bytes with
      | error fault =>
        simp only [load, htext]
        exact .notText (Utf8.decode_eq_error_iff.1 ⟨fault, htext⟩)
      | ok text =>
        obtain rfl := Utf8.encode_of_decode htext
        cases hparse : parse text with
        | ok settings =>
          simp only [load, htext, hparse]
          exact .valid hparse
        | error e =>
          simp only [load, htext, hparse]
          exact .invalid hparse

end Settings

namespace CommandLine

theorem loadSettings_eq_ok_iff {around : Surroundings} {i : Invocation} {path : String}
    {settings : Settings} (hpath : settingsPath around i = some path) :
    loadSettings around i = .ok settings ↔ Settings.load (around.file path) = .ok settings := by
  rw [loadSettings, hpath]
  exact Except.mapError_eq_ok_iff

theorem loadSettings_of_missing {around : Surroundings} {i : Invocation}
    (h : ∀ path, settingsPath around i = some path → around.file path = .missing) :
    loadSettings around i = .ok {} := by
  cases hpath : settingsPath around i with
  | none => rw [loadSettings, hpath]
  | some path =>
    rw [loadSettings_eq_ok_iff hpath, h path hpath]
    rfl

/-- Settings from a text that is an object, whatever else it holds: they are read if and only if the
options are there once at most, and in them each option once at most and with a value for it. The
options of the run are then those of the flags, or else those of the text, or else the defaults,
each by itself. If there is no settings file they are those of the flags, or else the defaults. The
numbers that are values are those that are written as digits only. -/
theorem options_resolution (around : Surroundings) (i : Invocation) :
    (∀ path bytes text members, settingsPath around i = some path →
      around.file path = .content bytes → Utf8.decode bytes = .ok text →
      Value.parse text = .ok (.object members) → Settings.HoldsObjects members →
      ((∃ settings, loadSettings around i = .ok settings) ↔ Settings.IsValid members) ∧
      (Settings.IsValid members → execute around i =
        perform around (Options.resolve i.overrides (Settings.stated members)) i.command)) ∧
    ((∀ path, settingsPath around i = some path → around.file path = .missing) →
      execute around i = perform around (Options.resolve i.overrides {}) i.command) ∧
    ∀ s rest (n : Nat), readValue .keep s = .ok (.number (.integer n), rest) ↔
      n < 2 ^ 64 ∧ EndsNumber rest ∧ skipBlank s = Nat.toDigits 10 n ++ rest := by
  refine ⟨?_, ?_, fun _ _ _ => readValue_eq_natural_iff⟩
  · intro path bytes text members hpath hfile hbytes htext hobjects
    have hload (settings : Settings) : loadSettings around i = .ok settings ↔
        Settings.scheme.fill [] {} members = some settings := by
      rw [loadSettings_eq_ok_iff hpath, hfile, Settings.load_content hbytes,
        Settings.parse_eq_ok_iff htext hobjects]
    refine ⟨(exists_congr hload).trans Settings.exists_fill_iff, fun hvalid => ?_⟩
    obtain ⟨settings, hfill⟩ := Settings.exists_fill_iff.2 hvalid
    rw [execute_of_loadSettings ((hload settings).2 hfill), Settings.options_of_fill hfill]
  · intro hmissing
    rw [execute_of_loadSettings (loadSettings_of_missing hmissing)]
    exact congrArg (perform around · i.command) (Settings.options_eq rfl rfl rfl)

/-- A file with other members at both levels and without one of the options, and a size limit of
null. One flag is against the file, and one stands in for the null. If the file is not there, the
nesting limit is the default. -/
theorem options_resolution_null_size_limit :
    let inner : List (String × Value) :=
      [("max_message_size", .null), ("recursion_limit", .number (.integer 8)),
        ("strict", .array [.boolean true])]
    let members : List (String × Value) := [("theme", .string "dark"), ("decode", .object inner)]
    let around : Surroundings :=
      { file := fun _ => .content (Utf8.encode (Value.object members).compact)
        homePath := some "refwire.json", stdin := [], color := false }
    let bare : Surroundings := { around with file := fun _ => .missing }
    let i : Invocation :=
      { command := .decode .stdin, config := none
        overrides := { lossy := true, sizeLimit := some 64 } }
    (∃ settings, loadSettings around i = .ok settings) ∧
      execute around i = perform around
        { strictText := false, nestingLimit := 8, sizeLimit := some 64 } (.decode .stdin) ∧
      execute bare i = perform bare
        { strictText := false, nestingLimit := 100, sizeLimit := some 64 } (.decode .stdin) := by
  intro inner members around bare i
  have hreadable : (Value.object members).Readable maxDepth := by
    have hnumber : (Number.integer 8).IsWhole := isWhole_natural (n := 8) (by decide)
    simp [members, inner, Value.Readable, maxDepth, hnumber]
  have hobject {v : Value} (hv : ("decode", v) ∈ members) : v = .object inner := by
    simpa [members] using hv
  have hinner : Options.IsValid inner :=
    { strictText := once_of_notMem (by decide)
      nestingLimit := ⟨by decide, fun v hv => ⟨8, by decide, by simpa [inner] using hv⟩⟩
      sizeLimit := ⟨by decide, fun v hv => .inl (by simpa [inner] using hv)⟩ }
  have hvalid : Settings.IsValid members :=
    ⟨by decide, fun v hv => ⟨inner, hobject hv, hinner⟩⟩
  obtain ⟨hload, hexecute⟩ := (options_resolution around i).1 "refwire.json" _ _ members rfl rfl
    (Utf8.decode_encode _) (parse_compact hreadable) fun v hv => ⟨inner, hobject hv⟩
  exact ⟨hload.2 hvalid, hexecute hvalid, (options_resolution bare i).2.1 fun _ _ => rfl⟩

end CommandLine

end ReflectionError
