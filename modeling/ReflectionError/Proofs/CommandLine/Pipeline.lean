import ReflectionError.Proofs.CommandLine.Flags
import ReflectionError.Proofs.CommandLine.Run
import ReflectionError.Proofs.Report.Reply
import ReflectionError.Proofs.Text.Hex

/-!
# ReflectionError.Proofs.CommandLine.Pipeline

What `encode` prints is what `decode` and `inspect` show.

* `Line`: a command line with flags, whose settings are read.
* `run_encode`, `run_decode`, `run_inspect`: what such a line prints.
* `Carries.loads`: a printed payload comes back through an argument and through the input.
* `pipeline`: from a code and a text to what is shown of them.
-/

namespace ReflectionError
namespace CommandLine

/-! ## Runs -/

/-- The words are a command, `core` behind it and flags in any place, and the settings of the run
are read. It reads payloads with the options. The settings do not depend on which command it is. -/
inductive Line (around : Surroundings) (word : String) (core : List String) :
    List String → Options → Prop where
  | intro {before behind : List String} {g g' : Given} {settings : Settings} (command : Command)
      (front : Flags {} before g) (inner : Interleaved {} core behind g')
      (loads : loadSettings around (invocation g command g') = .ok settings) :
      Line around word core (before ++ word :: behind)
        (settings.options (invocation g command g').overrides)

theorem run_of_prints {around : Surroundings} {words : List String} {i : Invocation}
    {settings : Settings} {result : String} (hp : parse words = .ok i)
    (hs : loadSettings around i = .ok settings)
    (hr : Prints around (settings.options i.overrides) i.command result) :
    run around words = ⟨0, result ++ "\n", ""⟩ := by
  refine run_of_execute_ok hp ?_
  rw [execute_of_loadSettings hs]
  exact perform_eq_ok_iff.2 hr

section Runs

variable {around : Surroundings} {core words : List String} {o : Options}

theorem run_encode {C s : String} {c : Int32} (hc : readCode C = .ok c)
    (hcore : EncodeWords C s core) (h : Line around "encode" core words o) :
    run around words = ⟨0, Hex.encode (Reply.new c s).encode ++ "\n", ""⟩ := by
  obtain ⟨_, front, inner, loads⟩ := h
  exact run_of_prints (parse_line rfl front (readCommand_encode hc hcore inner)) loads (.encode c s)

variable {word : String} {payload : Payload} {bytes : List UInt8}

theorem run_decode {r : Reply} (hw : IsPlain word) (hr : readPayload word = .ok payload)
    (hl : loadPayload around payload = .ok bytes) (hd : Reply.decode bytes o = .ok r)
    (h : Line around "decode" [word] words o) :
    run around words = ⟨0, "\n" ++ Report.reply around.color r ++ "\n\n", ""⟩ := by
  obtain ⟨_, front, inner, loads⟩ := h
  have hprints := Prints.decode (loadPayload_eq_ok_iff.1 hl) hd
  rw [← Report.append_newlines]
  exact run_of_prints (parse_line rfl front (readCommand_decode hw hr inner)) loads hprints

theorem run_inspect {fs : List RawField} (hw : IsPlain word) (hr : readPayload word = .ok payload)
    (hl : loadPayload around payload = .ok bytes) (hd : readFields bytes o = .ok fs)
    (h : Line around "inspect" [word] words o) :
    run around words = ⟨0, "\n" ++ Report.fields around.color fs ++ "\n\n", ""⟩ := by
  obtain ⟨_, front, inner, loads⟩ := h
  have hprints := Prints.inspect (loadPayload_eq_ok_iff.1 hl) hd
  rw [← Report.append_newlines]
  exact run_of_prints (parse_line rfl front (readCommand_inspect hw hr inner)) loads hprints

end Runs

/-! ## What was printed as a payload -/

/-- The word hands on what was printed: as it stands but for the end of the line, or as a dash if it
is the input. -/
def Carries (around : Surroundings) (word hex : String) : Prop :=
  word = hex ∨ (word = "-" ∧ around.stdin = Utf8.encode (hex ++ "\n"))

theorem Carries.loads {around : Surroundings} {word : String} {bytes : List UInt8}
    (h : Carries around word (Hex.encode bytes)) :
    ∃ payload, IsPlain word ∧ readPayload word = .ok payload ∧
      loadPayload around payload = .ok bytes := by
  have hdash : '-' ∉ (Hex.encode bytes).toList := fun hc =>
    Hex.marks_notMem_digits.2.2 (Hex.mem_digits_of_mem_encode hc)
  rcases h with rfl | ⟨rfl, hstdin⟩
  · have hne : Hex.encode bytes ≠ "-" := by
      intro he
      rw [he] at hdash
      exact hdash (by decide)
    refine ⟨.bytes bytes, .inr fun hc => hdash (List.mem_of_mem_head? hc), ?_, rfl⟩
    rw [readPayload, if_neg hne, Hex.decode_encode]
  · refine ⟨.stdin, .inl rfl, rfl, ?_⟩
    rw [loadPayload, hstdin, Utf8.decode_encode]
    simp only [Hex.decode_encode_newline]
    rfl

/-- `encode` prints the digits of a reply. `decode` of them, or of the output itself, shows the code
and the text that it was given: their JSON form, an empty line, and the status with the label and
the number of the code. `inspect` lists those of the two that are set. -/
theorem pipeline {c : Int32} {C s : String} (hC : NamesCode c C)
    (hs : s.utf8ByteSize < 2 ^ 63) {around : Surroundings}
    {core words : List String} {o : Options} (hcore : EncodeWords C s core)
    (h : Line around "encode" core words o) :
    ∃ hex, run around words = ⟨0, hex ++ "\n", ""⟩ ∧
      (∀ d ∈ hex.toList, d ∈ "0123456789abcdef".toList) ∧
      ∀ (around' : Surroundings) (word : String) (words' : List String) (o' : Options),
        Carries around' word hex → o'.Admits (Reply.new c s).encodedLength →
        (Line around' "decode" [word] words' o' → run around' words' =
          ⟨0, "\n" ++ "\n".intercalate (Report.jsonLines (Reply.new c s)) ++ "\n\n" ++
            Report.styled around'.color "36" "status:" ++ " " ++
            Report.styled around'.color "32" (Report.codeLabel c) ++
            " (" ++ toString c.toInt ++ ")" ++ "\n\n", ""⟩) ∧
        (Line around' "inspect" [word] words' o' → run around' words' =
          ⟨0, "\n" ++ Report.listing around'.color (Report.declaredLines around'.color c s) ++
            "\n\n", ""⟩) := by
  refine ⟨Hex.encode (Reply.new c s).encode, run_encode (readCode_of_namesCode hC) hcore h,
    fun _ => Hex.mem_digits_of_mem_encode, fun around' word words' o' hcarries ha => ?_⟩
  obtain ⟨payload, hw, hr, hl⟩ := hcarries.loads
  have hwire := Reply.FromWire.new 0 c hs
  constructor
  · intro h'
    rw [run_decode hw hr hl (hwire.decode_encode (Nat.zero_le _) ha) h', Report.reply_new]
    simp only [String.append_assoc]
  · intro h'
    have hfields := Reply.readFields_encode hwire.text_lt nofun ha
    have htext : s.utf8ByteSize < 2 ^ 64 := hwire.text_lt
    rw [run_inspect hw hr hl hfields h', Report.fields_asFields _ _ htext]

/-- A name in lower case with a blank in front of it, and a text that JSON has to escape. The
payload has seven bytes, which is the limit on the line that has it as the input and shows it with
colours. On another line it is the argument. -/
theorem pipeline_not_found :
    let around : Surroundings :=
      { file := fun _ => .missing, homePath := some "refwire.json", stdin := [], color := false }
    run around
        ["--recursion-limit", "3", "encode", "--message=é\n", "--lossy", "--code= not-found"] =
      ⟨0, "08051203c3a90a\n", ""⟩ ∧
    run { around with stdin := Utf8.encode "08051203c3a90a\n", color := true }
        ["decode", "--max-size", "7", "-"] =
      ⟨0, "\n\x7b\n  \"errorCode\": 5,\n  \"errorMessage\": \"é\\n\"\n\x7d\n\n" ++
        "\x1b[36mstatus:\x1b[0m \x1b[32mNOT_FOUND\x1b[0m (5)\n\n", ""⟩ ∧
    run around ["inspect", "08051203c3a90a"] =
      ⟨0, "\n@0    #1 varint error_code = 5 (NOT_FOUND)\n" ++
        "@2    #2 length-delimited error_message = \"é\\n\"\n\n", ""⟩ := by
  intro around
  have hC : NamesCode 5 " not-found" := .name .notFound (by decide) (by decide)
  have hnesting : ((.nestingLimit, "recursion-limit") : Opt × String) ∈ valueFlags := by decide
  have hsize : ((.sizeLimit, "max-size") : Opt × String) ∈ valueFlags := by decide
  have hfront : Flags {} ["--recursion-limit", "3"] { nestingLimit := some 3 } :=
    .apart hnesting (.inr (by decide)) rfl (.none _)
  have hmax : Flags {} ["--max-size", "7"] { sizeLimit := some 7 } :=
    .apart hsize (.inr (by decide)) rfl (.none _)
  have hencode : Line around "encode" ["--message=é\n", "--code= not-found"]
      ["--recursion-limit", "3", "encode", "--message=é\n", "--lossy", "--code= not-found"] _ :=
    .intro (.encode 5 "é\n") hfront
      (.word _ (.none _) (.word _ (.lossy rfl (.none _)) (.flags (.none _)))) rfl
  obtain ⟨hex, hrun, -, hread⟩ :=
    pipeline (s := "é\n") hC (by decide) (.inr rfl) hencode
  have hprinted : run around
      ["--recursion-limit", "3", "encode", "--message=é\n", "--lossy", "--code= not-found"] =
        ⟨0, "08051203c3a90a" ++ "\n", ""⟩ := by decide +kernel
  have hhex : hex = "08051203c3a90a" :=
    (String.append_left_inj "\n").1 (congrArg Outcome.stdout (hrun.symm.trans hprinted))
  subst hhex
  have hseven : (Reply.new 5 "é\n").encodedLength = 7 := by decide +kernel
  refine ⟨hrun, ?_, ?_⟩
  · let piped : Surroundings :=
      { around with stdin := Utf8.encode "08051203c3a90a\n", color := true }
    have hadmits :
        ({ sizeLimit := some 7 } : Options).Admits (Reply.new 5 "é\n").encodedLength := by
      intro limit h
      cases h
      exact Nat.le_of_eq hseven
    have hdecode : Line piped "decode" ["-"] ["decode", "--max-size", "7", "-"]
        (Settings.options {} { sizeLimit := some 7 }) :=
      .intro (.decode .stdin) (.none _) (.word _ hmax (.flags (.none _))) rfl
    exact (hread piped "-" _ _ (.inr ⟨rfl, rfl⟩) hadmits).1 hdecode
  · have hadmits := Options.admits_of_no_limit (o := {}) rfl (Reply.new 5 "é\n").encodedLength
    have hinspect : Line around "inspect" ["08051203c3a90a"] ["inspect", "08051203c3a90a"]
        (Settings.options {} {}) :=
      .intro (.inspect .stdin) (.none _) (.word _ (.none _) (.flags (.none _))) rfl
    exact (hread around "08051203c3a90a" _ _ (.inl rfl) hadmits).2 hinspect

end CommandLine
end ReflectionError
