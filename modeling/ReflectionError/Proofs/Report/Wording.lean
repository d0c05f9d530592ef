import ReflectionError.Report

/-!
# ReflectionError.Proofs.Report.Wording

The words and marks of reports, spelled out apart from the functions that print them, and that these
functions print nothing else.

* `styled`: a word that may be coloured.
* `codeLabel`: the name of a code by its number.
* `Named`, `Labelled`: the names of wire types, and the labels of fields.
* `jsonLiteral`: a text as a JSON string.
* `describe_eq_codeLabel`, `named_name`, `labelled_label`, `padded_eq_rightpad`,
  `printString_eq_jsonLiteral`: what the functions print.
-/

namespace ReflectionError
namespace Report

/-! ## Colours -/

/-- A word between the escape sequences of a style, or by itself if there are no colours. -/
def styled (color : Bool) (style word : String) : String :=
  if color then "\x1b[" ++ style ++ "m" ++ word ++ "\x1b[0m" else word

theorem append_newlines (s : String) : s ++ "\n" ++ "\n" = s ++ "\n\n" := by
  rw [String.append_assoc]
  rfl

/-! ## Codes -/

def codeLabels : List String :=
  ["OK", "CANCELLED", "UNKNOWN", "INVALID_ARGUMENT", "DEADLINE_EXCEEDED", "NOT_FOUND",
    "ALREADY_EXISTS", "PERMISSION_DENIED", "RESOURCE_EXHAUSTED", "FAILED_PRECONDITION", "ABORTED",
    "OUT_OF_RANGE", "UNIMPLEMENTED", "INTERNAL", "UNAVAILABLE", "DATA_LOSS", "UNAUTHENTICATED"]

/-- What stands in the list at the place of a number, or that nothing does. -/
def codeLabel (code : Int32) : String :=
  if 0 ≤ code.toInt then codeLabels.getD code.toInt.toNat "non-canonical" else "non-canonical"

theorem describe_eq_codeLabel (code : Int32) : Code.describe code = codeLabel code := by
  have hlabels : codeLabels = Code.all.map Code.name := rfl
  rw [Code.describe, codeLabel]
  by_cases h : code.toInt < 0
  · rw [if_pos h, if_neg (Int.not_le.2 h)]
  · rw [if_neg h, if_pos (Int.not_lt.1 h), Code.ofNat?, hlabels, List.getD_eq_getElem?_getD,
      List.getElem?_map]
    cases Code.all[code.toInt.toNat]? <;> rfl

/-! ## Fields -/

inductive Named : WireType → String → Prop where
  | varint : Named .varint "varint"
  | fixed64 : Named .fixed64 "fixed64"
  | lengthDelimited : Named .lengthDelimited "length-delimited"
  | startGroup : Named .startGroup "start-group"
  | endGroup : Named .endGroup "end-group"
  | fixed32 : Named .fixed32 "fixed32"

theorem named_name (w : WireType) : Named w w.name := by
  cases w <;> constructor

inductive Labelled (color : Bool) : Key → String → Prop where
  | code : Labelled color ⟨1, .varint⟩ (styled color "32" "error_code")
  | text : Labelled color ⟨2, .lengthDelimited⟩ (styled color "32" "error_message")
  | other {key : Key} : key ≠ ⟨1, .varint⟩ → key ≠ ⟨2, .lengthDelimited⟩ →
      Labelled color key (styled color "33" "unknown")

theorem labelled_label (color : Bool) (key : Key) : Labelled color key (label color key) := by
  unfold label
  split
  · next hcode =>
    rw [hcode]
    exact .code
  · next hcode =>
    split
    · next htext =>
      rw [htext]
      exact .text
    · next htext => exact .other hcode htext

theorem padded_eq_rightpad (n : Nat) :
    padded n = String.ofList ((toString n).toList.rightpad 4 ' ') := by
  rw [padded, List.rightpad, String.ofList_append, String.ofList_toList, String.length_toList]

/-! ## Values -/

/-- Two digits in lower case for each byte. -/
def hexText (bytes : List UInt8) : String :=
  String.ofList (bytes.flatMap fun b => (Nat.toDigits 16 b.toNat).leftpad 2 '0')

theorem encodeByte_eq_leftpad (b : UInt8) :
    Hex.encodeByte b = (Nat.toDigits 16 b.toNat).leftpad 2 '0' := by
  have hbytes : ∀ n : Fin 256, Hex.encodeByte (UInt8.ofNat n) =
      (Nat.toDigits 16 n).leftpad 2 '0' := by decide +kernel
  have hb := hbytes ⟨b.toNat, b.toNat_lt⟩
  rwa [UInt8.ofNat_toNat] at hb

theorem encode_eq_hexText (bytes : List UInt8) : Hex.encode bytes = hexText bytes := by
  rw [Hex.encode, hexText, funext encodeByte_eq_leftpad]

theorem describeCode_eq (n : Nat) :
    describeCode n =
      toString (Int32.ofNat n).toInt ++ " (" ++ codeLabel (Int32.ofNat n) ++ ")" := by
  rw [← describe_eq_codeLabel]
  rfl

theorem describeBytes_eq (bytes : List UInt8) :
    describeBytes bytes = "[" ++ toString bytes.length ++ " bytes] " ++ hexText bytes := by
  rw [← encode_eq_hexText]
  rfl

/-! ## JSON strings -/

def jsonLetters : List (Char × String) :=
  [('"', "\\\""), ('\\', "\\\\"), ('\x08', "\\b"), ('\x0c', "\\f"), ('\n', "\\n"), ('\r', "\\r"),
    ('\t', "\\t")]

/-- A character with a letter of its own, as four digits if it is another one below U+0020, or as it
is. -/
def jsonCharacter (c : Char) : String :=
  (jsonLetters.lookup c).getD
    (if c.toNat < 0x20 then "\\u" ++ String.ofList ((Nat.toDigits 16 c.toNat).leftpad 4 '0')
      else String.singleton c)

def jsonLiteral (s : String) : String :=
  "\"" ++ String.join (s.toList.map jsonCharacter) ++ "\""

theorem digits_of_low : ∀ n : Fin 32, (Nat.toDigits 16 n).leftpad 4 '0' =
    ['0', '0', Json.hexDigit (n / 16), Json.hexDigit (n % 16)] := by
  decide

theorem escapeChar_eq_jsonCharacter (c : Char) : Json.escapeChar c = (jsonCharacter c).toList := by
  by_cases h : c ∈ jsonLetters.map Prod.fst
  · simp only [jsonLetters, List.map_cons, List.map_nil, List.mem_cons, List.not_mem_nil,
      or_false] at h
    rcases h with rfl | rfl | rfl | rfl | rfl | rfl | rfl <;> rfl
  · have hnone : jsonLetters.lookup c = none := by
      rw [List.lookup_eq_none_iff]
      intro p hp
      rw [bne_iff_ne]
      rintro rfl
      exact h (List.mem_map_of_mem hp)
    simp only [jsonLetters, List.map_cons, List.map_nil, List.mem_cons, List.not_mem_nil,
      or_false, not_or] at h
    obtain ⟨hq, hb, h8, hf, hn, hr, ht⟩ := h
    rw [Json.escapeChar, if_neg hq, if_neg hb, if_neg h8, if_neg hf, if_neg hn, if_neg hr,
      if_neg ht, jsonCharacter, hnone, Option.getD_none]
    split
    · next hlow =>
      rw [digits_of_low ⟨c.toNat, hlow⟩, String.toList_append, String.toList_ofList,
        String.toList_ofList]
      rfl
    · rw [String.toList_singleton]

theorem printString_eq_jsonLiteral (s : String) :
    String.ofList (Json.printString s) = jsonLiteral s := by
  have hescape : Json.escapeChar = fun c => (jsonCharacter c).toList :=
    funext escapeChar_eq_jsonCharacter
  rw [← String.toList_inj, String.toList_ofList, Json.printString, jsonLiteral, hescape]
  simp [List.flatMap_map]

end Report
end ReflectionError
