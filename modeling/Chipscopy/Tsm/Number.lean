import Chipscopy.Probe.Value
import Chipscopy.Lib.IntLiteral
import Chipscopy.Lib.Numerals

/-! Numbers in the state machine language

    A number has a width, a type character and a text: an integer, an enum name, hexadecimal or
    binary digits. `verify_tsm_number` reports what is wrong with it for a probe or a counter and
    writes it as match characters, all don't cares when something was reported. -/

namespace Chipscopy.Tsm

open Waveform (EnumMeta)
open Probe (bitLength formatList getHexCharBitLen hexToBinStr matchBitValues matchOperators
  validHexChars)

/-- A number before its first apostrophe, the type character and the rest without quotes. -/
def splitValueStr (bitWidth : ℕ) (val : String) : Except Py.Error (ℤ × List Char × List Char) :=
  let chars := val.toList
  match chars.idxOf? '\'' with
  | none => .error (.valueError "substring not found")
  | some qPos => do
    let typeCh := (Py.segment chars (qPos + 1) (qPos + 2)).map Char.toUpper
    let widthPrefix ← if qPos > 0 then IntLiteral.int 10 (chars.take qPos) else .ok (bitWidth : ℤ)
    return (widthPrefix, typeCh, Bits.strip ['"'] (chars.drop (qPos + 2)))

/-- Match characters, none where the number has no value, and the messages reported. -/
abbrev Verified := Option (List Char) × List String

section

variable (name : String) (bitWidth : ℕ) (op : String) (enumDef : Option EnumMeta)

/-- `verify_int_value` of an integer, written as `number` in its message. -/
def verifyIntValue (intValue : ℤ) (number : String) : Verified :=
  let valLen := bitLength intValue
  if valLen > bitWidth then
    (none, [s!"\"{name}\" has bit width:{bitWidth} and cannot be assigned"
      ++ s!" value \"{number}\" which has bit width:{valLen}."])
  else (some (Bits.formatSigned bitWidth intValue), [])

/-- `verify_int_value` of a text. -/
def verifyIntText (number : List Char) : Except Py.Error Verified := do
  let intValue ← IntLiteral.int 10 (Bits.strip ['_'] number)
  return verifyIntValue name bitWidth intValue (String.ofList number)

def verifyEnumValue (number : List Char) : Verified :=
  match enumDef with
  | none => (none, [s!"\"Probe {name}\" does not support enum values."])
  | some enumDef =>
    match Py.lookup (String.ofList number) enumDef.members with
    | none => (none, [s!"Probe \"{name}\" does not have enum value \"{String.ofList number}\" defined."])
    | some enumIntVal => verifyIntValue name bitWidth enumIntVal (toString enumIntVal)

def verifyHexValue (hexNumber : List Char) : Except Py.Error Verified :=
  let valueNoUnderscore := (hexNumber.map Char.toLower).filter (· ≠ '_')
  let hexValLen := valueNoUnderscore.length
  let hexText := String.ofList hexNumber
  if hexValLen = 0 then .ok (none, [s!"\"{name}\" is assigned an invalid value \"{hexText}\"."])
  else if ¬ ∀ ch ∈ valueNoUnderscore, ch ∈ validHexChars then
    .ok (none, [s!"\"{name}\" value \"{hexText}\" has invalid character(s)."
      ++ s!" Valid characters are {String.ofList validHexChars}\"."])
  else
    let requiredHexChLen := (bitWidth + 3) / 4
    let binValLen := (hexValLen - 1) * 4 + getHexCharBitLen (valueNoUnderscore.headD 'x')
    let lengthErrors :=
      if hexValLen ≠ requiredHexChLen then
        [s!"\"{name}\" has bit width:{bitWidth} requiring {requiredHexChLen} hex character(s)"
          ++ s!" but value \"{hexText}\" has {hexValLen} hex character(s)."]
      else if binValLen > bitWidth then
        [s!"\"{name}\" has bit width:{bitWidth} and cannot be assigned"
          ++ s!" value \"{hexText}\" which has bit width:{binValLen}."]
      else []
    let opErrors :=
      if op ∉ ["==", "!="] ∧ 'x' ∈ valueNoUnderscore then
        [s!"\"{name}\" is assigned value \"{op} {hexText}\". "
          ++ "The operator cannot be used when the value has a don't care \"x\"."]
      else []
    (hexToBinStr valueNoUnderscore bitWidth).map fun bits => (some bits, lengthErrors ++ opErrors)

def verifyBinValue (binNumber : List Char) : Verified :=
  let binText := String.ofList binNumber
  let badChars := (binNumber.filter (· ∉ matchBitValues)).dedup
  if badChars ≠ [] then
    (none, [s!"\"{name}\" value \"{binText}\" has invalid character(s): "
      ++ s!"\"{String.ofList badChars}\". Valid characters are \"{String.ofList matchBitValues}\"."])
  else
    let valueNoUnderscore := (binNumber.map Char.toLower).filter (· ≠ '_')
    let valLen := valueNoUnderscore.length
    let lengthErrors :=
      if valLen ≠ bitWidth then
        [s!"\"{name}\" has bit width:{bitWidth} and cannot be assigned"
          ++ s!" value \"{binText}\" which has bit width:{valLen}."]
      else []
    let opErrors :=
      if op ∉ ["==", "!="] ∧ ¬ ∀ ch ∈ binNumber, ch ∈ ['0', '1', '_'] then
        [s!"\"{name}\" is assigned value \"{op} {binText}\". "
          ++ s!"The operator \"{op}\" can only be used with \"0\" and \"1\" bit values."]
      else []
    (some valueNoUnderscore, lengthErrors ++ opErrors)

/-- Messages about the width and the operator. -/
def prefixErrors (value : String) (valueWidth : ℤ) : List String :=
  (if valueWidth ≤ 0 ∨ valueWidth ≠ bitWidth then
    [s!"\"{name}\" is \"{bitWidth}\" bits wide, "
      ++ s!"but value \"{value}\" length prefix is \"{valueWidth}\"."] else []) ++
  (if op ∉ matchOperators then
    [s!"\"{name}\" uses operator \"{op}\" which is not one of the allowed operators: "
      ++ s!"{formatList (matchOperators.map .str)}."] else []) ++
  (if bitWidth = 1 ∧ op ∉ ["==", "!="] then
    [s!"Operator \"{op}\" cannot be used for \"{name}\" which is 1 bit wide. "
      ++ "Only operators \"==\" and \"!=\" are allowed."] else [])

/-- The branches for the type character. -/
def verifyTyped (typeCh number : List Char) : Except Py.Error Verified :=
  if typeCh = ['U'] then verifyIntText name bitWidth number
  else if typeCh = ['E'] then .ok (verifyEnumValue name bitWidth enumDef number)
  else if typeCh = ['H'] then verifyHexValue name bitWidth op number
  else if typeCh = ['B'] then .ok (verifyBinValue name bitWidth op number)
  else .ok (none, [])

def verifyTsmNumber (value : String) : Except Py.Error (List Char × List String) := do
  let (valueWidth, typeCh, number) ← splitValueStr bitWidth value
  let errors := prefixErrors name bitWidth op value valueWidth
  let (binaryResult, numberErrors) ←
    if errors ≠ [] then .ok (none, [])
    else verifyTyped name bitWidth op enumDef typeCh number
  let errors := errors ++ numberErrors
  match binaryResult with
  | some bits => return (if errors ≠ [] then List.replicate bitWidth 'x' else bits, errors)
  | none => return (List.replicate bitWidth 'x', errors)

end

end Chipscopy.Tsm
