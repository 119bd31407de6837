import Chipscopy.Lib.Bits
import Chipscopy.Waveform.Data

/-! Compare values of probes

    A basic trigger value is a list of operators and compare values: integers, members of an enum
    class or their names, hexadecimal strings and bit strings. `verify_probe_value` checks it, and
    `to_bin_str` writes a compare value as match characters. Both ask first whether a string is
    written like a hexadecimal one. -/

namespace Chipscopy.Probe

open Waveform (EnumMeta)

/-- An item of a trigger value; a member of an enum class is known by its class and value. -/
inductive Value
  | int (n : ℤ)
  | member (cls : EnumMeta) (value : ℤ)
  | str (s : String)
  deriving DecidableEq, Repr

/-- First name of a value. -/
def memberName (cls : EnumMeta) (value : ℤ) : String :=
  ((cls.members.find? (·.2 = value)).map (·.1)).getD ""

/-- Text in an f-string. -/
def Value.format : Value → String
  | int n => toString n
  | member cls value => cls.name ++ "." ++ memberName cls value
  | str s => s

/-- Text inside a list in an f-string. -/
def Value.repr : Value → String
  | int n => toString n
  | member cls value => s!"<{cls.name}.{memberName cls value}: {value}>"
  | str s => "'" ++ s ++ "'"

def formatList (items : List Value) : String :=
  "[" ++ ", ".intercalate (items.map Value.repr) ++ "]"

structure ILAProbe where
  name : String
  bitWidth : ℕ
  deriving DecidableEq, Repr

def matchOperators : List String := ["==", "!=", ">", "<", ">=", "<=", "||"]

def matchBitValues : List Char := "01xXrRfFnNbBtTlLsS_".toList

/-! ### Writing values -/

def isHexStr (number : Value) (bitWidth : ℕ) : Bool :=
  match number with
  | .str s => (['0', 'x'].isPrefixOf s.toList || ['0', 'X'].isPrefixOf s.toList) &&
      bitWidth != s.toList.length - s.toList.count '_'
  | _ => false

/-- The table `__probe_value_hex_to_bin__`. -/
def probeValueHexToBin : Char → Option (List Char)
  | '0' => some ['0', '0', '0', '0']
  | '1' => some ['0', '0', '0', '1']
  | '2' => some ['0', '0', '1', '0']
  | '3' => some ['0', '0', '1', '1']
  | '4' => some ['0', '1', '0', '0']
  | '5' => some ['0', '1', '0', '1']
  | '6' => some ['0', '1', '1', '0']
  | '7' => some ['0', '1', '1', '1']
  | '8' => some ['1', '0', '0', '0']
  | '9' => some ['1', '0', '0', '1']
  | 'a' => some ['1', '0', '1', '0']
  | 'b' => some ['1', '0', '1', '1']
  | 'c' => some ['1', '1', '0', '0']
  | 'd' => some ['1', '1', '0', '1']
  | 'e' => some ['1', '1', '1', '0']
  | 'f' => some ['1', '1', '1', '1']
  | 'x' => some ['x', 'x', 'x', 'x']
  | '_' => some []
  | _ => none

/-- `__probe_value_hex_to_bin__[ch]`. -/
def hexCharToBin (ch : Char) : Except Py.Error (List Char) :=
  match probeValueHexToBin ch with
  | some bits => .ok bits
  | none => .error (.keyError (String.singleton ch))

def hexToBinStr (hexValue : List Char) (bitLength : ℕ) : Except Py.Error (List Char) := do
  let groups ← Py.mapExcept hexCharToBin (hexValue.map Char.toLower)
  let binVal := groups.flatten
  return Py.slice binVal ((binVal.length : ℤ) - bitLength) binVal.length

/-- `bin(n)`. -/
def bin (n : ℤ) : List Char :=
  (if n < 0 then ['-'] else []) ++ '0' :: 'b' :: Nat.toDigits 2 n.natAbs

/-- What is written for a value: an integer for an enum member or its name. -/
def plain (val : Value) (isHex : Bool) (enumDef : Option EnumMeta) :
    Except Py.Error (ℤ ⊕ String) :=
  match val with
  | .int n => .ok (.inl n)
  | .member _ value => .ok (.inl value)
  | .str s =>
    match enumDef with
    | none => .ok (.inr s)
    | some enumDef =>
      if isHex then .ok (.inr s)
      else match Py.lookup s enumDef.members with
        | some value => .ok (.inl value)
        | none => .error (.keyError s)

def toBinStr (val : Value) (bitWidth : ℕ) (enumDef : Option EnumMeta) :
    Except Py.Error (List Char) := do
  let isHex := isHexStr val bitWidth
  match ← plain val isHex enumDef with
  | .inl n =>
    if n ≥ 0 then .ok (Bits.formatBin bitWidth n.toNat)
    else .ok ((bin (2 ^ bitWidth + n)).drop 2)
  | .inr s => if isHex then hexToBinStr (s.toList.drop 2) bitWidth else .ok s.toList

/-! ### Checking values -/

/-- `int.bit_length(n)`. -/
def bitLength (n : ℤ) : ℕ := n.natAbs.size

def getHexCharBitLen (ch : Char) : ℕ :=
  if ch ∈ ['x', '0', '1'] then 1
  else if ch ∈ ['2', '3'] then 2
  else if ch ∈ ['4', '5', '6', '7'] then 3
  else 4

def validHexChars : List Char := ['x', '0', '1', '2', '3', '4', '5', '6', '7', '8', '9', 'a', 'b',
  'c', 'd', 'e', 'f', '_']

variable (probe : ILAProbe) (enumDef : Option EnumMeta)

def verifyIntBitLength (number : ℤ) : Except Py.Error Unit :=
  let valLen := bitLength number
  if valLen > probe.bitWidth then
    .error (.valueError (s!"Probe \"{probe.name}\" has bit width:{probe.bitWidth} and cannot be "
      ++ s!"assigned value \"{number}\" which has bit width:{valLen}."))
  else .ok ()

def verifyEnumValue (enumDef cls : EnumMeta) (value : ℤ) : Except Py.Error Unit :=
  if cls ≠ enumDef then
    .error (.typeError (s!"Probe \"{probe.name}\" cannot be assigned enum value "
      ++ s!"{(Value.member cls value).format}."))
  else verifyIntBitLength probe value

/-- `is_valid_enum_str`. -/
def isValidEnumStr (enumDef : EnumMeta) (number : String) : Except Py.Error Bool :=
  match Py.lookup number enumDef.members with
  | none => .ok false
  | some value => (verifyEnumValue probe enumDef enumDef value).map fun _ => true

def verifyOneHexValue (op : String) (hexNumber : String) : Except Py.Error Unit :=
  let valueNoUnderscore := ((hexNumber.toList.drop 2).map Char.toLower).filter (· ≠ '_')
  let hexValLen := valueNoUnderscore.length
  let requiredHexChLen := (probe.bitWidth + 3) / 4
  if hexValLen = 0 then
    .error (.valueError
      s!"Probe \"{probe.name}\" has cannot be assigned invalid value \"{hexNumber}\".")
  else if ¬ ∀ ch ∈ valueNoUnderscore, ch ∈ validHexChars then
    .error (.valueError (s!"Probe \"{probe.name}\" value \"{hexNumber}\" has invalid character(s)."
      ++ s!" Valid characters are {String.ofList validHexChars}\"."))
  else if hexValLen ≠ requiredHexChLen then
    .error (.valueError (s!"Probe \"{probe.name}\" has bit width:{probe.bitWidth} requiring "
      ++ s!"{requiredHexChLen} hex character(s)"
      ++ s!" but value \"{hexNumber}\" has only {hexValLen} hex character(s)."))
  else
    let binValLen := (hexValLen - 1) * 4 + getHexCharBitLen (valueNoUnderscore.headD 'x')
    if binValLen > probe.bitWidth then
      .error (.valueError (s!"Probe \"{probe.name}\" has bit width:{probe.bitWidth} and cannot be "
        ++ s!"assigned value \"{hexNumber}\" which has bit width:{binValLen}."))
    else if op ∉ ["==", "!="] ∧ 'x' ∈ valueNoUnderscore then
      .error (.valueError (s!"Probe \"{probe.name}\" is assigned value \"{op} {hexNumber}\". "
        ++ "The operator cannot be used when the value has a don't care \"x\"."))
    else .ok ()

def verifyBitString (op : String) (number : String) : Except Py.Error Unit :=
  let valLen := number.toList.length - number.toList.count '_'
  if ¬ ∀ ch ∈ number.toList, ch ∈ matchBitValues then
    .error (.typeError (s!"Probe \"{probe.name}\" value \"{number}\" has invalid character(s)."
      ++ s!" Valid characters are \"{String.ofList matchBitValues}\"."))
  else if valLen ≠ probe.bitWidth then
    .error (.valueError (s!"Probe \"{probe.name}\" has bit width:{probe.bitWidth} and cannot be "
      ++ s!"assigned value \"{number}\" which has bit width:{valLen}."))
  else if op ∉ ["==", "!="] ∧ ¬ ∀ ch ∈ number.toList, ch ∈ ['0', '1', '_'] then
    .error (.typeError (s!"Probe \"{probe.name}\" is assigned value \"{op} {number}\". "
      ++ s!"The operator \"{op}\" can only be used with \"0\" and \"1\" bit values."))
  else .ok ()

def verifyValuePair (op number : Value) : Except Py.Error Unit :=
  match op with
  | .str op =>
    if op ∉ matchOperators then
      .error (.valueError (s!"Probe \"{probe.name}\" operator \"{op}\" is not one of the allowed "
        ++ s!"operators: {formatList (matchOperators.map .str)}."))
    else
      match number, enumDef with
      | .int n, _ => verifyIntBitLength probe n
      | .member cls value, some enumDef => verifyEnumValue probe enumDef cls value
      | .member _ _, none => .ok ()
      | .str s, enumDef =>
        if isHexStr (.str s) probe.bitWidth then verifyOneHexValue probe op s
        else do
          let isName ← match enumDef with
            | some enumDef => isValidEnumStr probe enumDef s
            | none => .ok false
          if isName then .ok () else verifyBitString probe op s
  | op => .error (.valueError (s!"Probe \"{probe.name}\" operator \"{op.format}\" is not one of the "
      ++ s!"allowed operators: {formatList (matchOperators.map .str)}."))

/-- The loop over operators and numbers. -/
def verifyPairs : List Value → Except Py.Error Unit
  | op :: number :: rest => do
    verifyValuePair probe enumDef op number
    verifyPairs rest
  | _ => .ok ()

def verifyProbeValue (valueList : List Value) (isTrigger : Bool) : Except Py.Error Unit :=
  if valueList.length > 2 ∧ isTrigger = false then
    .error (.valueError (s!"Probe \"{probe.name}\" capture set value {formatList valueList} "
      ++ "list length cannot be more than 2."))
  else if valueList.length % 2 ≠ 0 then
    .error (.typeError (s!"Probe \"{probe.name}\" trigger/capture set value {formatList valueList} "
      ++ "is required to be a list with even number of items. "
      ++ "Odd items are operators and even items are numbers."))
  else verifyPairs probe enumDef valueList

end Chipscopy.Probe
