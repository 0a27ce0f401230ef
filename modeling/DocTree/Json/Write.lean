import DocTree.Number.Shortest
import DocTree.Tree.Basic

/-!
# Writing properties as JSON

Properties are written as one object without blanks, in their order. Strings keep all bytes but
quotes, backslashes and bytes below U+0020.
-/

namespace DocTree.Json

/-- The escape of a byte that cannot stand in a string as it is. -/
def escape? (b : UInt8) : Option Bytes :=
  if b == octet '"' || b == octet '\\' then some [octet '\\', b]
  else if b == 10 then some (ascii "\\n")
  else if b == 13 then some (ascii "\\r")
  else if b == 9 then some (ascii "\\t")
  else if b < 0x20 then
    some (ascii "\\u00" ++ [Bytes.hexDigit (b.toNat / 16), Bytes.hexDigit (b.toNat % 16)])
  else none

/-- A string in quotes. -/
def quoted (s : Bytes) : Bytes :=
  octet '"' :: (Bytes.replaceOctets escape? s ++ [octet '"'])

/-- An array of the given texts. -/
def arrayOf (texts : List Bytes) : Bytes :=
  octet '[' :: (Bytes.join (ascii ",") texts ++ [octet ']'])

/-- An object of the given keys and texts. -/
def objectOf (members : List (Bytes × Bytes)) : Bytes :=
  octet '{' ::
    (Bytes.join (ascii ",") (members.map fun (key, text) => quoted key ++ octet ':' :: text) ++
      [octet '}'])

/-- Is the number so small or so large that it is written with an exponent: below 10⁻⁶, or 10²¹
and above? Zero is neither. -/
def needsExponent (d : Decimal) : Bool :=
  let point : Int := d.exponent + (Bytes.ofNat d.coefficient).length
  d.coefficient != 0 && (point < -5 || 21 < point)

/-- A number. Integers below 10¹⁵ have neither point nor exponent nor the sign of a zero; what is
not finite is `null`. -/
def number (x : Double) : Bytes :=
  if !x.isFinite then ascii "null"
  else
    match x.integer? with
    | some n =>
      if n.natAbs < Nat.pow 10 15 then Bytes.ofInt n
      else floating x.shortest
    | none => floating x.shortest
where
  /-- A number with a point or an exponent. -/
  floating (d : Decimal) : Bytes := if needsExponent d then d.scientific else d.plain

/-- The value of a declaration: a number stands as it was written. -/
def declarationValue (d : Style.Declaration) : Bytes :=
  if d.numeric then d.value else quoted d.value

/-- The value of a property. A kind without a meaning is `null`. -/
def value : Value → Bytes
  | .string s => quoted s
  | .bool true => ascii "true"
  | .bool false => ascii "false"
  | .number x => number x
  | .list tokens => arrayOf (tokens.map quoted)
  | .style decls => objectOf (decls.map fun d => (d.key, declarationValue d))
  | .other _ => ascii "null"

/-- Properties as an object. -/
def properties (props : Properties) : Bytes :=
  objectOf (props.map fun p => (p.name, value p.value))

end DocTree.Json
