import DocTree.Number.Double
import DocTree.Number.Integer
import DocTree.Text.Utf8
import DocTree.Yaml.Node

/-!
# Values of YAML scalars

A plain scalar denotes a null, a truth value, a number or a text, by its form. A tag in front of it
asks for one of these kinds.
-/

namespace DocTree.Yaml

/-- The value of a scalar. -/
inductive Value where
  /-- Nothing. -/
  | null
  /-- A truth value. -/
  | truth (b : Bool)
  /-- An integer. -/
  | integer (n : Int)
  /-- A number with a fraction or an exponent. -/
  | number (x : Double)
  /-- An infinite number. -/
  | infinite (negative : Bool)
  /-- Not a number. -/
  | undefined
  /-- The sign in front of a mapping that is merged in. -/
  | merge
  /-- A text. -/
  | text (s : Bytes)
  deriving DecidableEq, Repr

/-- What the tags for the kinds of values begin with. -/
def tagStart : List Char := "tag:yaml.org,2002:".toList

/-- A tag in its short form. -/
def shortTag (tag : List Char) : List Char :=
  if tagStart.isPrefixOf tag then '!' :: '!' :: tag.drop tagStart.length else tag

/-- The tag of a value. -/
def Value.tag : Value → List Char
  | .null => "!!null".toList
  | .truth _ => "!!bool".toList
  | .integer _ => "!!int".toList
  | .number _ | .infinite _ | .undefined => "!!float".toList
  | .merge => "!!merge".toList
  | .text _ => "!!str".toList

/-- The values with names of their own. -/
def namedValues : List (String × Value) :=
  [("", .null), ("~", .null), ("null", .null), ("Null", .null), ("NULL", .null),
   ("true", .truth true), ("True", .truth true), ("TRUE", .truth true),
   ("false", .truth false), ("False", .truth false), ("FALSE", .truth false),
   (".nan", .undefined), (".NaN", .undefined), (".NAN", .undefined),
   (".inf", .infinite false), (".Inf", .infinite false), (".INF", .infinite false),
   ("+.inf", .infinite false), ("+.Inf", .infinite false), ("+.INF", .infinite false),
   ("-.inf", .infinite true), ("-.Inf", .infinite true), ("-.INF", .infinite true),
   ("<<", .merge)]

/-- The number that a text with a point or an exponent denotes. -/
def number? (s : Bytes) : Option Value :=
  ((Decimal.parse? s).bind Double.ofDecimal?).map .number

/-- The integer behind the sign of a base, which may have a sign of its own. -/
def basedInteger? (s : Bytes) : Option Value :=
  let behind (start : String) : Option Bytes := Bytes.after? (ascii start) s
  let value (base : Nat) (s : Bytes) : Option Value :=
    match Integer.parseIn base s with
    | .ok n => some (.integer n)
    | .error _ => none
  ((behind "0b").bind (value 2)).or
    (((behind "-0b").bind fun s => value 2 (octet '-' :: s)).or
      (((behind "0o").bind (value 8)).or
        ((behind "-0o").bind fun s => value 8 (octet '-' :: s))))

/-- The number that a text denotes, which begins with a sign or a digit. Underscores do not count,
and an integer may need 64 bits without a sign. -/
def signedNumber? (s : Bytes) : Option Value :=
  let s := s.filter (· != octet '_')
  match Integer.parse s with
  | .ok n => some (.integer n)
  | .error _ =>
    match Integer.natural s with
    | .ok n => some (.integer n)
    | .error _ => (number? s).or (basedInteger? s)

/-- The value of a scalar that is not marked as a text, by its form. -/
def plainValue (text : List Char) : Value :=
  let s := Utf8.encode text
  match namedValues.find? fun (name, _) => name.toList == text with
  | some (_, v) => v
  | none =>
    match text with
    | [] => .null
    | c :: _ =>
      let found :=
        if c == '.' then number? s
        else if c == '+' || c == '-' || c.isDigit then signedNumber? s
        else none
      found.getD (.text s)

/-- The value of a scalar with a tag. Fails when its form is not of the kind that the tag asks for.
-/
def scalarValue? (tag : List Char) (plain : Bool) (text : List Char) : Option Value :=
  let tag := shortTag tag
  let s := Utf8.encode text
  if tag == "!!str".toList then some (.text s)
  else if tag.isEmpty || tag == ['!'] then
    some (if plain then plainValue text else .text s)
  else
    let v := plainValue text
    if tag == v.tag then some v
    else if tag == "!!float".toList then
      match v with
      | .integer n =>
        (Double.ofDecimal? ⟨n < 0, n.natAbs, 0⟩).map .number
      | _ => none
    else none

end DocTree.Yaml
