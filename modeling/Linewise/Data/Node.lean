/-
Trees of data, and reading values of a certain type from them.

A scalar has a type of its own, or only a text of which the type is read off (`Scalar.untyped`): then any text will do
as a text, and a number or a truth value has to stand without quotes.
-/
import Linewise.Text.Basic

namespace Linewise.Data

/-- a value without parts -/
inductive Scalar where
  | null
  | bool (b : Bool)
  | int (n : Int)
  | fraction
  | text (text : Text)
  | untyped (text : Text) (quoted : Bool)
  deriving DecidableEq, Repr

/-- a tree of data; `asRecord` tells whether the items of a list may stand for the fields of a record, in order -/
inductive Node where
  | scalar (s : Scalar)
  | list (items : List Node) (asRecord : Bool)
  | map (entries : List (Text × Node))

/-- nothing written where a value is expected -/
def Node.absent : Node := .scalar (.untyped [] false)

instance : Inhabited Node := ⟨.absent⟩

/-- the texts that stand for no value -/
def nullTexts : List Text := [[], ['~'], "null".toList, "Null".toList, "NULL".toList]

/-- the texts that stand for true -/
def trueTexts : List Text := ["true".toList, "True".toList, "TRUE".toList]

/-- the texts that stand for false -/
def falseTexts : List Text := ["false".toList, "False".toList, "FALSE".toList]

/-- value of a digit -/
def digit? (base : Nat) (c : Char) : Option Nat :=
  let value :=
    if c.isDigit then c.toNat - '0'.toNat
    else if 'a' ≤ c ∧ c ≤ 'z' then c.toNat - 'a'.toNat + 10
    else if 'A' ≤ c ∧ c ≤ 'Z' then c.toNat - 'A'.toNat + 10
    else base
  if value < base then some value else none

/-- the number that digits of a base stand for -/
def digits? (base : Nat) (text : Text) : Option Nat :=
  if text.isEmpty then none
  else text.foldl (fun total c => return base * (← total) + (← digit? base c)) (some 0)

/-- a number without a sign: decimal without a zero in front, or with the mark of another base -/
def magnitude? (text : Text) : Option Nat :=
  match text with
  | '0' :: 'x' :: digits => digits? 16 digits
  | '0' :: 'o' :: digits => digits? 8 digits
  | '0' :: 'b' :: digits => digits? 2 digits
  | '0' :: _ :: _ => none
  | digits => digits? 10 digits

/-- a number with or without a sign -/
def int? (text : Text) : Option Int :=
  match text with
  | '-' :: rest => (magnitude? rest).map fun n => -(n : Int)
  | '+' :: rest => (magnitude? rest).map Int.ofNat
  | rest => (magnitude? rest).map Int.ofNat

namespace Node

/-- whether nothing is written -/
def isAbsent : Node → Bool
  | .scalar (.untyped [] false) => true
  | _ => false

/-- whether the node stands for no value -/
def isNull : Node → Bool
  | .scalar .null => true
  | .scalar (.untyped text false) => nullTexts.contains text
  | _ => false

/-- a text -/
def text? : Node → Option Text
  | .scalar (.text text) => some text
  | .scalar (.untyped text _) => some text
  | _ => none

/-- a text as a name -/
def string? (node : Node) : Option String := node.text?.map String.ofList

/-- a truth value -/
def bool? : Node → Option Bool
  | .scalar (.bool b) => some b
  | .scalar (.untyped text false) =>
    if trueTexts.contains text then some true else if falseTexts.contains text then some false else none
  | _ => none

/-- a whole number of 64 bits with a sign -/
def int? : Node → Option Int
  | .scalar (.int n) => if -Int.pow 2 63 ≤ n ∧ n < Int.pow 2 63 then some n else none
  | .scalar (.untyped text false) => (Data.int? text).filter fun n => -Int.pow 2 63 ≤ n ∧ n < Int.pow 2 63
  | _ => none

/-- a whole number of 64 bits without a sign -/
def nat? : Node → Option Nat
  | .scalar (.int n) => if 0 ≤ n ∧ n < Int.pow 2 64 then some n.toNat else none
  | .scalar (.untyped ('-' :: _) false) => none
  | .scalar (.untyped text false) => ((Data.int? text).filter fun n => n < Int.pow 2 64).map Int.toNat
  | _ => none

/-- a value, or none -/
def option? {α : Type} (read : Node → Option α) (node : Node) : Option (Option α) :=
  if node.isNull then some none else (read node).map some

/-- a list of values -/
def list? {α : Type} (read : Node → Option α) : Node → Option (List α)
  | .list items _ => items.mapM read
  | node => if node.isAbsent then some [] else none

/-- one of the values that have a name -/
def choice? {α : Type} (choices : List (String × α)) (node : Node) : Option α :=
  node.string?.bind fun name => choices.lookup name

end Node

/-- the fields of a record by name -/
abbrev Fields := List (Text × Node)

/-- the fields of a record with the given names; others are left aside, and none may stand twice -/
def Node.fields? (names : List String) : Node → Option Fields
  | .map entries =>
    let known := entries.filter fun (key, _) => names.contains (String.ofList key)
    if (known.map (·.1)).Nodup then some known else none
  | .list items asRecord =>
    if asRecord && items.length ≤ names.length then some ((names.map (·.toList)).zip items) else none
  | node => if node.isAbsent then some [] else none

namespace Fields

/-- the field of a name -/
def get? (fields : Fields) (name : String) : Option Node := fields.lookup name.toList

/-- the value of a field that must be there -/
def required {α : Type} (fields : Fields) (name : String) (read : Node → Option α) : Option α :=
  (fields.get? name).bind read

/-- the value of a field, or a default if it is not there -/
def getD {α : Type} (fields : Fields) (name : String) (read : Node → Option α) (default : α) : Option α :=
  match fields.get? name with
  | none => some default
  | some node => read node

/-- the value of a field that may be missing or stand for no value -/
def optional {α : Type} (fields : Fields) (name : String) (read : Node → Option α) : Option (Option α) :=
  fields.getD name (Node.option? read) none

end Fields

end Linewise.Data
