import Stencil.Json.Reader
import Stencil.Json.Writer

/-!
# Codecs

A codec turns data of some type into JSON and back. Records are read from objects, in which members
of other names are ignored and none of the own names may occur twice, and also from lists that hold
the parts in order. A case of several is an object whose only member is named for the case; a case
without parts is its name alone.
-/

namespace Stencil

open Json

/-- How data of a type is written as JSON and read back. -/
structure Codec (α : Type) where
  encode : α → Datum
  decode? : Datum → Option α

namespace Json

/-- What stands under each of several names, or at their places in a list, if anything does. -/
def Datum.parts? (names : List String) : Datum → Option (List (Option Datum))
  | .object members =>
    if names.all fun name => members.countP (·.1 == name) ≤ 1 then
      some (names.map fun name => members.lookup name)
    else none
  | .list items =>
    if items.length ≤ names.length then
      some (items.map some ++ List.replicate (names.length - items.length) none)
    else none
  | _ => none

/-- The name of a case and what is under it. -/
def Datum.case? : Datum → Option (String × Option Datum)
  | .text name => some (name, none)
  | .object [(name, content)] => some (name, some content)
  | _ => none

/-- A case with parts. -/
def Datum.ofCase (name : String) (content : Datum) : Datum := .object [(name, content)]

end Json

namespace Codec

variable {α β γ : Type}

/-- The JSON text of some data. -/
def write (codec : Codec α) (a : α) : String := String.ofList (codec.encode a).write

/-- The data of a JSON text. -/
def read? (codec : Codec α) (s : String) : Option α :=
  (Datum.ofText? s.toList).bind codec.decode?

/-! ## Plain data -/

/-- Texts. -/
def text : Codec String where
  encode := .text
  decode?
    | .text s => some s
    | _ => none

/-- Natural numbers. -/
def natural : Codec Nat where
  encode n := .number (.whole n)
  decode?
    | .number (.whole n) => if 0 ≤ n then some n.toNat else none
    | _ => none

/-- Lists, item by item. -/
def list (codec : Codec α) : Codec (List α) where
  encode items := .list (items.map codec.encode)
  decode?
    | .list items => items.mapM codec.decode?
    | _ => none

/-- Tables, written in the order of their names. Of two entries read under one name the later one
counts. -/
def table (codec : Codec α) : Codec (Table α) where
  encode t := .object (t.entries.map fun e => (e.1, codec.encode e.2))
  decode?
    | .object members =>
      (members.mapM fun m => (codec.decode? m.2).map (m.1, ·)).map Table.ofList
    | _ => none

/-- Values. Every number that is no 64-bit integer is a float, and a float that is no number is
written as `null`. -/
def value : Codec Value where
  encode
    | .bool b => .bool b
    | .int n => .number (.whole n.toInt)
    | .float x => if x.isNaN || x.isInf then .null else .number (.float x)
    | .str s => .text s
    | .undefined => .null
  decode?
    | .bool b => some (.bool b)
    | .number (.whole n) => some (((Value.int64? n).map .int).getD (.float (Decimal.ofInt n)))
    | .number (.float x) => some (.float x)
    | .text s => some (.str s)
    | .null => some .undefined
    | _ => none

/-- Variables by name. -/
def context : Codec Context := table value

/-- Texts by name of region. -/
def regions : Codec (Table String) := table text

/-! ## Records -/

/-- Records of one part. -/
def record₁ (name : String) (codec : Codec α) : Codec α where
  encode a := .object [(name, codec.encode a)]
  decode? datum := do
    match ← datum.parts? [name] with
    | [some a] => codec.decode? a
    | _ => none

/-- Records of two parts. -/
def record₂ (name₁ : String) (codec₁ : Codec α) (name₂ : String) (codec₂ : Codec β) :
    Codec (α × β) where
  encode p := .object [(name₁, codec₁.encode p.1), (name₂, codec₂.encode p.2)]
  decode? datum := do
    match ← datum.parts? [name₁, name₂] with
    | [some a, some b] => return (← codec₁.decode? a, ← codec₂.decode? b)
    | _ => none

/-- Records of three parts. -/
def record₃ (name₁ : String) (codec₁ : Codec α) (name₂ : String) (codec₂ : Codec β)
    (name₃ : String) (codec₃ : Codec γ) : Codec (α × β × γ) where
  encode p := .object [(name₁, codec₁.encode p.1), (name₂, codec₂.encode p.2.1),
    (name₃, codec₃.encode p.2.2)]
  decode? datum := do
    match ← datum.parts? [name₁, name₂, name₃] with
    | [some a, some b, some c] =>
      return (← codec₁.decode? a, ← codec₂.decode? b, ← codec₃.decode? c)
    | _ => none

end Codec

end Stencil
