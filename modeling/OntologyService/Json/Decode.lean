import OntologyService.Json.Reader
import OntologyService.Order.Table
import OntologyService.Text.Double

/-!
# From JSON values to the values they stand for

A `Decoder` turns a value into what it stands for, or refuses it. It is handed the number of
levels that arrays and objects may still nest; a level is used up by every array or object that is
looked into, and none by a part that is passed over.

Three shapes recur. A *record* is an object of which the known fields count, each at most once, or
an array of the fields in order; fields that may be missing may be left off at its end. A
*variant* is an object whose only key is the tag, or the bare tag if there is nothing to say
beyond it. A *set* is an array in any order and with any repetitions.
-/

namespace OntologyService

/-- Decodes a value, given how many levels of nesting are left. -/
abbrev Decoder (α : Type) := Nat → Json → Option α

namespace Decoder

variable {α : Type}

/-- How deep the used parts of a text may nest. -/
def maxDepth : Nat := 127

/-- Decodes a value that was read without a limit. -/
def value (d : Decoder α) (j : Json) : Option α := d j.depth j

/-- Decodes what a text spells. -/
def text (d : Decoder α) (s : String) : Option α := (Json.read s).bind (d maxDepth)

/-- Decodes what octets spell. -/
def octets (d : Decoder α) (bytes : List UInt8) : Option α :=
  (Json.readOctets bytes).bind (d maxDepth)

/-- A text. -/
def string : Decoder String
  | _, .str s => some s
  | _, _ => none

/-- A truth value. -/
def bool : Decoder Bool
  | _, .bool b => some b
  | _, _ => none

/-- A whole number without sign below a bound. -/
def natBelow (bound : Nat) : Decoder Nat
  | _, .num (.whole false n) => if n < bound then some n else none
  | _, _ => none

/-- A count or another number of 64 bits. -/
def word : Decoder Nat := natBelow UInt64.size

/-- The items of an array. -/
def list (d : Decoder α) : Decoder (List α)
  | room + 1, .arr items => items.mapM (d room)
  | _, _ => none

/-- The items of an array, as a set. -/
def set [Ranked α] (d : Decoder α) : Decoder (SortedSet α) :=
  fun room j => (list d room j).map SortedSet.ofList

/-! ## Records -/

/-- The fields of a record by position, those that were left out as `none`, and the levels of
nesting left to them. -/
structure Slots where
  room : Nat
  slots : List (Option Json)

/-- The one field of a name. -/
def only? (fields : List (String × Json)) (name : String) : Option (Option Json) :=
  match fields.filter fun f => decide (f.1 = name) with
  | [] => some none
  | [f] => some (some f.2)
  | _ :: _ :: _ => none

/-- The fields of a record with the given names. -/
def record (names : List String) : Decoder Slots
  | room + 1, .obj fields => (names.mapM (only? fields)).map fun slots => { room, slots }
  | room + 1, .arr items =>
    if items.length ≤ names.length then
      some { room, slots := items.map some ++ List.replicate (names.length - items.length) none }
    else none
  | _, _ => none

/-- A field that has to be there. -/
def Slots.required (s : Slots) (i : Nat) (d : Decoder α) : Option α :=
  match s.slots[i]? with
  | some (some j) => d s.room j
  | _ => none

/-- A field with a value for when it is not there. -/
def Slots.optional (s : Slots) (i : Nat) (missing : α) (d : Decoder α) : Option α :=
  match s.slots[i]? with
  | some (some j) => d s.room j
  | _ => some missing

/-! ## Variants -/

/-- The tag of a variant and what it says beyond the tag. -/
def variant : Decoder (String × Option Slots)
  | _, .str tag => some (tag, none)
  | room + 1, .obj [(tag, j)] => some (tag, some { room, slots := [some j] })
  | _, _ => none

/-- A variant that is all tag; `null` says nothing beyond it. -/
def tagOnly (ofName? : String → Option α) : Decoder α := fun room j =>
  match variant room j with
  | some (tag, none) => ofName? tag
  | some (tag, some { slots := [some .null], .. }) => ofName? tag
  | _ => none

/-! ## Values for their own sake -/

/-- A number that a double can hold. -/
def number : JsonNumber → Option JsonNumber
  | .whole negative n => if Double.exceeds n 0 then none else some (.whole negative n)
  | .decimal negative m e => if Double.exceeds m e then none else some (.decimal negative m e)

/-- Any value, with the last of repeated fields. -/
def any : Decoder Json
  | room + 1, .arr items => (items.mapM (any room)).map .arr
  | room + 1, .obj fields =>
    (fields.mapM fun f => (any room f.2).map fun j => (f.1, j)).map
      fun fs => .obj (Table.ofList fs).toList
  | _, .num n => (number n).map .num
  | _, .null => some .null
  | _, .bool b => some (.bool b)
  | _, .str s => some (.str s)
  | 0, .arr _ | 0, .obj _ | _, .unreadable => none

end Decoder

end OntologyService
