/-!
# TOML values

A document is a table, built up line by line. Whether a line may still add to a table depends on
how the table came to be, so every table carries its `Origin`:

* a table in braces is complete as it stands;
* a table with a header is not opened by a second header, nor entered by a dotted key;
* a table that dotted keys made is entered by further dotted keys, but never gets a header;
* a table that only lies on the way to another one may still get a header of its own, once.

`alter` goes down a path of keys and applies these rules; `assign`, `openTable` and `openElement`
say what may happen at the end of it.
-/

namespace OntologyService

/-- How a table came to be. -/
inductive TableOrigin where
  | inline
  | header
  | dotted
  | implied
deriving DecidableEq

/-- A TOML value. Of floating point numbers and of moments in time it is only told that they are
there. -/
inductive Toml where
  | string (s : String)
  | integer (n : Int)
  | float
  | bool (b : Bool)
  | moment
  | array (items : List Toml)
  | table (origin : TableOrigin) (fields : List (String × Toml))
  /-- Tables that share one name, each with a header of its own. -/
  | tables (elements : List (List (String × Toml)))

namespace Toml

/-- Keys with their values, each key once. -/
abbrev Fields := List (String × Toml)

/-- The value of a key. -/
def find? (key : String) (fields : Fields) : Option Toml :=
  (fields.find? fun f => decide (f.1 = key)).map Prod.snd

/-- Gives a key a value, in place of the one it has or behind the others. -/
def put (key : String) (v : Toml) : Fields → Fields
  | [] => [(key, v)]
  | (key', v') :: fields =>
    if key' = key then (key, v) :: fields else (key', v') :: put key v fields

/-- Changes the table at the end of a path. Tables that are missing on the way are made, with the
given origin; the last of several tables of one name stands for that name. -/
def alter (made : TableOrigin) (change : TableOrigin → Fields → Option Fields) :
    List String → TableOrigin → Fields → Option Fields
  | [], origin, fields => change origin fields
  | key :: path, _, fields =>
    match find? key fields with
    | none => (alter made change path made []).map fun inner => put key (.table made inner) fields
    | some (.table origin inner) =>
      if origin = .inline ∨ (origin = .header ∧ made = .dotted) then none
      else (alter made change path origin inner).map fun inner =>
        put key (.table origin inner) fields
    | some (.tables elements) =>
      match elements.getLast? with
      | none => none
      | some last => (alter made change path .header last).map fun last =>
        put key (.tables (elements.dropLast ++ [last])) fields
    | some _ => none

/-- Gives a new key of a table a value. Behind a dotted key the table has to be one that dotted
keys made. -/
def assignKey (dotted : Bool) (key : String) (v : Toml) (origin : TableOrigin) (fields : Fields) :
    Option Fields :=
  if decide (origin = .dotted) ≠ dotted then none
  else
    match find? key fields with
    | some _ => none
    | none => some (put key v fields)

/-- Gives the key at the end of a path a value. -/
def assign (path : List String) (v : Toml) (origin : TableOrigin) (fields : Fields) :
    Option Fields :=
  match path.getLast? with
  | none => none
  | some key =>
    alter .dotted (assignKey (path.length > 1) key v) path.dropLast origin fields

/-- The fields that make a table in braces. -/
def inlineFields (pairs : List (List String × Toml)) : Option Fields :=
  pairs.foldlM (fun fields p => assign p.1 p.2 .inline fields) []

/-- Opens the table at the end of a path with a header. -/
def openTable (path : List String) (root : Fields) : Option Fields :=
  match path.getLast? with
  | none => none
  | some key =>
    alter .implied (fun _ fields =>
      match find? key fields with
      | none => some (put key (.table .header []) fields)
      | some (.table .implied inner) => some (put key (.table .header inner) fields)
      | some _ => none) path.dropLast .header root

/-- Opens a further table of the name at the end of a path with a header. -/
def openElement (path : List String) (root : Fields) : Option Fields :=
  match path.getLast? with
  | none => none
  | some key =>
    alter .implied (fun _ fields =>
      match find? key fields with
      | none => some (put key (.tables [[]]) fields)
      | some (.tables elements) => some (put key (.tables (elements ++ [[]])) fields)
      | some _ => none) path.dropLast .header root

end Toml

end OntologyService
