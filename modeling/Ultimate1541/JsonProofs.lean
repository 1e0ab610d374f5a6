import Mathlib

/-! # JSON trees

    `json.h` keeps a JSON text as a tree: an object is a list of keys and values in the order
    of the text, and a key is looked up without regard to case.  Texts are lists of
    characters, without their NUL. -/

namespace RestJson

abbrev Text := List Char

instance : Coe String Text := ⟨String.toList⟩

/-- `JSON_String`, `JSON_Integer`, `JSON_Bool`, `JSON_Object` and `JSON_List`. -/
inductive Json where
  | str (s : Text)
  | int (v : Int32)
  | bool (b : Bool)
  | obj (members : List (Text × Json))
  | list (members : List Json)

/-- The keys and values of an object. -/
abbrev Members := List (Text × Json)

/-- `strcasecmp`, whether two texts are equal. -/
def sameKey (s t : Text) : Bool := s.map Char.toLower = t.map Char.toLower

/-- `JSON_Object::get`: the value of the first key. -/
def Members.get (obj : Members) (key : Text) : Option Json :=
  match obj with
  | [] => none
  | (k, value) :: rest => if sameKey key k then some value else Members.get rest key

/-- `JSON_Object::int_or`. -/
def Members.intOr (obj : Members) (key : Text) (alt : Int) : Int :=
  match obj.get key with
  | some (.int v) => v.toInt
  | _ => alt

/-- A number as `%d` writes it. -/
def decimal (n : Int) : Text :=
  if n < 0 then '-' :: Nat.toDigits 10 n.natAbs else Nat.toDigits 10 n.natAbs

end RestJson
