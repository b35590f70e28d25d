/-!
# JSON values

Values of the data format.  A number written without point and exponent is an integer of any size;
every other number is kept exactly, as a decimal mantissa and a power of ten.  The words for not a
number and for the infinities are understood, and not told apart.  Objects keep their fields in
order and have no name twice.
-/

namespace SyntaxMining

inductive Json where
  | null
  | bool (value : Bool)
  | int (value : Int)
  | real (mantissa : Int) (exponent : Int)
  | nonfinite
  | str (value : String)
  | arr (items : List Json)
  | obj (fields : List (String × Json))
deriving Inhabited

namespace Json

/-- Value of the first field of that name. -/
def field? (name : String) : List (String × Json) → Option Json
  | [] => none
  | (key, value) :: rest => if key = name then some value else field? name rest

/-- Value of a field of an object; other values have no fields. -/
def get? (name : String) : Json → Option Json
  | obj fields => field? name fields
  | _ => none

/-- Sets a field: a new name goes to the end, a known one keeps its place. -/
def insertField (name : String) (value : Json) : List (String × Json) → List (String × Json)
  | [] => [(name, value)]
  | (key, old) :: rest =>
    if key = name then (key, value) :: rest else (key, old) :: insertField name value rest

/-- Object in which a repeated name keeps its first place and takes its last value. -/
def ofFields (fields : List (String × Json)) : Json :=
  obj (fields.foldl (fun done field ↦ insertField field.1 field.2 done) [])

def ofOption {α : Type} (encode : α → Json) : Option α → Json
  | none => null
  | some value => encode value

def ofNat (value : Nat) : Json :=
  int value

end Json

end SyntaxMining
