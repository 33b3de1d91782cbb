import AgenticPlatform.Foundation.JsonInteger

/-!
# Fields of a JSON document

A field is read with the type the reader counts on; where it is missing, or of another type,
there is no value.
-/
namespace AgenticPlatform.Foundation

/-- A document that is no object has no fields. -/
def fieldsOf : Json → List (String × Json)
  | .obj fields => fields
  | _ => []

def textAt (fields : List (String × Json)) (name : String) : Option String :=
  match fields.lookup name with
  | some (.str text) => some text
  | _ => none

def intAt (fields : List (String × Json)) (name : String) : Option Int :=
  match fields.lookup name with
  | some (.num n) => n.int?
  | _ => none

def boolAt (fields : List (String × Json)) (name : String) : Option Bool :=
  match fields.lookup name with
  | some (.bool b) => some b
  | _ => none

def objectAt (fields : List (String × Json)) (name : String) : Option (List (String × Json)) :=
  match fields.lookup name with
  | some (.obj inner) => some inner
  | _ => none

/-- `d.get(name, default)`. -/
def fieldOr {α : Type*} (read : List (String × Json) → String → Option α)
    (fields : List (String × Json)) (name : String) (default : α) : Option α :=
  if (fields.lookup name).isNone then some default else read fields name

end AgenticPlatform.Foundation
