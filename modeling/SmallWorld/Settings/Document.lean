import SmallWorld.Json
import SmallWorld.Settings

/-!
# Settings as documents

Settings are written as a JSON object with one field each.  A document may
leave out fields, which then have their default values, and may hold fields
of other names, which do not matter.  An array gives the settings in their
order.
-/

namespace SmallWorld.Settings

def branchingField : String := "m"

def constructionWidthField : String := "ef_construction"

def searchWidthField : String := "ef_search"

def seedField : String := "seed"

/-- The number in a field, or the default value if there is no such field.
A repeated field is an error. -/
def fieldOr? (fields : List (Option String × Json)) (name : String)
    (fallback : Nat) : Option Nat :=
  match fields.filter fun field => field.1 == some name with
  | [] => some fallback
  | [field] => field.2.word?
  | _ => none

/-- The number at a position of an array, or the default value behind its
end. -/
def elementOr? (elements : List Json) (position fallback : Nat) :
    Option Nat :=
  match elements[position]? with
  | none => some fallback
  | some element => element.word?

/-- The settings, when each of them is found by its field name and its
position, with a default value. -/
def assemble? (find : String → Nat → Nat → Option Nat) :
    Option Settings := do
  let branching ← find branchingField 0 defaultBranching
  let constructionWidth ←
    find constructionWidthField 1 defaultConstructionWidth
  let searchWidth ← find searchWidthField 2 defaultSearchWidth
  let seed ← find seedField 3 defaultSeed.toNat
  pure { branching, constructionWidth, searchWidth, seed := seed.toUInt64 }

def ofJson? : Json → Option Settings
  | .object fields =>
      if fields.any fun field => field.1.isNone then
        none
      else
        assemble? fun name _ fallback => fieldOr? fields name fallback
  | .array elements =>
      if 4 < elements.length then
        none
      else
        assemble? fun _ position fallback =>
          elementOr? elements position fallback
  | _ => none

def read? (text : String) : Option Settings := do
  let document ← Json.read? text
  ofJson? document

def fields (settings : Settings) : List (String × Nat) :=
  [(branchingField, settings.branching),
    (constructionWidthField, settings.constructionWidth),
    (searchWidthField, settings.searchWidth),
    (seedField, settings.seed.toNat)]

/-- The shortest document that gives all settings. -/
def text (settings : Settings) : String :=
  let entries := settings.fields.map fun (name, value) =>
    "\"" ++ name ++ "\":" ++ toString value
  "\x7b" ++ ",".intercalate entries ++ "\x7d"

end SmallWorld.Settings
