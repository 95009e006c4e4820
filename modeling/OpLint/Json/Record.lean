import OpLint.Json.Reader

/-!
# Readers of records

A record is read from an object, by the names of its fields, or from an array, by
their positions. A field may have a default; one without must be there. The types
of the fields are a list, so one reader serves every record and gives back a tuple
of the values.
-/

namespace OpLint.Json

structure Field (α : Type) where
  name : String
  read : Reader α
  default? : Option α

/-- A field that must be there. -/
def Field.required {α : Type} (name : String) (read : Reader α) : Field α :=
  ⟨name, read, none⟩

/-- A field that may be left out. -/
def Field.withDefault {α : Type} (name : String) (read : Reader α) (default : α) : Field α :=
  ⟨name, read, some default⟩

inductive Fields : List Type → Type 1
  | nil : Fields []
  | cons {α : Type} {αs : List Type} (field : Field α) (rest : Fields αs) : Fields (α :: αs)

/-- One value of each type. -/
def Values : List Type → Type
  | [] => Unit
  | α :: αs => α × Values αs

/-- At most one value of each type. -/
def Slots : List Type → Type
  | [] => Unit
  | α :: αs => Option α × Slots αs

namespace Fields

def names : {αs : List Type} → Fields αs → List String
  | _, nil => []
  | _, cons field rest => field.name :: rest.names

def unfilled : {αs : List Type} → Fields αs → Slots αs
  | _, nil => ()
  | _, cons _ rest => (none, rest.unfilled)

/-- Fills the slot of the field called `key`, if there is such a field. -/
def fill (depth : Nat) (key : String) (d : Draft) :
    {αs : List Type} → Fields αs → Slots αs → Option (Except Error (Slots αs))
  | _, nil, _ => none
  | _, cons field rest, (slot, slots) =>
    if field.name = key then
      some (if slot.isSome then .error (.duplicateField key)
        else (field.read depth d).map fun value => (some value, slots))
    else (rest.fill depth key d slots).map fun result => result.map (slot, ·)

/-- Fills slots from the members of an object. A `strict` record refuses a member
that is no field; any other record passes over it. -/
def fillAll {αs : List Type} (fields : Fields αs) (strict : Bool) (depth : Nat) :
    List (String × Draft) → Slots αs → Except Error (Slots αs)
  | [], slots => .ok slots
  | (key, d) :: members, slots =>
    match fields.fill depth key d slots with
    | some result => result >>= fields.fillAll strict depth members
    | none =>
      if strict then .error (.unknownField key fields.names)
      else if d.isIntact then fields.fillAll strict depth members slots
      else .error .malformed

/-- The values of the filled slots, and the defaults of the others. -/
def complete : {αs : List Type} → Fields αs → Slots αs → Except Error (Values αs)
  | _, nil, _ => .ok ()
  | _, cons field rest, (slot, slots) =>
    match slot <|> field.default? with
    | some value => (rest.complete slots).map (value, ·)
    | none => .error (.missingField field.name)

/-- The values at the head of an array, and the items after them. `seen` counts the
items before, `whole` names what an array that is too short should have been. -/
def ofItems (depth : Nat) (ending : Ending) (whole : String) :
    {αs : List Type} → Fields αs → (seen : Nat) → List Draft →
    Except Error (Values αs × List Draft)
  | _, nil, _, items => .ok ((), items)
  | _, cons field rest, seen, d :: items => do
    let value ← field.read depth d
    let (values, items) ← rest.ofItems depth ending whole (seen + 1) items
    return ((value, values), items)
  | _, cons field rest, seen, [] => do
    Reader.close ending
    match field.default? with
    | some value =>
      let (values, items) ← rest.ofItems depth ending whole (seen + 1) []
      return ((value, values), items)
    | none => throw (.wrongLength seen whole)

end Fields

/-- How a value of type `β` is written as a record. -/
structure Record (β : Type) : Type 1 where
  name : String
  strict : Bool
  types : List Type
  fields : Fields types
  make : Values types → β

namespace Record

variable {α β γ δ : Type}

/-- A record of one field. -/
def ofField (name : String) (a : Field α) (make : α → β) : Record β where
  name := name
  strict := false
  types := [α]
  fields := .cons a .nil
  make := fun (a, ()) => make a

/-- A record of two fields. -/
def ofFields (name : String) (a : Field α) (b : Field β) (make : α → β → γ) : Record γ where
  name := name
  strict := false
  types := [α, β]
  fields := .cons a (.cons b .nil)
  make := fun (a, b, ()) => make a b

/-- A record of three fields. -/
def ofFields₃ (name : String) (a : Field α) (b : Field β) (c : Field γ)
    (make : α → β → γ → δ) : Record δ where
  name := name
  strict := false
  types := [α, β, γ]
  fields := .cons a (.cons b (.cons c .nil))
  make := fun (a, b, c, ()) => make a b c

def elements (n : Nat) : String :=
  if n = 1 then "1 element" else s!"{n} elements"

def title (r : Record β) : String :=
  "struct " ++ r.name

/-- What an array should have been. -/
def titleWithSize (r : Record β) : String :=
  s!"{r.title} with {elements r.types.length}"

def read (r : Record β) : Reader β
  | depth, .array items ending => do
    let inner ← Reader.enter depth
    let (values, more) ← r.fields.ofItems inner ending r.titleWithSize 0 items
    if more.isEmpty then
      Reader.close ending
      return r.make values
    else throw .malformed
  | depth, .object members ending => do
    let inner ← Reader.enter depth
    let (members, ending) := Draft.legible members ending
    let slots ← r.fields.fillAll r.strict inner members r.fields.unfilled
    Reader.close ending
    r.make <$> r.fields.complete slots
  | _, d => .error (Reader.mismatch d r.title)

/-- Reads the record from members that were kept for later. -/
def ofKeptMembers (r : Record β) (depth : Nat) (members : List (String × Draft)) :
    Except Error β := do
  let slots ← r.fields.fillAll r.strict depth members r.fields.unfilled
  r.make <$> r.fields.complete slots

/-- Reads the record from items that were kept for later; all of them must belong
to it. -/
def ofKeptItems (r : Record β) (depth : Nat) (items : List Draft) : Except Error β := do
  let (values, more) ← r.fields.ofItems depth .closed r.titleWithSize 0 items
  if more.isEmpty then return r.make values
  else
    throw (.wrongLength items.length s!"{elements r.types.length} in sequence")

end Record

end OpLint.Json
