import BootImage.Bytes

/-!
What is kept at places, which are lists of names. Places with the same beginning share it, so that
finding one looks only at the names beside its own. Main statement: `Forest.find?_insert` says that
an insertion is seen at its place and nowhere else.
-/

namespace BootImage

/-- A place in a tree: the names on the way from the root, which is `[]` itself. -/
abbrev Location := List Bytes

inductive Forest (α : Type) where
  | empty
  /-- A name, what is kept at it, the places below it and the names beside it. -/
  | tree (name : Bytes) (kept : Option α) (below beside : Forest α)

namespace Forest

variable {α : Type}

/-- What is kept at a name, and what lies below it. -/
def lookup (name : Bytes) : Forest α → Option (Option α × Forest α)
  | .empty => none
  | .tree other kept below beside =>
      if other = name then some (kept, below) else lookup name beside

def under (name : Bytes) (forest : Forest α) : Forest α :=
  match forest.lookup name with
  | none => .empty
  | some (_, below) => below

/-- Changes what a name has, if there is such a name. -/
def change (name : Bytes) (f : Option α × Forest α → Option α × Forest α) : Forest α → Forest α
  | .empty => .empty
  | .tree other kept below beside =>
      if other = name then .tree other (f (kept, below)).1 (f (kept, below)).2 beside
      else .tree other kept below (change name f beside)

/-- Changes what a name has. A name that is not there has nothing, and comes first afterwards. -/
def alter (name : Bytes) (f : Option α × Forest α → Option α × Forest α) (forest : Forest α) :
    Forest α :=
  match forest.lookup name with
  | some _ => forest.change name f
  | none => .tree name (f (none, .empty)).1 (f (none, .empty)).2 forest

def find? : Location → Forest α → Option α
  | [], _ => none
  | name :: rest, forest =>
      match forest.lookup name with
      | none => none
      | some (kept, below) => if rest = [] then kept else find? rest below

def insert (value : α) : Location → Forest α → Forest α
  | [], forest => forest
  | name :: rest, forest =>
      forest.alter name fun (kept, below) =>
        if rest = [] then (some value, below) else (kept, insert value rest below)

/-- A change is seen at its name, if that is there, and at no other. -/
theorem lookup_change (name : Bytes) (f : Option α × Forest α → Option α × Forest α)
    (forest : Forest α) (other : Bytes) :
    (forest.change name f).lookup other =
      if name = other then (forest.lookup name).map f else forest.lookup other := by
  induction forest with
  | empty => simp [change, lookup]
  | tree first kept below beside _ ih =>
      by_cases here : first = name
      · subst here
        by_cases same : first = other <;> simp [change, lookup, same]
      · by_cases same : first = other
        · subst same
          simp [change, lookup, here, Ne.symm here]
        · simp [change, lookup, here, same, ih]

/-- What a name has afterwards, whether it was there before or not. -/
theorem lookup_alter (name : Bytes) (f : Option α × Forest α → Option α × Forest α)
    (forest : Forest α) (other : Bytes) :
    (forest.alter name f).lookup other =
      if name = other then some (f ((forest.lookup name).getD (none, .empty)))
      else forest.lookup other := by
  unfold alter
  split
  · rename_i found
    simp [lookup_change, found]
  · rename_i missing
    simp [lookup, missing]

@[simp] theorem find?_empty (place : Location) : (empty : Forest α).find? place = none := by
  cases place <;> simp [find?, lookup]

/-- What lies below a name, seen from above it. -/
theorem find?_under (name : Bytes) {place : Location} (named : place ≠ []) (forest : Forest α) :
    (forest.under name).find? place = forest.find? (name :: place) := by
  cases found : forest.lookup name <;> simp [under, find?, found, named]

/-- An insertion is seen at its place and nowhere else. -/
theorem find?_insert (value : α) {place : Location} (named : place ≠ []) (forest : Forest α)
    (other : Location) :
    (forest.insert value place).find? other =
      if place = other then some value else forest.find? other := by
  induction place generalizing forest other with
  | nil => exact absurd rfl named
  | cons name rest ih =>
      cases other with
      | nil => simp [find?]
      | cons head tail =>
          simp only [insert, find?, lookup_alter]
          by_cases same : name = head
          · subst same
            by_cases last : rest = []
            · subst last
              cases tail <;> cases forest.lookup name <;> simp
            · by_cases here : tail = [] <;>
                cases forest.lookup name <;> simp [last, here, ih last]
          · simp [same]

end Forest

end BootImage
