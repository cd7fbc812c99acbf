/-!
Attribute lists: names with values, each name at most once. Two ways of setting a value are given.
`set` keeps the order in which names came first, as a start tag needs it; `insert` keeps the list
sorted by name, so that the order says nothing about how it was built.
-/
namespace FormulaMarkup

abbrev Attributes := List (String × String)

namespace Attributes

/-- The value of a name, if it has been set. -/
def get? (attributes : Attributes) (name : String) : Option String :=
  attributes.lookup name

/-- Gives a name a value: in place when the name is there, at the end when it is new. -/
def set (name value : String) : Attributes → Attributes
  | [] => [(name, value)]
  | entry :: rest => if entry.1 = name then (name, value) :: rest else entry :: set name value rest

/-- Gives a name a value in a list sorted by name, which stays sorted. -/
def insert (name value : String) : Attributes → Attributes
  | [] => [(name, value)]
  | entry :: rest =>
    if entry.1 = name then (name, value) :: rest
    else if name < entry.1 then (name, value) :: entry :: rest
    else entry :: insert name value rest

/-- Sets all entries of a second list, one after the other. -/
def setAll (attributes added : Attributes) : Attributes :=
  added.foldl (fun all entry => set entry.1 entry.2 all) attributes

end Attributes

end FormulaMarkup
