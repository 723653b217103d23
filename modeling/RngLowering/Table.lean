set_option autoImplicit false

namespace RngLowering

abbrev Table (α : Type) := List (String × α)

/-- Enter a name, or give a name that is there a new entry in its old place. -/
def Table.put {α : Type} (name : String) (entry : α) : Table α → Table α
  | [] => [(name, entry)]
  | (other, old) :: rest =>
    if other = name then (name, entry) :: rest else (other, old) :: Table.put name entry rest

theorem Table.lookup_put {α : Type} (table : Table α) (name other : String) (entry : α) :
    List.lookup other (table.put name entry) =
      if other = name then some entry else List.lookup other table := by
  induction table with
  | nil => grind [Table.put]
  | cons head rest ih => grind [Table.put]

end RngLowering
