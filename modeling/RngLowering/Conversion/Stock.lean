import RngLowering.Conversion.Rule

set_option autoImplicit false

namespace RngLowering.Rule

/-- Keep a rule from applying while an operation of a given name is live. -/
def whileAbsent (rule : Rule) (name : String) : Rule :=
  { rule with applies := fun p id => rule.applies p id && p.ops.all (!·.any (·.name = name)) }

/-- A rule that never applies. -/
def never (name root : String) : Rule where
  name
  root
  applies _ _ := false
  apply _ := return []

/-- Give an operation another name, and drop its symbol and attributes. -/
def rename (name root new : String) : Rule where
  name
  root
  applies _ _ := true
  apply id := do
    modify (·.setKind id (.bare new))
    return []

/-- Erase an operation. Uses of its results are left as they are. -/
def erase (name root : String) : Rule where
  name
  root
  applies _ _ := true
  apply id := do
    Edit.erase id
    return []

/-- Refuse an operation for a reason. -/
def refuse (name root reason : String) : Rule where
  name
  root
  applies _ _ := true
  apply id := do
    throw (.malformed root reason (((← get).op? id).bind (·.loc)))

/-- Replace an operation by the sum of its first operand with itself. -/
def double (name root : String) : Rule where
  name
  root
  applies _ _ := true
  apply id := do
    let op := (← get).op? id
    match op.bind (·.operands.head?) with
    | none => throw (.malformed root "no operand" (op.bind (·.loc)))
    | some value =>
      let sum ← Edit.buildBefore id (Build.addi value value)
      Edit.replace id [sum]
      return []

/-- Build a chain of operations, each of which takes the results of the one before. -/
def buildChain (types : List Ty) : List String → List ValueId → Build (List ValueId)
  | [], values => return values
  | name :: rest, values => do
    let first := (← get).program.values.size
    let _ ← Build.foreign name values types
    buildChain types rest (List.range' first types.length)

/-- Replace an operation by a chain of operations with the same result types. -/
def expand (name root : String) (names : List String) : Rule where
  name
  root
  applies _ _ := true
  apply id := do
    let p ← get
    match p.op? id with
    | none => throw (.ir (.deadOp id))
    | some op =>
      let types := op.results.filterMap fun value => (p.value? value).map (·.ty)
      let values ← Edit.buildBefore id (buildChain types names op.operands)
      Edit.replace id values
      return []

end RngLowering.Rule
