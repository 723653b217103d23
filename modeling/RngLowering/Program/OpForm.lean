import RngLowering.Program.ReadError

/-!
From the written form of an operation to its kind.

Most kinds carry neither symbol nor attributes. A name that no kind has stands for a foreign
operation.
-/

set_option autoImplicit false

namespace RngLowering

/-- The kinds that are known by their name alone. -/
def OpKind.plain? (name : String) : Option OpKind :=
  [.addi, .shrui, .trunci, .extui, .extsi, .load, .store, .fromElements, .cast, .ret,
    .rngUpdate].find? (·.name = name)

namespace OpForm

/-- The first attribute of a given name. -/
def attr? (attrs : List (String × Attr)) (key : String) : Option Attr :=
  attrs.lookup key

/-- The value of a constant is cut to the width of the first type that is written. -/
def constantKind (attrs : List (String × Attr)) (types : List Ty) : Except GrammarFault OpKind :=
  match attr? attrs "value" with
  | some (.int value) => .ok (.constant (truncate ((types.head?.map Ty.width).getD maxBits) value))
  | _ => .error .constantValue

def visibilityOf (attrs : List (String × Attr)) : Except GrammarFault Visibility :=
  match attr? attrs "visibility" with
  | none => .ok .shared
  | some (.str text) =>
    match Visibility.ofText? text with
    | some visibility => .ok visibility
    | none => .error (.unknownVisibility text)
  | some _ => .error .visibilityNotString

def initOf (attrs : List (String × Attr)) (width : Nat) : Except GrammarFault Nat :=
  match attr? attrs "init" with
  | none => .ok 0
  | some (.int value) => .ok (truncate width value)
  | some _ => .error .initNotInteger

/-- A cell is shared and starts at zero unless its attributes say otherwise. -/
def globalKind (sym : Option String) (attrs : List (String × Attr)) (types : List Ty) :
    Except GrammarFault OpKind :=
  match sym with
  | none => .error .globalSymbol
  | some sym =>
    match types with
    | [.memref elem] => do
      let visibility ← visibilityOf attrs
      let init ← initOf attrs elem.bits
      return .global ⟨sym, .memref elem, init, visibility, (attr? attrs "constant").isSome⟩
    | _ => .error .globalType

def getGlobalKind (sym : Option String) (attrs : List (String × Attr)) :
    Except GrammarFault OpKind :=
  match sym with
  | some sym => if attrs.isEmpty then .ok (.getGlobal sym) else .error .getGlobalForm
  | none => .error .getGlobalForm

/-- The kind of an operation that is written with this name, symbol, attributes and types. -/
def kindOf (name : String) (sym : Option String) (attrs : List (String × Attr))
    (types : List Ty) : Except GrammarFault OpKind :=
  if name = "arith.constant" then constantKind attrs types
  else if name = "memref.global" then globalKind sym attrs types
  else if name = "memref.get_global" then getGlobalKind sym attrs
  else
    match OpKind.plain? name with
    | some kind =>
      if sym.isNone && attrs.isEmpty then .ok kind else .error (.notPlain name)
    | none => .ok (.foreign name sym attrs)

/-- The types of the results. A cell's type is that of no result. -/
def resultTypes (kind : OpKind) (name : String) (results : List String) (types : List Ty) :
    Except GrammarFault (List Ty) :=
  match kind with
  | .global _ => if results.isEmpty then .ok [] else .error .globalResults
  | _ =>
    if results.length = types.length then .ok types
    else .error (.resultCount name results.length types.length)

end OpForm

end RngLowering
