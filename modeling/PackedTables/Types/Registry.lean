import PackedTables.Declaration
import PackedTables.Fault
import PackedTables.Text.Numeral
import PackedTables.Types.Kind

/-!
# The type registry

Types by name.  A name that is registered means what it was registered for.  Any other name must
be a registered name of fixed width with a bracketed suffix, which makes an array of it, with a
length between the brackets or none.  A call that registers a name makes all its checks before it
adds anything.
-/

namespace PackedTables

structure Registry where
  types : List FieldType
  deriving DecidableEq

namespace Registry

def empty : Registry := ⟨[]⟩

/-- Eight, sixteen and so on to two hundred and fifty-six. -/
def bitWidths : List Nat := (List.range 32).map fun index => 8 * (index + 1)

def standardTypes : List FieldType :=
  [.ofKind "bool" .bool, .ofKind "address" .address] ++
  (bitWidths.flatMap fun bits =>
    [.ofKind s!"uint{bits}" (.uint bits), .ofKind s!"int{bits}" (.int bits)]) ++
  ((List.range 32).map fun index => .ofKind s!"bytes{index + 1}" (.fixedBytes (index + 1))) ++
  [.ofKind "bytes" .bytes, .ofKind "string" .string]

def standard : Registry := ⟨standardTypes⟩

def size (registry : Registry) : Nat := registry.types.length

def isEmpty (registry : Registry) : Bool := registry.types.isEmpty

def lookup? (registry : Registry) (name : String) : Option FieldType :=
  registry.types.find? fun type => type.name == name

/-! ## Resolving names -/

/-- What stands before the last opening bracket, and what stands from there to a closing end. -/
def splitSuffix? (name : String) : Option (String × List Char) :=
  match name.toList.reverse with
  | ']' :: rest =>
      match rest.dropWhile (· != '[') with
      | _ :: element =>
          some (String.ofList element.reverse, (rest.takeWhile (· != '[')).reverse)
      | [] => none
  | _ => none

/-- No text for any length, or a positive length of sixty-four bits. -/
def pinnedLength? (digits : List Char) : Option (Option Nat) :=
  if digits.isEmpty then some none
  else ((Numeral.unsigned? Numeral.maxWord digits).filter (0 < ·)).map some

def resolveArray? (registry : Registry) (name : String) : Option FieldType := do
  let (elementName, digits) ← splitSuffix? name
  let length ← pinnedLength? digits
  let element ← registry.lookup? elementName
  if element.isFixed then some (.ofKind name (.array element.kind length)) else none

def resolve? (registry : Registry) (name : String) : Option FieldType :=
  match registry.lookup? name with
  | some type => some type
  | none => registry.resolveArray? name

def resolve (registry : Registry) (name : String) : Except Fault FieldType :=
  match registry.resolve? name with
  | some type => .ok type
  | none => .error (.unknownType name none)

/-! ## Registering names -/

def add (registry : Registry) (type : FieldType) : Registry := ⟨type :: registry.types⟩

def maxVariants : Nat := 256

/-- A call on a registry.  It may be refused, and it leaves a registry in either case. -/
abbrev Call := ExceptT Fault (StateM Registry) Unit

namespace Call

def insert (type : FieldType) : Call := modify fun registry => registry.add type

def enumeration (declaration : EnumDeclaration) : Call := do
  let registry ← get
  let variants := declaration.variants.length
  if (registry.resolve? declaration.name).isSome then throw (.duplicateType declaration.name)
  else if variants = 0 ∨ maxVariants < variants then throw (.invalidEnum declaration.name variants)
  else insert (.ofKind declaration.name (.enumeration declaration.name variants))

def typeAlias (name target : String) : Call := do
  let registry ← get
  if (registry.resolve? name).isSome then throw (.duplicateType name)
  else
    let type ← ofExcept (registry.resolve target)
    insert (.ofKind name type.kind)

/-- What a call answers, and the registry after it. -/
def answer (call : Call) (registry : Registry) : Except Fault Unit × Registry :=
  call.run.run registry

theorem answer_get (body : Registry → Call) (registry : Registry) :
    answer (get >>= body) registry = (body registry).answer registry := rfl

theorem answer_enumeration (declaration : EnumDeclaration) (registry : Registry) :
    (enumeration declaration).answer registry =
      if (registry.resolve? declaration.name).isSome then
        (.error (.duplicateType declaration.name), registry)
      else if declaration.variants.length = 0 ∨ maxVariants < declaration.variants.length then
        (.error (.invalidEnum declaration.name declaration.variants.length), registry)
      else (.ok (), registry.add (.ofKind declaration.name
        (.enumeration declaration.name declaration.variants.length))) := by
  rw [enumeration, answer_get]
  dsimp only
  split
  · rfl
  · split <;> rfl

theorem answer_typeAlias (name target : String) (registry : Registry) :
    (typeAlias name target).answer registry =
      if (registry.resolve? name).isSome then (.error (.duplicateType name), registry)
      else
        match registry.resolve target with
        | .ok type => (.ok (), registry.add (.ofKind name type.kind))
        | .error fault => (.error fault, registry) := by
  rw [typeAlias, answer_get]
  split
  · rfl
  · cases registry.resolve target <;> rfl

end Call

/-- The registry after a call that is accepted. -/
def after (registry : Registry) (call : Call) : Except Fault Registry :=
  match call.answer registry with
  | (.ok (), next) => .ok next
  | (.error fault, _) => .error fault

def registerEnum (registry : Registry) (declaration : EnumDeclaration) : Except Fault Registry :=
  registry.after (.enumeration declaration)

def registerAlias (registry : Registry) (name target : String) : Except Fault Registry :=
  registry.after (.typeAlias name target)

def registerAll (registry : Registry) (enums : List EnumDeclaration)
    (aliases : List (String × String)) : Except Fault Registry := do
  let registry ← enums.foldlM registerEnum registry
  aliases.foldlM (fun registry pair => registry.registerAlias pair.1 pair.2) registry

end Registry

end PackedTables
