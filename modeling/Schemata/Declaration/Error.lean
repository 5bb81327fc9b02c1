import Schemata.HostType

/-!
# Schemata — Declaration — Error

What can be wrong with a declaration. A kind fails to resolve for one of six reasons, none of which
knows the field; a declaration fails on a field's name, on a kind that cannot be told, on its own
name or on its defaults. An error that is passed on out of a field is told to be of that field,
unless it names one already.
-/

namespace Schemata

/-- Why a declaration is refused, or a kind does not resolve. -/
inductive DeclarationError where
  | undeterminedKind (field : String) (declared : Option HostType)
  | missingItem
  | missingValue
  /-- An object kind that names no declaration; the field is empty where it is not known. -/
  | missingReference (field : String)
  | unknownObject (name : String)
  | cyclicReference (name : String)
  | noChoices
  | duplicateField (field : String)
  | reservedField (field : String)
  | duplicateDeclaration (name : String)
  | undeclaredDefault (field : String)
  | unresolved (field : String) (source : DeclarationError)
deriving DecidableEq, Repr

namespace DeclarationError

/-- The wording of an error. -/
def message : DeclarationError → String
  | .undeterminedKind field declared =>
    "could not determine the type for field '" ++ field ++ "' (declared as " ++
      (declared.map HostType.name).getD "nothing" ++ "); specify the kind explicitly"
  | .missingItem => "type of array items must be specified"
  | .missingValue => "type of generic object values must be specified"
  | .missingReference field =>
    "field '" ++ field ++ "' is an object but does not reference a model"
  | .unknownObject name =>
    "object '" ++ name ++ "' is not compiled; define it before referencing it"
  | .cyclicReference name =>
    "object '" ++ name ++ "' references itself while it is being compiled"
  | .noChoices => "enum values must not be empty"
  | .duplicateField field => "field '" ++ field ++ "' is declared more than once"
  | .reservedField field => "field '" ++ field ++ "' is reserved and cannot be declared"
  | .duplicateDeclaration name => "'" ++ name ++ "' is already defined"
  | .undeclaredDefault field => "default value given for undeclared field '" ++ field ++ "'"
  | .unresolved field source => "field '" ++ field ++ "': " ++ source.message

/-- The error as one of a field: it is given the field if it does not know it, stays as it is if it
names one, and else is put into an error of the field. -/
def inField (field : String) : DeclarationError → DeclarationError
  | .missingReference known => .missingReference (if known = "" then field else known)
  | .undeterminedKind known declared => .undeterminedKind known declared
  | .duplicateField known => .duplicateField known
  | .reservedField known => .reservedField known
  | .unresolved known source => .unresolved known source
  | e => .unresolved field e

/-- The innermost error. -/
def root : DeclarationError → DeclarationError
  | .unresolved _ source => source.root
  | e                    => e

end DeclarationError

end Schemata
