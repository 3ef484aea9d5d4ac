import Marginalia.Text.Basic

/-!
# Kinds of declarations
-/

namespace Marginalia

/-- What a declaration declares. -/
inductive Kind where
  | namespaceDecl
  | classDecl
  | function
  | publicMethod
  | privateMethod
  | protectedMethod
  deriving DecidableEq, Repr

namespace Kind

/-- All kinds. -/
def all : List Kind :=
  [.namespaceDecl, .classDecl, .function, .publicMethod, .privateMethod, .protectedMethod]

/-- The name of a kind in settings and stored documents. -/
def name : Kind → Text
  | .namespaceDecl => "namespace"
  | .classDecl => "class"
  | .function => "function"
  | .publicMethod => "public_method"
  | .privateMethod => "private_method"
  | .protectedMethod => "protected_method"

/-- The kind of a name. -/
def ofName? (t : Text) : Option Kind := all.find? (·.name == t)

/-- Namespaces and classes hold other declarations; they are followed by inheritance text instead of
    arguments. -/
def isContainer : Kind → Bool
  | .namespaceDecl => true
  | .classDecl => true
  | _ => false

end Kind

end Marginalia
