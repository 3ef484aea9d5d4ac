import Marginalia.Page.Basic

/-!
# Rendering with settings

A style may have parts that cannot be used. A page is refused if it shows one of them; which parts a page shows
is said here.
-/

namespace Marginalia.Page

/-- The parts of a style that the details of a block show. -/
def detailParts (b : Block) : List StylePart :=
  (if b.uses.isEmpty then [] else [.label .uses])
    ++ (if b.params.isEmpty then [] else [.label .parameters])
    ++ (if b.returns.isNone then [] else [.label .returns])
    ++ (infoLabels.filter fun l => (b.tags.get? l.name).any fun v => !(tagText v).isEmpty).map .label

/-- The parts of a style that a listing shows, in order. Declarations before the first class stand under a label
    of their own: `pending` says that there are such. -/
def listingPartsFrom (clickable : Bool) : (inClass pending : Bool) → List Declaration → List StylePart
  | _, pending, [] => if pending then [.label .functions] else []
  | inClass, pending, d :: rest =>
    match d.kind with
    | .namespaceDecl => .separator :: listingPartsFrom clickable inClass pending rest
    | .classDecl =>
      (if pending then [.label .functions] else [])
        ++ (if clickable then [.link, .label .viewDetails] else [])
        ++ listingPartsFrom clickable true false rest
    | _ => (if clickable then [.link] else []) ++ listingPartsFrom clickable inClass (!inClass) rest

/-- The parts of a style that a listing shows. -/
def listingParts (clickable : Bool) (declarations : List Declaration) : List StylePart :=
  listingPartsFrom clickable false false declarations

/-- The parts of a style that an overview shows. -/
def overviewParts (clickable : Bool) (main : Block) (declarations : List Declaration) : List StylePart :=
  listingParts clickable declarations ++ detailParts main

/-- The parts of a style that the contents show. -/
def contentsParts (declarations : List Declaration) : List StylePart :=
  let shown := declarations.filter (·.kind != .namespaceDecl)
  if shown.isEmpty then [] else shown.flatMap (detailParts ·.doc) ++ [.label .contents]

/-- The parts of a style that a page shows, in order. -/
def shownParts (options : Options) (d : Document) : List StylePart :=
  let (selected, messages) := inScope d options.scope
  match selected with
  | some found => (if options.clickable then [.link, .label .back] else []) ++ detailParts found.doc
  | none =>
    (if messages.isEmpty || !options.showProblems then [] else [.label .problems])
      ++ overviewParts options.clickable d.main d.declarations
      ++ (if options.clickable then [] else contentsParts d.declarations)

/-- Refuses the first of the parts that cannot be used. -/
def check (style : Style) (parts : List StylePart) : Except Fault Unit :=
  match parts.findSome? fun part => style.unusable.lookup part with
  | some fault => .error fault
  | none => .ok ()

/-- The page of a document, if everything on it can be shown. -/
def render (style : Style) (options : Options) (d : Document) : Except Fault Text := do
  check style (shownParts options d)
  return layout style options d

/-- One declaration in full, if everything in it can be shown. -/
def renderDeclaration (style : Style) (anchor : Text) (d : Declaration) : Except Fault Text := do
  check style (detailParts d.doc)
  return declaration style anchor d

/-- A main block, with a listing of declarations, if everything in it can be shown. -/
def renderOverview (style : Style) (clickable : Bool) (main : Block) (declarations : List Declaration) :
    Except Fault Text := do
  check style (overviewParts clickable main declarations)
  return overview style clickable main declarations

end Marginalia.Page
