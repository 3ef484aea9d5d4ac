import Marginalia.Anchor
import Marginalia.Files.Path
import Marginalia.Markup.Table
import Marginalia.Page.Style

/-!
# Pages

A page shows a document or the one declaration that was asked for. A page of a whole document lists the
declarations under the class they follow. If the page is clickable, the listed names lead to pages of their
own; otherwise all declarations follow in full and the names lead to their anchors.
-/

namespace Marginalia.Page

open Markup

/-- How a document is to be shown. -/
structure Options where
  clickable : Bool := false
  /-- Shows only this declaration; empty for the one selected in the document. -/
  scope : Text := []
  showProblems : Bool := true
  deriving DecidableEq, Repr

/-- Free text as markup. -/
def prose (style : Style) (t : Text) : Text := convert style.converter false style.linkTarget t

/-- Free text as markup inside a line. -/
def phrase (style : Style) (t : Text) : Text := convert style.converter true style.linkTarget t

/-- A type. -/
def typeCode (type : Text) : Text :=
  if type.isEmpty then [] else "<code>" ++ escape type ++ "</code>"

/-- A section with a heading. -/
def headed (cssClass title body : Text) : Text :=
  "<div class=\"" ++ cssClass ++ "\"><h2>" ++ escape title ++ "</h2>" ++ body ++ "</div>"

/-- The declaration line: keyword, name, arguments and the type of the result. -/
def signatureLine (s : Signature) (b : Block) : Text :=
  let result : Text :=
    match b.returns with
    | some r => if r.type.isEmpty then [] else " : " ++ r.type
    | none => []
  let line : Text :=
    if !s.kind.isContainer then s.keyword ++ " " ++ s.name ++ "(" ++ s.arguments ++ ")" ++ result
    else if s.arguments.isEmpty then s.keyword ++ " " ++ s.name
    else s.keyword ++ " " ++ s.name ++ " " ++ s.arguments
  "<pre class=\"docsyntax\">" ++ escape line ++ "</pre>"

/-- The modules that are used. -/
def usesSection (style : Style) (b : Block) : List Text :=
  if b.uses.isEmpty then []
  else
    let item (entry : Text × Text) : Text :=
      "<li>" ++ usedModule style.converter entry.1 entry.2 ++ "</li>"
    [headed "docuses" (style.label .uses) ("<ul>" ++ b.uses.entries.flatMap item ++ "</ul>")]

/-- The table of parameters. -/
def paramsSection (style : Style) (b : Block) : List Text :=
  if b.params.isEmpty then []
  else
    let cells (entry : Text × Typed) : List Text :=
      ["<b>" ++ escape entry.1 ++ "</b>", typeCode entry.2.type, phrase style entry.2.description]
    let rows := table ["Name", "Type", "Description"] (b.params.entries.map cells) "docparams"
    [headed "docparam" (style.label .parameters) ("\n" ++ rows ++ "\n")]

/-- The result. -/
def returnsSection (style : Style) (b : Block) : List Text :=
  match b.returns with
  | none => []
  | some r =>
    let type := typeCode r.type
    let description : Text :=
      if r.description.isEmpty then []
      else (if type.isEmpty then "" else " ") ++ phrase style r.description
    [headed "docreturn" (style.label .returns) ("<ul><li>" ++ type ++ description ++ "</li></ul>")]

/-- The value of a tag as one text. -/
def tagText : TagValue → Text
  | .one t => t.trim
  | .many ts => Text.join ", " ((ts.map Text.trim).filter (!·.isEmpty))

/-- A text with its line feeds as breaks. -/
def withBreaks (t : Text) : Text := t.flatMap fun c => if c = '\n' then "<br>\n" else [c]

/-- The tags shown below everything else. -/
def infoLabels : List Label := [.version, .author, .since]

/-- One of the tags shown below everything else. -/
def infoLine (style : Style) (b : Block) (l : Label) : Option Text :=
  match b.tags.get? l.name with
  | none => none
  | some value =>
    let t := tagText value
    if t.isEmpty then none
    else
      some ("<p class=\"docinfo\"><b>" ++ escape (style.label l) ++ ":</b> " ++ withBreaks (escape t)
        ++ "</p>")

/-- What a block says below its description. -/
def details (style : Style) (b : Block) : List Text :=
  usesSection style b ++ paramsSection style b ++ returnsSection style b
    ++ infoLabels.filterMap (infoLine style b)

/-- The summary of a block. -/
def summaryPart (style : Style) (b : Block) : List Text :=
  if b.summary.isEmpty then []
  else ["<div class=\"docsummary\">" ++ prose style b.summary ++ "</div>"]

/-- The description of a block. -/
def descriptionPart (style : Style) (b : Block) : List Text :=
  if b.description.isEmpty then []
  else ["<div class=\"docdesc\">" ++ prose style b.description ++ "</div>"]

/-- One declaration in full at an anchor; an empty anchor means the slug of the name. -/
def declaration (style : Style) (anchor : Text) (d : Declaration) : Text :=
  let id := if anchor.isEmpty then Anchor.slug d.name else anchor
  Text.join "\n"
    (["<p class=\"docfunction\" id=\"" ++ id ++ "\">" ++ escape d.name ++ "</p>"]
      ++ summaryPart style d.doc ++ [signatureLine d.signature d.doc] ++ descriptionPart style d.doc
      ++ details style d.doc)

/-- A class with the declarations that follow it, or the declarations before the first class. -/
structure Group where
  /-- The class and the namespace written before its name. -/
  head : Option (Text × Declaration)
  /-- The declarations with their anchors. -/
  members : List (Declaration × Text)
  deriving DecidableEq, Repr

/-- The groups of declarations: `current` is the group begun, its members last one first, and `space` the
    namespace before the next class. -/
def groupsFrom (separator : Text) : Group → Text → List (Declaration × Text) → List Group
  | current, _, [] => [{ current with members := current.members.reverse }]
  | current, space, (d, anchor) :: rest =>
    match d.kind with
    | .namespaceDecl => groupsFrom separator current (d.name ++ separator) rest
    | .classDecl =>
      { current with members := current.members.reverse }
        :: groupsFrom separator ⟨some (space, d), []⟩ space rest
    | _ => groupsFrom separator { current with members := (d, anchor) :: current.members } space rest

/-- The groups of declarations in order. -/
def groups (separator : Text) (declarations : List Declaration) : List Group :=
  groupsFrom separator ⟨none, []⟩ [] (declarations.zip (anchors declarations))

/-- Kinds listed without their keyword. -/
def isPlainKind (k : Kind) : Bool := k == .function || k == .publicMethod

/-- One declaration in a listing. -/
def listingItem (style : Style) (clickable : Bool) (d : Declaration) (anchor : Text) : Text :=
  let name : Text :=
    if clickable then style.links.link d.name (some d.name)
    else "<a href=\"#" ++ anchor ++ "\"><b>" ++ escape d.name ++ "</b></a>"
  let keyword : Text :=
    if isPlainKind d.kind then [] else " (" ++ escape d.signature.keyword ++ ")"
  let summary : Text :=
    if d.doc.summary.isEmpty then [] else " -- " ++ phrase style d.doc.summary
  name ++ keyword ++ summary

/-- The items of a group by lower-case name; of one name the last declaration counts. -/
def groupItems (style : Style) (clickable : Bool) (g : Group) : Dict Text :=
  Dict.ofList (g.members.map fun (d, anchor) => (d.name.lower, listingItem style clickable d anchor))

/-- The items of a group in the order of their names. -/
def sortedItems (items : Dict Text) : List Text :=
  (items.entries.mergeSort fun a b => Text.le a.1 b.1).map Prod.snd

/-- What is said of a class above its listing. -/
def groupIntro (style : Style) (clickable : Bool) (d : Declaration) : Text :=
  let summary : Text := if d.doc.summary.isEmpty then [] else prose style d.doc.summary
  if clickable then
    summary ++ "<p>" ++ style.links.link (style.label .viewDetails) (some d.name) ++ "</p>"
  else summary

/-- The listing of a group. Without a class, a group without items is not listed. -/
def groupSection (style : Style) (clickable : Bool) (g : Group) : Option Text :=
  let items := groupItems style clickable g
  let listing : Text :=
    if items.isEmpty then []
    else "<ul>" ++ (sortedItems items).flatMap (element "li") ++ "</ul>"
  match g.head with
  | some (space, d) =>
    some (headed "docfun" (style.label .classTitle ++ " " ++ space ++ d.name)
      (groupIntro style clickable d ++ listing))
  | none => if items.isEmpty then none else some (headed "docfun" (style.label .functions) listing)

/-- The listing of all declarations. -/
def listing (style : Style) (clickable : Bool) (declarations : List Declaration) : List Text :=
  (groups style.separator declarations).filterMap (groupSection style clickable)

/-- The main block of a document, with the listing of its declarations. -/
def overview (style : Style) (clickable : Bool) (main : Block) (declarations : List Declaration) : Text :=
  Text.join "\n"
    (summaryPart style main ++ descriptionPart style main ++ listing style clickable declarations
      ++ details style main)

/-- All declarations in full, namespaces apart. -/
def contents (style : Style) (declarations : List Declaration) : Text :=
  let sections := (declarations.zip (anchors declarations)).filterMap fun (d, anchor) =>
    if d.kind = .namespaceDecl then none else some (declaration style anchor d)
  if sections.isEmpty then []
  else
    "<div class=\"docnonav\"><h1>" ++ escape (style.label .contents) ++ "</h1>\n"
      ++ Text.join "\n" sections ++ "\n</div>"

/-- The problems as a part that can be folded away. -/
def problemsPart (style : Style) (messages : List Text) : Text :=
  "<details class=\"docerrors\" open><summary>" ++ escape (style.label .problems) ++ " ("
    ++ decimal messages.length ++ ")</summary><ul>"
    ++ messages.flatMap (fun m => element "li" (escape m)) ++ "</ul></details>"

/-- The declaration to be shown alone, and the problems to be shown. -/
def inScope (d : Document) (scope : Text) : Option Declaration × List Text :=
  if scope.isEmpty then (d.selection, d.messages)
  else
    match d.lookup scope with
    | some found => (some found, d.messages)
    | none => (none, d.messages ++ [Document.notFoundMessage scope])

/-- The file name of a document, with a link back to the whole document where one declaration is shown. -/
def header (style : Style) (backLink : Bool) (filename : Text) : Text :=
  let name := escape (Path.ofText filename).name
  if backLink then name ++ " " ++ style.links.link (style.label .back) none else name

/-- The parts of a page between its first and last line. -/
def body (style : Style) (options : Options) (d : Document) : List Text :=
  let (selected, messages) := inScope d options.scope
  match selected with
  | some found => [declaration style [] found]
  | none =>
    (if messages.isEmpty || !options.showProblems then [] else [problemsPart style messages])
      ++ [overview style options.clickable d.main d.declarations]
      ++ (if options.clickable then [] else [contents style d.declarations])

/-- The page of a document. -/
def layout (style : Style) (options : Options) (d : Document) : Text :=
  let backLink := (inScope d options.scope).1.isSome && options.clickable
  let file : Text := "<div class=\"docfile\">" ++ header style backLink d.filename ++ "</div>"
  let parts := "<div class=\"docblock\">".toList :: file :: body style options d ++ ["</div>".toList]
  Text.join "\n" (parts.filter (!·.isEmpty)) ++ "\n"

end Marginalia.Page
