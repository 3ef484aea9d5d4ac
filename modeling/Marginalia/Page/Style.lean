import Marginalia.Markup.Inline
import Marginalia.Markup.Link
import Marginalia.Settings.Basic

/-!
# Page styles

The words on a page, how links are built and how free text is converted. Words may be set to values that are no
texts; that is a fault only of the pages on which they stand.
-/

namespace Marginalia

/-- The words on a page. -/
inductive Label where
  | functions
  | classTitle
  | viewDetails
  | uses
  | parameters
  | returns
  | version
  | author
  | since
  | back
  | contents
  | problems
  deriving DecidableEq, Repr

namespace Label

/-- All words. -/
def all : List Label :=
  [.functions, .classTitle, .viewDetails, .uses, .parameters, .returns, .version, .author, .since, .back,
   .contents, .problems]

/-- The name of a word in the settings. -/
def name : Label → Text
  | .functions => "functions"
  | .classTitle => "class"
  | .viewDetails => "view_details"
  | .uses => "uses"
  | .parameters => "parameters"
  | .returns => "returns"
  | .version => "version"
  | .author => "author"
  | .since => "since"
  | .back => "back"
  | .contents => "contents"
  | .problems => "errors"

end Label

/-- The parts of a style that a page may use. -/
inductive StylePart where
  | label (l : Label)
  | separator
  | link
  deriving DecidableEq, Repr

/-- How pages look. -/
structure Style where
  label : Label → Text
  /-- Links in free text open here. -/
  linkTarget : Text
  /-- Stands between a namespace and a class. -/
  separator : Text
  links : Markup.LinkBuilder
  converter : Markup.Converter
  /-- Parts that cannot be used, and why. -/
  unusable : List (StylePart × Fault)

namespace Style

/-- A setting of the page, or its default. -/
def settingOr (render : Entries Value) (name : Text) : Value :=
  match render.get? name with
  | some v => v
  | none =>
    match (Settings.defaults.member? "render").bind (·.member? name) with
    | some v => v
    | none => .null

/-- A word of the page, or its default. -/
def labelOr (labels : Entries Value) (l : Label) : Value :=
  (labels.get? l.name).getD ((Settings.labels.member? l.name).getD .null)

/-- A label other than the title of a class must be a text. -/
def labelFault? (labels : Entries Value) (l : Label) : Option (StylePart × Fault) :=
  match l, labelOr labels l with
  | .classTitle, _ => none
  | _, .text _ => none
  | l, _ => some (.label l, .wrongShape)

/-- A separator must be a text. -/
def separatorFault? : Value → Option (StylePart × Fault)
  | .text _ => none
  | _ => some (.separator, .wrongType)

/-- A parameter of a query is neither a list nor an object. -/
def linkFault? : Value → Option (StylePart × Fault)
  | .list _ => some (.link, .wrongType)
  | .object _ => some (.link, .wrongType)
  | _ => none

/-- The members of a section of page settings; a section that counts as false has none. -/
def members (fault : Fault) (v : Value) : Except Fault (Entries Value) :=
  if !v.truthy then return []
  else
    match v with
    | .object members => return members
    | _ => throw fault

/-- The style of settings, with a way to build links if it is not the usual one. -/
def ofSettings (settings : Value) (converter : Markup.Converter) (links? : Option Markup.LinkBuilder) :
    Except Fault Style := do
  let render ← members .wrongShape (← Settings.part (settings.orElse (.object [])) "render")
  let labels ← members .wrongType ((render.get? "labels").getD .null)
  let target := settingOr render "link_target"
  let separator := settingOr render "namespace_separator"
  let param := settingOr render "link_param"
  return {
    label := fun l => (labelOr labels l).shown
    linkTarget := if target.truthy then target.shown else []
    separator := separator.shown
    links := links?.getD { param := param.shown }
    converter
    unusable := Label.all.filterMap (labelFault? labels) ++ (separatorFault? separator).toList
      ++ (if links?.isSome then [] else (linkFault? param).toList) }

end Style

end Marginalia
