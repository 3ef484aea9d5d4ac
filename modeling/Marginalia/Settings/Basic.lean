import Marginalia.Profile
import Marginalia.Settings.Defaults
import Marginalia.Text.Case

/-!
# Settings

Settings are an object. Its sections say which profile a file extension has, what the markers of a profile
are, what an audit checks and how pages look.
-/

namespace Marginalia.Settings

/-- A section of the settings, null where there is none. -/
def part (settings : Value) (name : Text) : Except Fault Value :=
  match settings.member? name with
  | some v => .ok v
  | none => .error .wrongShape

/-- A section that is an object; one that counts as false has no members. -/
def objectPart (settings : Value) (name : Text) : Except Fault Value := do
  let v ← part settings name
  return if v.truthy then v else .object []

/-- The settings ask for a trace of what is done. -/
def debug (settings : Value) : Except Fault Bool := do
  return (← part settings "debug").truthy

/-- The profile for a file extension. -/
def profileFor? (settings : Value) (extension : Text) : Except Fault (Option Profile) := do
  let languages ← objectPart settings "languages"
  let language ← part languages extension.lower
  if !language.truthy then return none
  let .object profiles ← objectPart settings "syntax" | throw .wrongShape
  match language with
  | .text name =>
    let markers := (Entries.get? profiles name).getD .null
    if markers.truthy then return some (← Profile.ofSection markers) else return none
  | .list _ => throw .wrongType
  | .object _ => throw .wrongType
  | _ => return none

/-- The built-in profile. -/
def phpProfile : Except Fault Profile := Profile.ofSection php

end Marginalia.Settings
