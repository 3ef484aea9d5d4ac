import Marginalia.Proofs.Alike
import Marginalia.Proofs.Collected
import Marginalia.Proofs.Json
import Marginalia.Proofs.Lines
import Marginalia.Proofs.Requests
import Marginalia.Settings.Fingerprint

/-!
# Files that are read again

Two settings whose relevant sections differ in the order of their members only give the same document for a file,
but for its trace: the order shows neither in the characters that are looked for nor in the keyword that is found on
a line.
-/

namespace Marginalia

open Fallible Value

theorem contains_eq {xs ys : List Text} (same : ∀ t, t ∈ xs ↔ t ∈ ys) (t : Text) : xs.contains t = ys.contains t := by
  rw [Bool.eq_iff_iff, List.contains_iff_mem, List.contains_iff_mem, same]

namespace Scan

variable {p q : Profile}

theorem codeChar_alike (alike : p.Alike q) (skeleton : Skeleton) (c : Char) :
    codeChar q skeleton c = codeChar p skeleton c := by
  cases alike with
  | intro _ separators tight _ => simp only [codeChar, contains_eq separators, contains_eq tight]

theorem codeStep_alike (alike : p.Alike q) (s : State) (c : Char) (here : Text) :
    codeStep q s c here = codeStep p s c here := by
  have char := codeChar_alike alike
  cases alike with
  | intro quotes _ _ _ =>
    simp only [codeStep, char, ← contains_eq quotes]
    rfl

theorem visit_alike (alike : p.Alike q) (s : State) (c : Char) (here : Text) :
    visit q s c here = visit p s c here := by
  have leave : ∀ (s : State) (marker : Text), leave q s marker c here = leave p s marker c here := by
    intro s marker
    unfold Scan.leave
    rw [codeStep_alike alike]
  have code := codeStep_alike alike s c here
  unfold visit
  rw [code]
  simp only [leave]
  cases alike
  rfl

theorem run_alike (alike : p.Alike q) (s : State) (t : Text) : run q s t = run p s t := by
  induction t generalizing s with
  | nil => rfl
  | cons c after ih =>
    have step : step q s c after = step p s c after := by
      unfold Scan.step
      rw [visit_alike alike]
    simp only [run, step, ih]

end Scan

theorem segments_alike {p q : Profile} (alike : p.Alike q) (source : Text) : segments q source = segments p source := by
  unfold segments
  rw [Scan.run_alike alike]
  cases alike
  rfl

namespace Signature

theorem take_of_afterKeyword? {keyword line rest : Text} (found : afterKeyword? keyword line = some rest) :
    keyword = line.take keyword.length := by
  unfold afterKeyword? at found
  split at found
  · next c more start =>
    rw [Text.afterStart?_eq_some.mp start, List.take_left]
  · cases found

/-- It does not matter which of two keywords is looked at first: two that start a line and are equally long are one
    keyword. -/
theorem longer_comm {line : Text} {a b : Text × Kind} (distinct : a.1 = b.1 → a = b)
    (best : Option (Text × Kind × Text)) : longer line (longer line best a) b = longer line (longer line best b) a := by
  by_cases same : a = b
  · rw [same]
  cases first : afterKeyword? a.1 line with
  | none => simp only [longer, first]
  | some rest =>
    cases second : afterKeyword? b.1 line with
    | none => simp only [longer, first, second]
    | some rest' =>
      have lengths : a.1.length ≠ b.1.length := by
        intro equal
        apply same
        apply distinct
        rw [take_of_afterKeyword? first, take_of_afterKeyword? second, equal]
      cases best with
      | none =>
        simp only [longer, first, second]
        split_ifs <;> first | rfl | omega
      | some kept =>
        obtain ⟨longest, kind, tail⟩ := kept
        simp only [longer, first, second]
        by_cases beyondA : longest.length < a.1.length
        · by_cases beyondB : longest.length < b.1.length
          · simp only [beyondA, beyondB, if_true]
            split_ifs <;> first | rfl | omega
          · simp only [beyondA, beyondB, if_true, if_false]
            split_ifs <;> first | rfl | omega
        · by_cases beyondB : longest.length < b.1.length
          · simp only [beyondA, beyondB, if_true, if_false]
            split_ifs <;> first | rfl | omega
          · simp only [beyondA, beyondB, if_false]

theorem keywordOf?_of_perm {entries others : List (Text × Kind)} (nodup : (entries.map Prod.fst).Nodup)
    (perm : entries.Perm others) (line : Text) : keywordOf? entries line = keywordOf? others line := by
  rw [keywordOf?_eq, keywordOf?_eq]
  refine perm.foldl_eq' (fun a first b second best => ?_) none
  exact longer_comm (fun same => List.inj_on_of_nodup_map nodup first second same) best

theorem ofLine?_alike {p q : Profile} (alike : p.Alike q) (line : Text) : ofLine? q line = ofLine? p line := by
  cases alike with
  | intro _ _ _ declarations =>
    unfold ofLine?
    rw [keywordOf?_of_perm p.declarations.nodup declarations]

end Signature

namespace Collected

variable {p q : Profile}

theorem addCode_alike (alike : p.Alike q) (c : Collected) (code : Text) : c.addCode q code = c.addCode p code := by
  have found : Declaration.ofCode q code c.pending = Declaration.ofCode p code c.pending := by
    unfold Declaration.ofCode
    rw [funext (Signature.ofLine?_alike alike)]
  unfold addCode
  rw [found]

theorem addSegments_alike (alike : p.Alike q) (summaryOnly : Bool) (c : Collected) (segs : List Segment) :
    addSegments q summaryOnly c segs = addSegments p summaryOnly c segs := by
  have block : ∀ raw, Block.read q raw = Block.read p raw := by
    intro raw
    cases alike
    rfl
  induction segs generalizing c with
  | nil => rfl
  | cons segment rest ih => simp only [addSegments, addCode_alike alike, block, ih]

theorem ofSource_alike (alike : p.Alike q) (summaryOnly : Bool) (source : Text) :
    ofSource q summaryOnly source = ofSource p summaryOnly source := by
  rw [ofSource, ofSource, segments_alike alike, addSegments_alike alike]

end Collected

namespace Audit

/-- Two sets of rules that differ in the order of their names only. -/
structure Rules.Alike (r s : Rules) : Prop where
  enabled : r.enabled = s.enabled
  exemptNames : ∀ t, t ∈ r.exemptNames ↔ t ∈ s.exemptNames
  exemptKinds : ∀ t, t ∈ r.exemptKinds ↔ t ∈ s.exemptKinds

theorem agree_textSet {v w : Value} (alike : v.Alike w) :
    Agree (fun xs ys : List Text => ∀ t, t ∈ xs ↔ t ∈ ys) (textSet v) (textSet w) := by
  unfold textSet
  rw [alike.truthy]
  split
  · have elements := alike.elements?
    generalize v.elements? = first at elements
    generalize w.elements? = second at elements
    cases elements with
    | none => rfl
    | some related => exact (Profile.agree_checkSet related).bind fun _ _ => Profile.mem_textsOf_iff
  · exact fun t => Iff.rfl

theorem agree_rules {v w : Value} (alike : v.Alike w) : Agree Rules.Alike (Rules.ofSection v) (Rules.ofSection w) := by
  unfold Rules.ofSection
  rw [alike.truthy]
  split
  · exact ⟨rfl, fun _ => Iff.rfl, fun _ => Iff.rfl⟩
  · cases alike.view with
    | @plain v plain =>
      cases v with
      | object members => cases plain
      | _ => rfl
    | list each => rfl
    | @object members others each keys nodup =>
      have enabled : (members.get? "enabled").map Value.truthy = (others.get? "enabled").map Value.truthy := by
        have related := each "enabled"
        generalize members.get? "enabled" = first at related
        generalize others.get? "enabled" = second at related
        cases related with
        | none => rfl
        | some same => exact congrArg some same.truthy
      have names := agree_textSet (alike_getD (each "summary_exempt_names"))
      have kinds := agree_textSet (alike_getD (each "summary_exempt_kinds"))
      dsimp only
      rw [enabled]
      split
      · exact ⟨rfl, fun _ => Iff.rfl, fun _ => Iff.rfl⟩
      · refine names.bind fun xs ys sameNames => ?_
        refine kinds.bind fun zs us sameKinds => ?_
        exact ⟨rfl, sameNames, sameKinds⟩

theorem audit_alike {p q : Profile} (alike : p.Alike q) {r s : Rules} (rules : r.Alike s) (d : Document) :
    audit q s d = audit p r d := by
  have params : ∀ x, checkParams q x = checkParams p x := by
    intro x
    cases alike
    rfl
  have each : checkDeclaration q s = checkDeclaration p r := by
    funext x
    unfold checkDeclaration Rules.exempts
    rw [params, contains_eq rules.exemptNames, contains_eq rules.exemptKinds]
  unfold audit
  rw [each, rules.enabled]

end Audit

namespace Settings

/-- Two settings whose relevant sections differ in the order of members only. -/
def Alike (v w : Value) : Prop := ∀ name ∈ relevantParts, Agree Value.Alike (part v name) (part w name)

theorem relevantText_eq_ok {v : Value} {t : Text} (given : relevantText v = .ok t) :
    ∃ languages syntaxes lint, part v "languages" = .ok languages ∧ part v "syntax" = .ok syntaxes
      ∧ part v "lint" = .ok lint
      ∧ t = Json.write .canonical (.object [("languages", languages), ("syntax", syntaxes), ("lint", lint)]) := by
  obtain ⟨members, read, given⟩ := bind_eq_ok.mp given
  cases forall₂_of_mapM read with
  | cons first rest =>
    cases rest with
    | cons second rest =>
      cases rest with
      | cons third rest =>
        cases rest
        obtain ⟨languages, foundLanguages, first⟩ := bind_eq_ok.mp first
        obtain ⟨syntaxes, foundSyntaxes, second⟩ := bind_eq_ok.mp second
        obtain ⟨lint, foundLint, third⟩ := bind_eq_ok.mp third
        cases first
        cases second
        cases third
        exact ⟨languages, syntaxes, lint, foundLanguages, foundSyntaxes, foundLint, (Except.ok.inj given).symm⟩

theorem wellFormed_part {v a : Value} (wellFormed : v.WellFormed) {name : Text} (found : part v name = .ok a) :
    a.WellFormed := by
  obtain ⟨b, -, same⟩ := (agree_part (.refl wellFormed) name).ok found
  exact same.first

/-- The relevant sections as text tell them up to the order of their members. -/
theorem alike_of_relevantText {v w : Value} (first : v.WellFormed) (second : w.WellFormed) {t : Text}
    (left : relevantText v = .ok t) (right : relevantText w = .ok t) : Alike v w := by
  obtain ⟨a, b, c, foundA, foundB, foundC, rfl⟩ := relevantText_eq_ok left
  obtain ⟨x, y, z, foundX, foundY, foundZ, same⟩ := relevantText_eq_ok right
  have names : Entries.keys [(("languages" : Text), a), ("syntax", b), ("lint", c)] |>.Nodup :=
    show [("languages" : Text), "syntax", "lint"].Nodup by decide
  have wellFormed : (Value.object [("languages", a), ("syntax", b), ("lint", c)]).WellFormed := by
    refine Value.wellFormed_object.mpr ⟨names, ?_⟩
    simp [wellFormed_part first foundA, wellFormed_part first foundB, wellFormed_part first foundC]
  have wellFormedToo : (Value.object [("languages", x), ("syntax", y), ("lint", z)]).WellFormed := by
    refine Value.wellFormed_object.mpr ⟨names, ?_⟩
    simp [wellFormed_part second foundX, wellFormed_part second foundY, wellFormed_part second foundZ]
  obtain ⟨each, -⟩ := Value.alike_members wellFormed wellFormedToo
    (Json.sorted_eq_of_write_eq rfl wellFormed wellFormedToo same)
  have agree : ∀ {name : Text} {m n : Value}, part v name = .ok m → part w name = .ok n →
      Option.Rel Value.Alike (some m) (some n) → Agree Value.Alike (part v name) (part w name) := by
    intro name m n found foundToo related
    rw [found, foundToo]
    cases related with
    | some alike => exact alike
  intro name relevant
  simp only [relevantParts, List.mem_cons, List.not_mem_nil, or_false] at relevant
  rcases relevant with rfl | rfl | rfl
  · exact agree foundA foundX (each "languages")
  · exact agree foundB foundY (each "syntax")
  · exact agree foundC foundZ (each "lint")

/-- The settings name a section with the markers of a file extension. -/
inductive Finds (v : Value) (extension : Text) : Value → Prop where
  | intro {languages : Value} {name : Text} {profiles : Entries Value}
    (inLanguages : objectPart v "languages" = .ok languages)
    (language : part languages extension.lower = .ok (.text name)) (named : (Value.text name).truthy = true)
    (inSyntax : objectPart v "syntax" = .ok (.object profiles))
    (given : ((profiles.get? name).getD .null).truthy = true) : Finds v extension ((profiles.get? name).getD .null)

theorem profileFor?_of_finds {v markers : Value} {extension : Text} (finds : Finds v extension markers) :
    profileFor? v extension = Profile.ofSection markers >>= fun p => .ok (some p) := by
  cases finds with
  | intro inLanguages language named inSyntax given =>
    unfold profileFor?
    rw [inLanguages]
    simp only [bind, Except.bind, language, named, inSyntax, given, Bool.not_true, Bool.false_eq_true, if_false,
      if_true]
    rfl

theorem exists_finds {v : Value} {extension : Text} {p : Profile} (given : profileFor? v extension = .ok (some p)) :
    ∃ markers, Finds v extension markers ∧ Profile.ofSection markers = .ok p := by
  obtain ⟨languages, foundLanguages, given⟩ := bind_eq_ok.mp given
  obtain ⟨language, foundLanguage, given⟩ := bind_eq_ok.mp given
  split at given
  · cases given
  · next named =>
    obtain ⟨profiles, foundProfiles, given⟩ := bind_eq_ok.mp given
    cases profiles with
    | object profiles =>
      cases language with
      | text name =>
        dsimp only at given
        split at given
        · next marked =>
          obtain ⟨read, found, given⟩ := bind_eq_ok.mp given
          cases given
          exact ⟨_, ⟨foundLanguages, foundLanguage, by simpa using named, foundProfiles, marked⟩, found⟩
        · cases given
      | _ => cases given
    | _ => cases given

theorem Finds.alike {v w markers : Value} (alike : Alike v w) {extension : Text} (finds : Finds v extension markers) :
    ∃ others, Finds w extension others ∧ markers.Alike others := by
  cases finds with
  | @intro languages name profiles foundLanguages foundLanguage named foundProfiles given =>
    obtain ⟨languages', foundLanguages', sameLanguages⟩ :=
      (agree_objectPart (alike "languages" (by decide))).ok foundLanguages
    obtain ⟨language', foundLanguage', sameLanguage⟩ := (agree_part sameLanguages extension.lower).ok foundLanguage
    obtain rfl := sameLanguage.eq_of_isPlain rfl
    obtain ⟨profiles', foundProfiles', sameProfiles⟩ := (agree_objectPart (alike "syntax" (by decide))).ok foundProfiles
    cases sameProfiles.view with
    | plain plain => cases plain
    | object each keys nodup =>
      have markers := Value.alike_getD (each name)
      exact ⟨_, ⟨foundLanguages', foundLanguage', named, foundProfiles', markers.truthy ▸ given⟩, markers⟩

theorem alike_profileFor? {v w : Value} (alike : Alike v w) {extension : Text} {p q : Profile}
    (left : profileFor? v extension = .ok (some p)) (right : profileFor? w extension = .ok (some q)) : p.Alike q := by
  obtain ⟨markers, finds, read⟩ := exists_finds left
  obtain ⟨others, findsToo, same⟩ := finds.alike alike
  rw [profileFor?_of_finds findsToo] at right
  obtain ⟨q', readToo, right⟩ := bind_eq_ok.mp right
  cases right
  exact Profile.alike_ofSection same read readToo

end Settings

theorem Settings.orElse_of_profileFor? {v : Value} {extension : Text} {p : Profile}
    (given : profileFor? v extension = .ok (some p)) : v.orElse (.object []) = v := by
  obtain ⟨-, ⟨found, -, -, -, -⟩, -⟩ := exists_finds given
  obtain ⟨a, part, -⟩ := bind_eq_ok.mp found
  exact part_orElse part

namespace Document

/-- Two documents that are the same but for their traces. -/
def SameButTrace (d e : Document) : Prop := ∃ trace, e = { d with debug := trace }

/-- What has been collected gives the same document with settings alike, but for its trace. -/
theorem agree_ofCollected {p q : Profile} (profiles : p.Alike q) {v w : Value} (alike : Settings.Alike v w)
    (firstObject : v.orElse (.object []) = v) (secondObject : w.orElse (.object []) = w) {debug debug' : Bool}
    (asked : Settings.debug v = .ok debug) (askedToo : Settings.debug w = .ok debug') (filename : Text)
    (request : Request) (c : Collected) :
    Agree SameButTrace (ofCollected p v filename request c) (ofCollected q w filename request c) := by
  obtain ⟨summaryOnly, lookup⟩ := request
  cases summaryOnly with
  | true =>
    rw [ofCollected_summaryOnly, ofCollected_summaryOnly, firstObject, secondObject, asked, askedToo]
    exact ⟨_, rfl⟩
  | false =>
    rw [ofCollected_eq, ofCollected_eq, firstObject, secondObject, asked, askedToo]
    refine ((alike "lint" (by decide)).bind fun _ _ => Audit.agree_rules).bind fun rules others same => ?_
    -- the audit does not look at the trace
    have audits : audit q others (c.document filename debug' []) = audit p rules (c.document filename debug []) :=
      Audit.audit_alike profiles same _
    rw [audits]
    refine (agree_refl (R := Eq) (fun _ => rfl) _).bind fun problems _ equal => ?_
    subst equal
    exact ⟨c.trace filename debug', lookingFor_debug lookup (c.document filename debug problems) _⟩

end Document

/-- A file that is read again with settings alike and the same content gives the same document, but for its trace. -/
theorem Document.parsedFrom_alike {before tree : FileTree} {v w : Value} (alike : Settings.Alike v w) {filename : Text}
    {d : Document} {q : Profile} (parsed : ParsedFrom before v filename d)
    (known : profileOfFile tree w filename = .ok (.inr q))
    (content : tree.read (Path.ofText filename) = before.read (Path.ofText filename)) :
    ∃ trace noted, parseFile tree w q (Path.ofText filename) false = (.ok { d with debug := trace }, noted) := by
  obtain ⟨p, noted, knownBefore, read⟩ := parsed
  obtain ⟨⟨debug, asked⟩, -, foundP⟩ := profileOfFile_eq_inr.mp knownBefore
  obtain ⟨⟨debug', askedToo⟩, -, foundQ⟩ := profileOfFile_eq_inr.mp known
  have profiles := Settings.alike_profileFor? alike foundP foundQ
  unfold parseFile at read
  cases loaded : Source.load before (Path.ofText filename) with
  | error fault =>
    rw [loaded] at read
    cases read
  | ok source =>
    obtain ⟨octets, given, named, text⟩ := Source.load_eq_ok loaded
    obtain ⟨source', loadedToo⟩ := Source.exists_load (content.trans given)
    obtain ⟨octets', givenToo, namedToo, textToo⟩ := Source.load_eq_ok loadedToo
    obtain rfl : octets' = octets := Except.ok.inj (givenToo.symm.trans (content.trans given))
    rw [loaded] at read
    obtain ⟨collected, -⟩ := Prod.mk.inj read
    obtain ⟨_, collectedToo, trace, rfl⟩ := (agree_ofCollected profiles alike (Settings.orElse_of_profileFor? foundP)
      (Settings.orElse_of_profileFor? foundQ) asked askedToo _ {} _).ok collected
    refine ⟨trace, (parseFile tree w q (Path.ofText filename) false).2, Prod.ext ?_ rfl⟩
    rw [parseFile, loadedToo]
    dsimp only
    rw [namedToo, textToo, ← named, ← text, Collected.ofSource_alike profiles]
    exact collectedToo

end Marginalia
