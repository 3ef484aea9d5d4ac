import Marginalia.Proofs.KeywordPattern
import Marginalia.Proofs.Reread

/-!
# Keywords on lines

A line declares something exactly if one of the keywords stands in front of a blank at its start. The longest of these
counts, and there is only one of its length. So nothing that is found on a line, or in code, depends on the order in
which the keywords are given.
-/

namespace Marginalia

namespace Signature

/-- The line starts with the keyword and at least one blank. -/
def Heads (keyword line : Text) : Prop :=
  ∃ blanks rest : Text, blanks ≠ [] ∧ (∀ c ∈ blanks, isBlank c = true) ∧ line = keyword ++ blanks ++ rest

theorem heads_iff {keyword line : Text} :
    Heads keyword line ↔ ∃ c rest, isBlank c = true ∧ line = keyword ++ c :: rest := by
  constructor
  · rintro ⟨blanks, rest, content, blank, rfl⟩
    obtain ⟨c, more, rfl⟩ := List.exists_cons_of_ne_nil content
    exact ⟨c, more ++ rest, blank c List.mem_cons_self, by simp⟩
  · rintro ⟨c, rest, blank, rfl⟩
    exact ⟨[c], rest, by simp, by simpa using blank, by simp⟩

theorem heads_of_afterKeyword? {keyword line rest : Text} (found : afterKeyword? keyword line = some rest) :
    Heads keyword line := by
  unfold afterKeyword? at found
  split at found
  · next c more start =>
    split at found
    · next blank => exact heads_iff.mpr ⟨c, more, blank, Text.afterStart?_eq_some.mp start⟩
    · cases found
  · cases found

/-- Where there are no line feeds, nothing but the keyword and the blank counts. -/
theorem isSome_afterKeyword?_iff {keyword line : Text} (one : '\n' ∉ line) :
    (afterKeyword? keyword line).isSome = true ↔ Heads keyword line := by
  constructor
  · intro some
    obtain ⟨rest, found⟩ := Option.isSome_iff_exists.mp some
    exact heads_of_afterKeyword? found
  · intro heads
    obtain ⟨c, rest, blank, rfl⟩ := heads_iff.mp heads
    have still : '\n' ∉ Text.trimLeft rest := by
      intro feed
      apply one
      exact List.mem_append_right _ (List.mem_cons_of_mem c ((List.dropWhile_suffix isBlank).subset feed))
    rw [afterKeyword?_append]
    simp [afterKeyword?, Text.afterStart?, blank, still]

/-! ## The longest keyword -/

/-- What has been found among the keywords looked at: none of them fits, or it is one of the longest that fit. -/
inductive Best (line : Text) (seen : List (Text × Kind)) : Option (Text × Kind × Text) → Prop where
  | none (absent : ∀ entry ∈ seen, afterKeyword? entry.1 line = none) : Best line seen none
  | some {keyword : Text} {kind : Kind} {rest : Text} (member : (keyword, kind) ∈ seen)
    (found : afterKeyword? keyword line = some rest)
    (longest : ∀ entry ∈ seen, (afterKeyword? entry.1 line).isSome = true → entry.1.length ≤ keyword.length) :
    Best line seen (some (keyword, kind, rest))

/-- One keyword more. -/
theorem Best.longer {line : Text} {seen : List (Text × Kind)} {best : Option (Text × Kind × Text)}
    (holds : Best line seen best) (entry : Text × Kind) : Best line (seen ++ [entry]) (longer line best entry) := by
  unfold Signature.longer
  cases fits : afterKeyword? entry.1 line with
  | none =>
    cases holds with
    | none absent =>
      refine .none (List.forall_mem_append.mpr ⟨absent, ?_⟩)
      exact List.forall_mem_singleton.mpr fits
    | some member found longest =>
      refine .some (List.mem_append_left _ member) found (List.forall_mem_append.mpr ⟨longest, ?_⟩)
      refine List.forall_mem_singleton.mpr fun some => ?_
      rw [fits] at some
      cases some
  | some rest =>
    have new : entry ∈ seen ++ [entry] := List.mem_append_right _ List.mem_cons_self
    cases holds with
    | none absent =>
      refine .some new fits (List.forall_mem_append.mpr ⟨fun other inside some => ?_, ?_⟩)
      · rw [absent other inside] at some
        cases some
      · exact List.forall_mem_singleton.mpr fun _ => Nat.le_refl _
    | @some keyword kind tail member found longest =>
      dsimp only
      by_cases beyond : keyword.length < entry.1.length
      · rw [if_pos beyond]
        refine .some new fits (List.forall_mem_append.mpr ⟨fun other inside some => ?_, ?_⟩)
        · exact (longest other inside some).trans beyond.le
        · exact List.forall_mem_singleton.mpr fun _ => Nat.le_refl _
      · rw [if_neg beyond]
        refine .some (List.mem_append_left _ member) found (List.forall_mem_append.mpr ⟨longest, ?_⟩)
        exact List.forall_mem_singleton.mpr fun _ => Nat.le_of_not_lt beyond

theorem best_keywordOf? (entries : List (Text × Kind)) (line : Text) : Best line entries (keywordOf? entries line) := by
  rw [keywordOf?_eq]
  induction entries using List.reverseRecOn with
  | nil => exact .none fun _ member => absurd member List.not_mem_nil
  | append_singleton entries entry ih =>
    rw [List.foldl_append]
    exact ih.longer entry

/-- Two keywords of one length at the start of a line are one keyword. -/
theorem eq_of_length_eq {keyword other line rest rest' : Text} (found : afterKeyword? keyword line = some rest)
    (foundToo : afterKeyword? other line = some rest') (lengths : keyword.length = other.length) : keyword = other := by
  rw [take_of_afterKeyword? found, take_of_afterKeyword? foundToo, lengths]

theorem keywordOf?_of_longest {entries : Entries Kind} (nodup : entries.keys.Nodup) {keyword line rest : Text}
    {kind : Kind} (member : (keyword, kind) ∈ entries) (found : afterKeyword? keyword line = some rest)
    (longest : ∀ entry ∈ entries, (afterKeyword? entry.1 line).isSome = true → entry.1.length ≤ keyword.length) :
    keywordOf? entries line = some (keyword, kind, rest) := by
  have best := best_keywordOf? entries line
  generalize keywordOf? entries line = result at best
  cases best with
  | none absent =>
    rw [absent _ member] at found
    cases found
  | @some other otherKind otherRest declared foundToo longestToo =>
    have most := longest _ declared (Option.isSome_of_eq_some foundToo)
    have least := longestToo _ member (Option.isSome_of_eq_some found)
    obtain rfl := eq_of_length_eq foundToo found (Nat.le_antisymm most least)
    obtain rfl := Option.some.inj (foundToo.symm.trans found)
    have kinds := (Entries.get?_eq_some_iff nodup).mpr declared
    rw [(Entries.get?_eq_some_iff nodup).mpr member] at kinds
    rw [Option.some.inj kinds]

/-- The keyword that is found is the one that the pattern of the keywords finds. -/
theorem matched?_map_fst (entries : List (Text × Kind)) {line : Text} (tight : line.Tight) :
    matched? (entries.map Prod.fst) line
      = (keywordOf? entries line).map fun found => (some found.1, some found.2.2) := by
  rw [matched?_eq _ tight]
  have perm := List.mergeSort_perm (entries.map Prod.fst) fun a b => b.length ≤ a.length
  have sorted : ((entries.map Prod.fst).mergeSort fun a b => b.length ≤ a.length).Pairwise fun a b =>
      decide (b.length ≤ a.length) = true := by
    apply List.pairwise_mergeSort
    · intro a b c first second
      rw [decide_eq_true_iff] at *
      exact second.trans first
    · intro a b
      rw [Bool.or_eq_true, decide_eq_true_iff, decide_eq_true_iff]
      exact Nat.le_total _ _
  generalize (entries.map Prod.fst).mergeSort (fun a b => b.length ≤ a.length) = keywords at perm sorted
  have best := best_keywordOf? entries line
  generalize keywordOf? entries line = result at best
  cases best with
  | none absent =>
    rw [Option.map_none, List.findSome?_eq_none_iff]
    intro keyword member
    obtain ⟨entry, inside, rfl⟩ := List.mem_map.mp (perm.mem_iff.mp member)
    rw [absent entry inside, Option.map_none]
  | @some keyword kind rest member found longest =>
    have there : keyword ∈ keywords := perm.mem_iff.mpr (List.mem_map_of_mem (f := Prod.fst) member)
    -- up to the keyword there are only others that are at least as long
    obtain ⟨before, after, rfl, first⟩ := List.eq_append_cons_of_mem there
    rw [Option.map_some, List.findSome?_eq_some_iff]
    refine ⟨before, keyword, after, rfl, by rw [found, Option.map_some], fun other inside => ?_⟩
    rw [List.pairwise_append] at sorted
    have least : keyword.length ≤ other.length :=
      decide_eq_true_iff.mp (sorted.2.2 other inside keyword List.mem_cons_self)
    rw [Option.map_eq_none_iff, Option.eq_none_iff_forall_ne_some]
    intro rest' foundToo
    obtain ⟨entry, declared, rfl⟩ := List.mem_map.mp (perm.mem_iff.mp (List.mem_append_left _ inside))
    have most := longest entry declared (Option.isSome_of_eq_some foundToo)
    rw [← eq_of_length_eq foundToo found (Nat.le_antisymm most least)] at first
    exact first inside

/-! ## What is found on a line -/

theorem ofLine?_eq_some {p : Profile} {line : Text} {found : Signature} (declares : ofLine? p line = some found) :
    ∃ rest, keywordOf? p.declarations.entries line.trim = some (found.keyword, found.kind, rest) := by
  unfold ofLine? at declares
  split at declares
  · cases declares
  · next keyword kind rest same =>
    obtain rfl := Option.some.inj declares
    exact ⟨rest, same⟩

theorem map_keyword_ofLine? (p : Profile) (line : Text) :
    (ofLine? p line).map keyword = (keywordOf? p.declarations.entries line.trim).map Prod.fst := by
  unfold ofLine?
  cases keywordOf? p.declarations.entries line.trim <;> rfl

theorem not_mem_trim {line : Text} {c : Char} (absent : c ∉ line) : c ∉ line.trim := by
  intro member
  obtain ⟨before, after, whole, -⟩ := Text.exists_trim line
  rw [whole] at absent
  exact absent (List.mem_append_left _ (List.mem_append_right _ member))

/-- What is declared on a line goes by its longest keyword. -/
structure Longest (p : Profile) (line : Text) (found : Signature) : Prop where
  heads : Heads found.keyword line.trim
  declared : p.declarations.get? found.keyword = some found.kind
  longest : ∀ keyword ∈ p.declarations.keys, Heads keyword line.trim → keyword ≠ found.keyword →
    keyword.length < found.keyword.length

theorem longest_of_ofLine? {p : Profile} {line : Text} (one : '\n' ∉ line) {found : Signature}
    (declares : ofLine? p line = some found) : Longest p line found := by
  obtain ⟨rest, same⟩ := ofLine?_eq_some declares
  have best := best_keywordOf? p.declarations.entries line.trim
  rw [same] at best
  cases best with
  | some member fits longest =>
    refine ⟨heads_of_afterKeyword? fits, (Entries.get?_eq_some_iff p.declarations.nodup).mpr member, ?_⟩
    intro keyword declared heads different
    obtain ⟨entry, inside, rfl⟩ := List.mem_map.mp declared
    have fitsToo := (isSome_afterKeyword?_iff (not_mem_trim one)).mpr heads
    obtain ⟨rest', foundToo⟩ := Option.isSome_iff_exists.mp fitsToo
    refine Nat.lt_of_le_of_ne (longest entry inside fitsToo) fun lengths => ?_
    exact different (eq_of_length_eq foundToo fits lengths)

theorem isSome_ofLine?_iff {p : Profile} {line : Text} (one : '\n' ∉ line) :
    (ofLine? p line).isSome = true ↔ ∃ keyword ∈ p.declarations.keys, Heads keyword line.trim := by
  constructor
  · intro some
    obtain ⟨found, declares⟩ := Option.isSome_iff_exists.mp some
    have longest := longest_of_ofLine? one declares
    have member := (Entries.get?_eq_some_iff p.declarations.nodup).mp longest.declared
    exact ⟨found.keyword, Entries.mem_keys_of_mem member, longest.heads⟩
  · rintro ⟨keyword, declared, heads⟩
    obtain ⟨entry, inside, rfl⟩ := List.mem_map.mp declared
    have fits := (isSome_afterKeyword?_iff (not_mem_trim one)).mpr heads
    have best := best_keywordOf? p.declarations.entries line.trim
    rw [← Option.isSome_map (f := Signature.keyword), map_keyword_ofLine?, Option.isSome_map]
    generalize keywordOf? p.declarations.entries line.trim = result at best
    cases best with
    | none absent =>
      rw [absent entry inside] at fits
      cases fits
    | some => rfl

/-- A line declares something exactly if it starts with a keyword and a blank. What is declared goes by the longest
    such keyword, which is the one that the pattern of all keywords finds, and nothing depends on the order of the
    keywords. -/
theorem ofLine?_longest (p : Profile) :
    (∀ line : Text, '\n' ∉ line →
      ((ofLine? p line).isSome = true ↔ ∃ keyword ∈ p.declarations.keys, Heads keyword line.trim)
        ∧ ∀ found, ofLine? p line = some found → Longest p line found)
    ∧ (∀ line : Text, (ofLine? p line).map (fun found => some found.keyword)
      = (matched? p.declarations.keys line.trim).map Prod.fst)
    ∧ ∀ declarations : Dict Kind, p.declarations.entries.Perm declarations.entries →
      (∀ line, ofLine? { p with declarations } line = ofLine? p line)
      ∧ ∀ code pending, Declaration.ofCode { p with declarations } code pending = Declaration.ofCode p code pending := by
  refine ⟨fun line one => ⟨isSome_ofLine?_iff one, fun found => longest_of_ofLine? one⟩, fun line => ?_, ?_⟩
  · have keywords := congrArg (Option.map some) (map_keyword_ofLine? p line)
    rw [Option.map_map, Option.map_map] at keywords
    rw [Dict.keys, Entries.keys, matched?_map_fst _ (Text.tight_trim line), Option.map_map]
    exact keywords
  · intro declarations perm
    have same : ∀ line, ofLine? { p with declarations } line = ofLine? p line := by
      intro line
      unfold ofLine?
      rw [keywordOf?_of_perm p.declarations.nodup perm]
    refine ⟨same, fun code pending => ?_⟩
    unfold Declaration.ofCode
    rw [funext same]

/-- A profile in which keywords start other keywords. -/
def nested : Profile where
  declarations := ⟨[("static", .function), ("stat", .publicMethod), ("static class", .classDecl)], by decide⟩

/-- The same profile with its keywords the other way round. -/
def nestedBack : Profile :=
  { nested with
    declarations := ⟨[("static class", .classDecl), ("stat", .publicMethod), ("static", .function)], by decide⟩ }

theorem ofLine?_longest_nested :
    ofLine? nested " static class\tA extends B" = some ⟨.classDecl, "static class", "A", "extends B"⟩
      ∧ Longest nested " static class\tA extends B" ⟨.classDecl, "static class", "A", "extends B"⟩
      ∧ ofLine? nestedBack " static class\tA extends B" = some ⟨.classDecl, "static class", "A", "extends B"⟩ := by
  obtain ⟨onLine, -, anyOrder⟩ := ofLine?_longest nested
  have found : ofLine? nested " static class\tA extends B" = some ⟨.classDecl, "static class", "A", "extends B"⟩ := by
    decide +kernel
  refine ⟨found, (onLine _ (by decide)).2 _ found, ?_⟩
  exact ((anyOrder nestedBack.declarations (List.reverse_perm _).symm).1 _).trans found

end Signature

end Marginalia
