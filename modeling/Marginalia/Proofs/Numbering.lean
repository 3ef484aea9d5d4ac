import Marginalia.Proofs.Anchors
import Marginalia.Proofs.Lower
import Mathlib.Computability.Language
import Mathlib.Order.Bounds.Basic

/-!
# The numbering of anchors

A slug is one or more runs of letters, digits and underscores with hyphens between them, and it is its own slug. An
anchor is the slug of the qualified name, or the slug with the least number from two on that is free if the slug is
taken. The numbers are tried one after another without a bound; the search ends because only so many anchors are taken.
An anchor depends on no declaration after its own.
-/

namespace Marginalia

namespace Anchor

/-! ## Slugs -/

section Slugs

open scoped Computability

/-- The runs of slugs, `[a-z0-9_]+`. -/
def slugRuns : Language Char := {run | run ≠ [] ∧ ∀ c ∈ run, isSlugChar c = true}

/-- The slugs, `[a-z0-9_]+(-[a-z0-9_]+)*`. -/
def slugs : Language Char := slugRuns * (({['-']} : Language Char) * slugRuns)∗

variable {first run t : Text} {rest : List Text}

theorem join_eq_flatten (first : Text) (rest : List Text) :
    Text.join "-" (first :: rest) = first ++ (rest.map ('-' :: ·)).flatten := by
  induction rest generalizing first with
  | nil => simp [Text.join_singleton]
  | cons second rest ih =>
    rw [Text.join_cons_cons, ih]
    rfl

theorem join_mem_slugs (start : first ∈ slugRuns) (more : ∀ run ∈ rest, run ∈ slugRuns) :
    Text.join "-" (first :: rest) ∈ slugs := by
  rw [join_eq_flatten]
  refine Language.append_mem_mul start (Language.join_mem_kstar fun part member => ?_)
  obtain ⟨run, inside, rfl⟩ := List.mem_map.mp member
  exact Language.append_mem_mul (a := ['-']) rfl (more run inside)

theorem exists_join_of_mem_slugs (member : t ∈ slugs) :
    ∃ first rest, t = Text.join "-" (first :: rest) ∧ ∀ run ∈ first :: rest, run ∈ slugRuns := by
  obtain ⟨first, start, more, starred, rfl⟩ := Language.mem_mul.mp member
  obtain ⟨parts, rfl, each⟩ := Language.mem_kstar.mp starred
  have hyphened : ∀ part ∈ parts, '-' :: part.tail = part ∧ part.tail ∈ slugRuns := by
    intro part inside
    obtain ⟨hyphen, rfl, run, isRun, rfl⟩ := Language.mem_mul.mp (each part inside)
    exact ⟨rfl, isRun⟩
  refine ⟨first, parts.map List.tail, ?_, ?_⟩
  · have same : (parts.map List.tail).map ('-' :: ·) = parts := by
      rw [List.map_map]
      exact (List.map_congr_left fun part inside => (hyphened part inside).1).trans (List.map_id parts)
    rw [join_eq_flatten, same]
  · rw [List.forall_mem_cons, List.forall_mem_map]
    exact ⟨start, fun part inside => (hyphened part inside).2⟩

theorem mem_slugRuns_of_mem_runs (member : run ∈ runs t) : run ∈ slugRuns := by
  obtain ⟨part, content⟩ := List.mem_filter.mp member
  refine ⟨by simpa using content, fun c inside => ?_⟩
  simpa using Text.splitOn_eq_false part c inside

theorem slug_mem_slugs (t : Text) : slug t ∈ slugs := by
  unfold slug
  split
  · have whole : Text.join "-" ["section".toList] ∈ slugs := join_mem_slugs ⟨by decide, by decide⟩ (by simp)
    exact whole
  · next some =>
    obtain ⟨first, rest, found⟩ := List.exists_cons_of_ne_nil some
    have each : ∀ run ∈ first :: rest, run ∈ slugRuns := fun run member => mem_slugRuns_of_mem_runs (found ▸ member)
    rw [List.forall_mem_cons] at each
    rw [found]
    exact join_mem_slugs each.1 each.2

theorem runs_of_mem_slugRuns (isRun : run ∈ slugRuns) : runs run = [run] := by
  have whole : Text.splitOn (!isSlugChar ·) run = [run] :=
    Text.splitOn_of_forall fun c inside => by simp [isRun.2 c inside]
  rw [runs, whole, List.filter_cons_of_pos (by simpa using isRun.1), List.filter_nil]

theorem runs_append_hyphen (s t : Text) : runs (s ++ '-' :: t) = runs s ++ runs t := by
  rw [runs, Text.splitOn_append_cons (by decide), List.filter_append]
  rfl

theorem runs_join (each : ∀ run ∈ first :: rest, run ∈ slugRuns) :
    runs (Text.join "-" (first :: rest)) = first :: rest := by
  induction rest generalizing first with
  | nil => rw [Text.join_singleton, runs_of_mem_slugRuns (each first (by simp))]
  | cons second rest ih =>
    rw [List.forall_mem_cons] at each
    rw [Text.join_cons_cons]
    calc runs (first ++ '-' :: Text.join "-" (second :: rest))
        = runs first ++ runs (Text.join "-" (second :: rest)) := runs_append_hyphen _ _
      _ = first :: second :: rest := by rw [runs_of_mem_slugRuns each.1, ih each.2, List.singleton_append]

/-- The characters of anchors are not blank, and they are their own lower case. -/
theorem isAnchorChar_plain {c : Char} (kept : isAnchorChar c = true) : isBlank c = false ∧ IsLower c := by
  have each : ∀ n < 0x80, isAnchorChar (Char.ofNat n) = true → isBlank (Char.ofNat n) = false
      ∧ Char.ofNat n ≠ 'Σ' ∧ Char.ofNat n ≠ 'İ' ∧ lowerChar (Char.ofNat n) = Char.ofNat n := by
    decide +kernel
  have ascii : c.toNat < 0x80 := by
    simp only [isAnchorChar, isSlugChar, Bool.or_eq_true, Bool.and_eq_true, decide_eq_true_eq, beq_iff_eq, Char.le_def,
      UInt32.le_iff_toNat_le] at kept
    rcases kept with ((⟨-, high⟩ | ⟨-, high⟩) | rfl) | rfl
    · exact Nat.lt_of_le_of_lt high (by decide)
    · exact Nat.lt_of_le_of_lt high (by decide)
    · decide
    · decide
  have here := each c.toNat ascii
  rw [Char.ofNat_toNat] at here
  obtain ⟨solid, noSigma, noDot, fixed⟩ := here kept
  exact ⟨solid, noSigma, noDot, fixed⟩

theorem slug_of_mem_slugs (member : t ∈ slugs) : slug t = t := by
  obtain ⟨first, rest, rfl, each⟩ := exists_join_of_mem_slugs member
  have kept : IsAnchor (Text.join "-" (first :: rest)) := by
    refine Text.join_induction (by decide) (fun _ _ => IsAnchor.append) (by decide) fun run inside c within => ?_
    simp [isAnchorChar, (each run inside).2 c within]
  have trimmed : Text.trim (Text.join "-" (first :: rest)) = Text.join "-" (first :: rest) :=
    Text.trim_of_tight (Text.tight_of_forall fun c within => (isAnchorChar_plain (kept c within)).1)
  have lowered : Text.lower (Text.join "-" (first :: rest)) = Text.join "-" (first :: rest) :=
    lowerFrom_of_forall (fun c within => (isAnchorChar_plain (kept c within)).2) []
  rw [slug, trimmed, lowered, runs_join each]

end Slugs

/-! ## The search for a free anchor -/

/-- The anchor of a slug where some anchors are taken: the slug, or the slug with the least number that is free. -/
inductive Chosen (taken : List Text) (slug : Text) : Text → Prop
  | plain (free : slug ∉ taken) : Chosen taken slug slug
  | numbered {n : Nat} (full : slug ∈ taken) (least : IsLeast {n | 2 ≤ n ∧ numbered slug n ∉ taken} n) :
    Chosen taken slug (numbered slug n)

/-- The search ends with the anchor that it has found. As long as an anchor is taken, it goes on to the one with the
    next number. -/
inductive Finds (taken : List Text) (slug : Text) : (anchor : Text) → (next : Nat) → (found : Text) → Prop
  | free {anchor : Text} {n : Nat} (free : anchor ∉ taken) : Finds taken slug anchor n anchor
  | next {anchor found : Text} {n : Nat} (full : anchor ∈ taken)
    (rest : Finds taken slug (numbered slug n) (n + 1) found) : Finds taken slug anchor n found

section Search

variable {taken : List Text} {slug anchor found other : Text} {n : Nat}

theorem Finds.unique (one : Finds taken slug anchor n found) (two : Finds taken slug anchor n other) :
    found = other := by
  induction one with
  | free free =>
    cases two with
    | free => rfl
    | next full => exact absurd full free
  | next full _ ih =>
    cases two with
    | free free => exact absurd full free
    | next _ rest => exact ih rest

/-- With the numbers from `m` to `n` taken, the search comes to `n`. -/
theorem finds_numbered {m : Nat} (below : m ≤ n) (full : ∀ k, m ≤ k → k < n → numbered slug k ∈ taken)
    (free : numbered slug n ∉ taken) : Finds taken slug (numbered slug m) (m + 1) (numbered slug n) := by
  induction below using Nat.decreasingInduction with
  | self => exact .free free
  | of_succ m less ih =>
    exact .next (full m le_rfl less) (ih fun k above => full k (Nat.le_of_succ_le above))

theorem Chosen.finds (chosen : Chosen taken slug anchor) : Finds taken slug slug 2 anchor := by
  cases chosen with
  | plain free => exact .free free
  | numbered full least =>
    refine .next full (finds_numbered least.1.1 (fun k atLeastTwo smaller => ?_) least.1.2)
    by_contra free
    exact absurd (least.2 ⟨atLeastTwo, free⟩) (Nat.not_le_of_lt smaller)

theorem chosen_choose (taken : List Text) (slug : Text) : Chosen taken slug (choose taken slug) := by
  have fresh := choose_not_mem taken slug
  unfold choose at fresh ⊢
  split
  · next full =>
    rw [if_pos full] at fresh
    rw [List.contains_iff_mem] at full
    split
    · next n found =>
      obtain ⟨free, -, before⟩ := List.find?_range_eq_some.mp found
      refine .numbered full ⟨⟨by omega, by simpa using free⟩, ?_⟩
      rintro m ⟨atLeastTwo, freeToo⟩
      by_contra smaller
      have taken := before (m - 2) (by omega)
      rw [Nat.sub_add_cancel atLeastTwo] at taken
      exact freeToo (by simpa using taken)
    · next none =>
      -- the slug would be given although it is taken
      rw [none] at fresh
      exact absurd full fresh
  · next free => exact .plain (by simpa using free)

/-- Which anchor is chosen depends only on which are taken. -/
theorem Chosen.of_mem_iff {before : List Text} (same : ∀ a, a ∈ taken ↔ a ∈ before)
    (chosen : Chosen taken slug anchor) : Chosen before slug anchor := by
  cases chosen with
  | plain free => exact .plain (by rwa [← same])
  | numbered full least =>
    simp only [same] at full least
    exact .numbered full least

end Search

/-! ## All declarations -/

/-- The class that the next declaration follows. -/
def classAfter (currentClass : Text) (d : Declaration) : Text := if d.kind = .classDecl then d.name else currentClass

/-- The loop over declarations ends with the anchors that it has found, where each of its searches ends. -/
inductive Ends : (currentClass : Text) → (taken : List Text) → List Declaration → (found : List Text) → Prop
  | nil {currentClass : Text} {taken : List Text} : Ends currentClass taken [] []
  | cons {currentClass anchor : Text} {taken found : List Text} {d : Declaration} {rest : List Declaration}
    (search : Finds taken (slug (qualified currentClass d)) (slug (qualified currentClass d)) 2 anchor)
    (more : Ends (classAfter currentClass d) (anchor :: taken) rest found) :
    Ends currentClass taken (d :: rest) (anchor :: found)

theorem ends_iff {currentClass : Text} {taken found : List Text} {declarations : List Declaration} :
    Ends currentClass taken declarations found ↔ found = assign currentClass taken declarations := by
  have search := fun taken slug => (chosen_choose taken slug).finds
  constructor
  · intro ends
    induction ends with
    | nil => rfl
    | cons here _ ih =>
      rw [assign, ih, here.unique (search _ _)]
      rfl
  · rintro rfl
    induction declarations generalizing currentClass taken with
    | nil => exact .nil
    | cons d rest ih => exact .cons (search _ _) ih

/-- The name of the last class; empty if there is none. -/
def lastClass (declarations : List Declaration) : Text :=
  ((declarations.filter (·.kind = .classDecl)).getLast?.map Declaration.name).getD []

theorem foldl_classAfter (declarations : List Declaration) :
    declarations.foldl classAfter [] = lastClass declarations := by
  induction declarations using List.reverseRecOn with
  | nil => rfl
  | append_singleton before d ih =>
    rw [List.foldl_append, List.foldl_cons, List.foldl_nil, ih]
    by_cases isClass : d.kind = .classDecl
    · simp [classAfter, lastClass, isClass]
    · simp [classAfter, lastClass, isClass]

theorem assign_append (currentClass : Text) (taken : List Text) (before after : List Declaration) :
    assign currentClass taken (before ++ after) = assign currentClass taken before
      ++ assign (before.foldl classAfter currentClass) ((assign currentClass taken before).reverse ++ taken) after := by
  induction before generalizing currentClass taken with
  | nil => rfl
  | cons d rest ih =>
    rw [List.cons_append, assign, ih, assign]
    simp [classAfter]

end Anchor

open Anchor

theorem anchors_append (before after : List Declaration) :
    anchors (before ++ after) = anchors before ++ assign (lastClass before) (anchors before).reverse after := by
  rw [anchors, assign_append, foldl_classAfter, List.append_nil]
  rfl

theorem anchors_take (declarations : List Declaration) (n : Nat) :
    anchors (declarations.take n) = (anchors declarations).take n := by
  have start : anchors (declarations.take n) <+: anchors declarations := by
    conv_rhs => rw [← List.take_append_drop n declarations, anchors_append]
    exact List.prefix_append _ _
  rw [List.prefix_iff_eq_take.mp start, Page.length_anchors, List.length_take, ← Page.length_anchors declarations,
    ← List.take_take, List.take_length]

/-- Each anchor is chosen among those that the anchors before it leave free. -/
theorem chosen_anchors (declarations : List Declaration) (i : Fin declarations.length) :
    ∃ anchor, (anchors declarations)[i]? = some anchor
      ∧ Chosen ((anchors declarations).take i) (slug (qualified (lastClass (declarations.take i)) declarations[i]))
        anchor := by
  rw [← anchors_take]
  let name := slug (qualified (lastClass (declarations.take i)) declarations[i])
  have chosen := chosen_choose (anchors (declarations.take i)).reverse name
  refine ⟨_, ?_, chosen.of_mem_iff (by simp)⟩
  have length : (anchors (declarations.take i)).length = i := by
    rw [Page.length_anchors, List.length_take_of_le i.isLt.le]
  have whole : declarations = declarations.take i ++ declarations[i] :: declarations.drop (i + 1) := by
    rw [Fin.getElem_fin, ← List.drop_eq_getElem_cons, List.take_append_drop]
  have listed := (congrArg anchors whole).trans (anchors_append _ _)
  rw [listed, Fin.getElem?_fin, List.getElem?_append_right length.le, length, Nat.sub_self]
  rfl

/-- The loop that numbers anchors ends, always with the same anchors, one for each declaration and no two alike. Each is
    the slug of the qualified name, or the slug with the least number from two on that is free if an anchor before it is
    the slug. The anchors of the first declarations are the first anchors, whatever declarations follow. Every slug has
    the form of slugs and is its own slug. -/
theorem anchors_numbered (declarations : List Declaration) :
    (∀ found, Ends [] [] declarations found ↔ found = anchors declarations)
    ∧ (anchors declarations).length = declarations.length
    ∧ (anchors declarations).Nodup
    ∧ (∀ i : Fin declarations.length, ∃ anchor, (anchors declarations)[i]? = some anchor
      ∧ Chosen ((anchors declarations).take i) (slug (qualified (lastClass (declarations.take i)) declarations[i]))
        anchor)
    ∧ (∀ n, anchors (declarations.take n) = (anchors declarations).take n)
    ∧ ∀ name, slug name ∈ slugs ∧ slug (slug name) = slug name := by
  refine ⟨fun _ => ends_iff, Page.length_anchors declarations, nodup_anchors declarations, chosen_anchors declarations,
    anchors_take declarations, fun name => ?_⟩
  exact ⟨slug_mem_slugs name, slug_of_mem_slugs (slug_mem_slugs name)⟩

/-- A name that looks like a numbered one takes its place. Names without anything that slugs keep are numbered too. -/
example :
    let function (name : Text) : Declaration := { signature := ⟨.function, "function", name, []⟩ }
    anchors [function "f", function "f-2", function "F", function "f-2", function "É", function "!!"]
      = (["f", "f-2", "f-3", "f-2-2", "section", "section-2"] : List Text) := by
  decide +kernel

end Marginalia
