import Marginalia.Proofs.Collected
import Marginalia.Proofs.Lines
import Marginalia.Proofs.Php

/-!
# Comments and declarations paired

The segments of a source alone say what becomes of each documentation comment: it is the main block, or the
documentation of the first declaration in the code after it, or an orphan. No comment is used twice, and none is lost.
The reader goes through the segments one by one and remembers what waits for a declaration; `Closed` segments end where
it ends.
-/

namespace Marginalia

/-- Segments of a whole source: every segment but the last one has a comment. -/
inductive Segment.Closed : List Segment → Prop where
  | last (code : Text) : Closed [⟨code, none⟩]
  | cons (code raw : Text) {rest : List Segment} (closed : Closed rest) : Closed (⟨code, some raw⟩ :: rest)

namespace Scan

/-- A segment that is put out on the way ends with a comment. -/
theorem doc_of_step {p : Profile} {s : State} {c : Char} {after : Text} {segment : Segment}
    (put : (step p s c after).2 = some segment) : ∃ raw, segment.doc = some raw := by
  obtain ⟨-, code, text, -, -, rfl⟩ := step_eq_some put
  exact ⟨text.reverse, rfl⟩

theorem closed_run (p : Profile) (s : State) (t : Text) : Segment.Closed (run p s t) := by
  induction t generalizing s with
  | nil =>
    unfold run finish
    split
    · exact .cons _ _ (.last _)
    · exact .last _
  | cons c after ih =>
    rw [run]
    split
    · next next segment stepped =>
      obtain ⟨raw, documented⟩ := doc_of_step (p := p) (s := s) (congrArg Prod.snd stepped)
      obtain ⟨code, doc⟩ := segment
      subst documented
      exact .cons _ _ (ih next)
    · next next stepped => exact ih next

end Scan

theorem closed_segments (p : Profile) (source : Text) : Segment.Closed (segments p source) :=
  Scan.closed_run p _ source

namespace Pairing

/-- Nothing is declared in the code. -/
def Silent (p : Profile) (code : Text) : Bool := (Declaration.ofCode p code {}).isEmpty

theorem silent_iff {p : Profile} {code : Text} (pending : Block) :
    Silent p code = true ↔ Declaration.ofCode p code pending = [] := by
  rw [Silent, List.isEmpty_iff, Declaration.ofCode_eq, Declaration.ofCode_eq]
  cases Signature.onLines p code <;> simp [Declaration.documented]

/-- The comments of the segments, read. -/
def blocks (p : Profile) (segs : List Segment) : List Block := (Segment.docs segs).map (Block.read p)

/-- The first comment is the main block: there is a comment, and nothing is declared before it. -/
def hasMain (p : Profile) (segs : List Segment) : Bool :=
  !(Segment.docs segs).isEmpty && segs.head?.any (Silent p ·.code)

/-- The main block, empty if no comment is one. -/
def main (p : Profile) (segs : List Segment) : Block :=
  if hasMain p segs then (blocks p segs).headD {} else {}

/-- For each segment, the comment that waits for a declaration where its code starts: the one right before the code,
    unless it is the main block. -/
def waiting (p : Profile) (segs : List Segment) : List (Option Block) :=
  none :: if hasMain p segs then none :: (blocks p segs).tail.map some else (blocks p segs).map some

/-- The code of each segment with the comment that waits for it. -/
def pairs (p : Profile) (segs : List Segment) : List (Text × Option Block) :=
  (segs.map Segment.code).zip (waiting p segs)

/-- The declarations in code; the first one is documented by the comment that waits. -/
def declared (p : Profile) (pair : Text × Option Block) : List Declaration :=
  Declaration.ofCode p pair.1 (pair.2.getD {})

/-- The comment that waits for code, if nothing is declared there. -/
def unclaimed (p : Profile) (pair : Text × Option Block) : List Block :=
  if Silent p pair.1 then pair.2.toList else []

end Pairing

/-! ## One segment after the other -/

namespace Collected

open Pairing

/-- The comment that waits for a declaration. -/
def waits (c : Collected) : Option Block := if c.waiting then some c.pending else none

/-- Where no comment waits, the next declaration is given an empty block. -/
def Idle (c : Collected) : Prop := c.waiting = false → c.pending = {}

theorem Idle.pending {c : Collected} (idle : c.Idle) : c.waits.getD {} = c.pending := by
  unfold waits
  split
  · rfl
  · next none => exact (idle (Bool.eq_false_iff.mpr none)).symm

/-- What one step does with the code of a segment. -/
theorem addCode_eq {p : Profile} {c : Collected} (idle : c.Idle) (code : Text) :
    c.addCode p code =
      { c with
        declarations := c.declarations ++ declared p (code, c.waits)
        orphans := c.orphans ++ (unclaimed p (code, c.waits)).map Block.summary
        pending := if Silent p code then c.pending else {}
        waiting := Silent p code && c.waiting } := by
  have found : declared p (code, c.waits) = Declaration.ofCode p code c.pending := by
    simp [declared, idle.pending]
  rw [found]
  unfold addCode
  split
  · next none =>
    have silent := (silent_iff c.pending).mpr none
    obtain ⟨main, declarations, pending, given, told⟩ := c
    cases given <;> simp_all [unclaimed, waits]
  · next some =>
    have loud : Silent p code = false := by
      rw [Bool.eq_false_iff, Ne, silent_iff c.pending]
      exact some
    simp [unclaimed, loud]

/-- What is collected once the main block is behind: the code of each segment is given the comment right before it. -/
theorem addSegments_past {p : Profile} {segs : List Segment} (closed : Segment.Closed segs) {c : Collected}
    (idle : c.Idle) (past : (c.main.isNone && c.declarations.isEmpty) = false) :
    let pairs := (segs.map Segment.code).zip (c.waits :: (blocks p segs).map some)
    (addSegments p false c segs).main = c.main
    ∧ (addSegments p false c segs).declarations = c.declarations ++ pairs.flatMap (declared p)
    ∧ (addSegments p false c segs).orphans = c.orphans ++ (pairs.flatMap (unclaimed p)).map Block.summary := by
  induction closed generalizing c with
  | last code =>
    simp [addSegments, addCode_eq idle]
  | @cons code raw rest closed ih =>
    have past' : ((c.addCode p code).main.isNone && (c.addCode p code).declarations.isEmpty) = false := by
      rw [addCode_eq idle]
      cases found : c.main <;> simp_all
    have step : addSegments p false c (⟨code, some raw⟩ :: rest) =
        addSegments p false { c.addCode p code with pending := Block.read p raw, waiting := true } rest := by
      simp only [addSegments, past', Bool.false_eq_true, if_false]
    obtain ⟨main, declarations, orphans⟩ :=
      ih (c := { c.addCode p code with pending := Block.read p raw, waiting := true }) nofun past'
    rw [step, main, declarations, orphans, addCode_eq idle]
    simp [blocks, Segment.docs, waits]

end Collected

namespace Pairing

open Collected

/-- What is collected from all segments of a source. -/
theorem collected_eq {p : Profile} {segs : List Segment} (closed : Segment.Closed segs) :
    (addSegments p false {} segs).main.getD {} = main p segs
    ∧ (addSegments p false {} segs).declarations = (pairs p segs).flatMap (declared p)
    ∧ (addSegments p false {} segs).orphans = ((pairs p segs).flatMap (unclaimed p)).map Block.summary := by
  have start := addCode_eq (p := p) (c := {}) (fun _ => rfl)
  cases closed with
  | last code =>
    simp [addSegments, start, main, pairs, waiting, hasMain, Segment.docs, waits]
  | @cons code raw rest closed =>
    cases silent : Silent p code with
    | true =>
      have none : ∀ block, Declaration.ofCode p code block = [] := fun block => (silent_iff block).mp silent
      have step : addSegments p false {} (⟨code, some raw⟩ :: rest) =
          addSegments p false { main := some (Block.read p raw) } rest := by
        simp [addSegments, start, declared, unclaimed, none, silent, waits]
      obtain ⟨main, declarations, orphans⟩ := addSegments_past (p := p) closed
        (c := { main := some (Block.read p raw) }) (fun _ => rfl) rfl
      rw [step, main, declarations, orphans]
      simp [Pairing.main, pairs, waiting, hasMain, blocks, Segment.docs, declared, unclaimed, none, silent, waits]
    | false =>
      have loud : (declared p (code, none)).isEmpty = false := silent
      have step : addSegments p false {} (⟨code, some raw⟩ :: rest) = addSegments p false
          { declarations := declared p (code, none), pending := Block.read p raw, waiting := true } rest := by
        simp [addSegments, start, loud, silent, unclaimed, waits]
      obtain ⟨main, declarations, orphans⟩ := addSegments_past (p := p) closed
        (c := { declarations := declared p (code, none), pending := Block.read p raw, waiting := true })
        nofun (by simpa using loud)
      rw [step, main, declarations, orphans]
      simp [Pairing.main, pairs, waiting, hasMain, blocks, Segment.docs, unclaimed, silent, waits]

/-! ## Places in a list of lists -/

section Places

variable {α β : Type} (f : α → List β) (xs : List α)

/-- Where the elements that come from one place start. -/
def offset (k : Nat) : Nat := ((xs.take k).flatMap f).length

variable {f xs}

theorem flatMap_eq_of_getElem? {k : Nat} {x : α} (there : xs[k]? = some x) :
    xs.flatMap f = (xs.take k).flatMap f ++ (f x ++ (xs.drop (k + 1)).flatMap f) := by
  obtain ⟨inside, rfl⟩ := List.getElem?_eq_some_iff.mp there
  conv_lhs => rw [← List.take_append_drop k xs, List.drop_eq_getElem_cons inside]
  rw [List.flatMap_append, List.flatMap_cons]

theorem getElem?_offset {k i : Nat} {x : α} {y : β} (there : xs[k]? = some x) (inside : (f x)[i]? = some y) :
    (xs.flatMap f)[offset f xs k + i]? = some y := by
  rw [flatMap_eq_of_getElem? there, offset, List.getElem?_append_right (Nat.le_add_right _ _), Nat.add_sub_cancel_left,
    List.getElem?_append_left (List.getElem?_eq_some_iff.mp inside).1, inside]

theorem exists_offset {n : Nat} {y : β} (there : (xs.flatMap f)[n]? = some y) :
    ∃ k x i, xs[k]? = some x ∧ (f x)[i]? = some y ∧ n = offset f xs k + i := by
  induction xs generalizing n with
  | nil => cases there
  | cons x xs ih =>
    rw [List.flatMap_cons] at there
    by_cases here : n < (f x).length
    · rw [List.getElem?_append_left here] at there
      exact ⟨0, x, n, rfl, there, by simp [offset]⟩
    · rw [List.getElem?_append_right (Nat.le_of_not_lt here)] at there
      obtain ⟨k, z, i, found, inside, same⟩ := ih there
      refine ⟨k + 1, z, i, found, inside, ?_⟩
      simp only [offset, List.take_succ_cons, List.flatMap_cons, List.length_append] at same ⊢
      omega

/-- Elements that come from a later place start later. -/
theorem offset_lt {j k : Nat} {x : α} (there : xs[j]? = some x) (content : f x ≠ []) (later : j < k) :
    offset f xs j < offset f xs k := by
  have before : (xs.take k)[j]? = some x := by rw [List.getElem?_take_of_lt later, there]
  have whole := flatMap_eq_of_getElem? (f := f) before
  rw [List.take_take, Nat.min_eq_left (Nat.le_of_lt later)] at whole
  have positive := List.length_pos_iff.mpr content
  simp only [offset, whole, List.length_append]
  omega

theorem offset_inj {j k : Nat} {x y : α} (first : xs[j]? = some x) (second : xs[k]? = some y) (content : f x ≠ [])
    (contentToo : f y ≠ []) (same : offset f xs j = offset f xs k) : j = k := by
  rcases Nat.lt_trichotomy j k with less | equal | more
  · exact absurd same (Nat.ne_of_lt (offset_lt first content less))
  · exact equal
  · exact absurd same.symm (Nat.ne_of_lt (offset_lt second contentToo more))

end Places

/-! ## What becomes of each comment -/

/-- What becomes of a comment. -/
inductive Fate where
  | main
  /-- It documents the declaration at a position. -/
  | documents (position : Nat)
  /-- It is an orphan and told at a position of the trace. -/
  | orphan (position : Nat)
  deriving DecidableEq, Repr

/-- What the segments say of the comment at a position: where the code after it declares something, it belongs to the
    first declaration there. -/
def fate (p : Profile) (segs : List Segment) (k : Nat) : Fate :=
  if k = 0 ∧ hasMain p segs = true then .main
  else if segs[k + 1]?.any (Silent p ·.code) then .orphan (offset (unclaimed p) (pairs p segs) (k + 1))
  else .documents (offset (declared p) (pairs p segs) (k + 1))

/-- What is told of an orphan. -/
def orphanNote (block : Block) : Text := "Orphan block: ".toList ++ block.summary

/-- A document uses a block in this way. -/
def Fate.Holds (d : Document) (block : Block) : Fate → Prop
  | .main => d.main = block
  | .documents n => d.declarations[n]?.map Declaration.doc = some block
  | .orphan n => d.debug[n]? = some (orphanNote block)

/-- A document uses every block once: each one in a way of its own, and a declaration that no block is for has an empty
    one. -/
structure UsedOnce (d : Document) (blocks : List Block) (fate : Nat → Fate) : Prop where
  used : ∀ k block, blocks[k]? = some block → (fate k).Holds d block
  once : ∀ j k, j < blocks.length → k < blocks.length → fate j = fate k → j = k
  others : ∀ n declaration, d.declarations[n]? = some declaration → (∀ k < blocks.length, fate k ≠ .documents n) →
    declaration.doc = {}

theorem length_segments {p : Profile} {segs : List Segment} (closed : Segment.Closed segs) :
    segs.length = (blocks p segs).length + 1 := by
  induction closed with
  | last code => rfl
  | cons code raw closed ih => simpa [blocks, Segment.docs] using ih

theorem getElem?_waiting {p : Profile} {segs : List Segment} {k : Nat} {block : Block}
    (there : (blocks p segs)[k]? = some block) :
    (waiting p segs)[k + 1]? = some (if k = 0 ∧ hasMain p segs = true then none else some block) := by
  unfold waiting
  cases hasMain p segs with
  | false => simp [there]
  | true =>
    cases k with
    | zero => simp
    | succ k => simp [there]

/-- The code after a comment, with what waits for it. -/
theorem getElem?_pairs {p : Profile} {segs : List Segment} (closed : Segment.Closed segs) {k : Nat} {block : Block}
    (there : (blocks p segs)[k]? = some block) :
    ∃ segment, segs[k + 1]? = some segment ∧ (pairs p segs)[k + 1]?
      = some (segment.code, if k = 0 ∧ hasMain p segs = true then none else some block) := by
  have inside : k + 1 < segs.length := by
    rw [length_segments (p := p) closed]
    have := (List.getElem?_eq_some_iff.mp there).1
    omega
  refine ⟨segs[k + 1], List.getElem?_eq_getElem inside, ?_⟩
  rw [pairs, List.getElem?_zip_eq_some]
  exact ⟨by simp [inside], getElem?_waiting there⟩

/-- What waits for some code is the comment before it. -/
theorem exists_of_getElem?_pairs {p : Profile} {segs : List Segment} {n : Nat} {code : Text} {block : Block}
    (there : (pairs p segs)[n]? = some (code, some block)) : ∃ k, n = k + 1 ∧ (blocks p segs)[k]? = some block := by
  rw [pairs, List.getElem?_zip_eq_some] at there
  obtain ⟨-, there⟩ := there
  unfold waiting at there
  cases n with
  | zero => cases there
  | succ k =>
    refine ⟨k, rfl, ?_⟩
    cases leads : hasMain p segs with
    | false => simpa [leads] using there
    | true =>
      cases k with
      | zero => simp [leads] at there
      | succ k => simpa [leads] using there

/-- The ways in which a comment is used. -/
inductive FateView (p : Profile) (segs : List Segment) (k : Nat) (block : Block) (fate : Fate) : Prop where
  | main (first : k = 0) (leads : hasMain p segs = true) (is : fate = .main)
  | orphan {code : Text} (there : (pairs p segs)[k + 1]? = some (code, some block))
    (none : unclaimed p (code, some block) = [block])
    (is : fate = .orphan (offset (unclaimed p) (pairs p segs) (k + 1)))
  | documents {code : Text} {signature : Signature} {more : List Signature}
    (there : (pairs p segs)[k + 1]? = some (code, some block))
    (found : Signature.onLines p code = signature :: more)
    (is : fate = .documents (offset (declared p) (pairs p segs) (k + 1)))

theorem fate_view {p : Profile} {segs : List Segment} (closed : Segment.Closed segs) {k : Nat} {block : Block}
    (there : (blocks p segs)[k]? = some block) : FateView p segs k block (fate p segs k) := by
  obtain ⟨segment, after, pair⟩ := getElem?_pairs closed there
  unfold fate
  by_cases leads : k = 0 ∧ hasMain p segs = true
  · rw [if_pos leads]
    exact .main leads.1 leads.2 rfl
  · rw [if_neg leads] at pair ⊢
    rw [after, Option.any_some]
    cases silent : Silent p segment.code with
    | true => exact .orphan pair (by simp [unclaimed, silent]) rfl
    | false =>
      cases found : Signature.onLines p segment.code with
      | nil => simp [Silent, Declaration.ofCode_eq, found, Declaration.documented] at silent
      | cons signature more => exact .documents pair found rfl

/-- What is told of the declarations. -/
def foundNote (filename : Text) (declarations : List Declaration) : Text :=
  "Found " ++ decimal declarations.length ++ " declarations in " ++ filename

/-- The document that the segments of a source say, with the problems found in it. -/
def document (p : Profile) (filename : Text) (segs : List Segment) (problems : List Problem) : Document where
  filename
  main := main p segs
  declarations := (pairs p segs).flatMap (declared p)
  problems
  debug := ((pairs p segs).flatMap (unclaimed p)).map orphanNote
    ++ [foundNote filename ((pairs p segs).flatMap (declared p))]

theorem declared_of_found {p : Profile} {code : Text} {signature : Signature} {more : List Signature}
    (found : Signature.onLines p code = signature :: more) (waits : Option Block) :
    declared p (code, waits) = ⟨signature, waits.getD {}⟩ :: more.map fun other => ⟨other, {}⟩ := by
  rw [declared, Declaration.ofCode_eq, found]
  rfl

/-- Every comment is used in its way. -/
theorem holds_fate {p : Profile} {segs : List Segment} (closed : Segment.Closed segs) (filename : Text)
    (problems : List Problem) {k : Nat} {block : Block} (there : (blocks p segs)[k]? = some block) :
    (fate p segs k).Holds (document p filename segs problems) block := by
  cases fate_view closed there with
  | main first leads is =>
    subst first
    rw [is]
    show main p segs = block
    rw [main, if_pos leads, List.headD_eq_head?_getD, List.head?_eq_getElem?, there]
    rfl
  | orphan pair none is =>
    have told := getElem?_offset (f := unclaimed p) (i := 0) (y := block) pair (by rw [none]; rfl)
    rw [is]
    show (List.map orphanNote _ ++ _)[offset _ _ _]? = _
    rw [List.getElem?_append_left, List.getElem?_map, ← Nat.add_zero (offset _ _ _), told]
    · rfl
    · simpa using (List.getElem?_eq_some_iff.mp told).1
  | documents pair found is =>
    have given := getElem?_offset (f := declared p) (i := 0) pair (by rw [declared_of_found found]; rfl)
    rw [is]
    exact congrArg (Option.map Declaration.doc) given

/-- No two comments are used in the same way: there is one main block, and where something comes of the code after a
    comment, the place where it comes determines the code. -/
theorem fate_inj {p : Profile} {segs : List Segment} (closed : Segment.Closed segs) {j k : Nat}
    (inside : j < (blocks p segs).length) (insideToo : k < (blocks p segs).length)
    (same : fate p segs j = fate p segs k) : j = k := by
  have second := fate_view closed (List.getElem?_eq_getElem insideToo)
  rw [← same] at second
  cases fate_view closed (List.getElem?_eq_getElem inside) with
  | main first leads is =>
    rw [is] at second
    cases second with
    | main firstToo leadsToo isToo => rw [first, firstToo]
    | orphan _ _ isToo => cases isToo
    | documents _ _ isToo => cases isToo
  | orphan pair none is =>
    rw [is] at second
    cases second with
    | main _ _ isToo => cases isToo
    | orphan pairToo noneToo isToo =>
      have places := offset_inj pair pairToo (by simp [none]) (by simp [noneToo]) (Fate.orphan.inj isToo)
      exact Nat.succ.inj places
    | documents _ _ isToo => cases isToo
  | documents pair found is =>
    rw [is] at second
    cases second with
    | main _ _ isToo => cases isToo
    | orphan _ _ isToo => cases isToo
    | documents pairToo foundToo isToo =>
      have places := offset_inj pair pairToo (by simp [declared_of_found found])
        (by simp [declared_of_found foundToo]) (Fate.documents.inj isToo)
      exact Nat.succ.inj places

/-- A declaration with a comment right before it is the one that the comment is for. -/
theorem exists_fate_eq_documents {p : Profile} {segs : List Segment} (closed : Segment.Closed segs) {m : Nat}
    {code : Text} {block : Block} (pair : (pairs p segs)[m]? = some (code, some block)) {signature : Signature}
    {more : List Signature} (found : Signature.onLines p code = signature :: more) :
    ∃ k < (blocks p segs).length, fate p segs k = .documents (offset (declared p) (pairs p segs) m) := by
  obtain ⟨k, rfl, read⟩ := exists_of_getElem?_pairs pair
  refine ⟨k, (List.getElem?_eq_some_iff.mp read).1, ?_⟩
  cases fate_view closed read with
  | main first leads _ => simp [pairs, waiting, first, leads, List.getElem?_zip_eq_some] at pair
  | orphan pairToo none _ =>
    have same := pair.symm.trans pairToo
    simp_all [unclaimed, Silent, Declaration.ofCode_eq, Declaration.documented]
  | documents _ _ is => exact is

theorem doc_of_unused {p : Profile} {segs : List Segment} (closed : Segment.Closed segs) {n : Nat}
    {declaration : Declaration} (there : ((pairs p segs).flatMap (declared p))[n]? = some declaration)
    (unused : ∀ k < (blocks p segs).length, fate p segs k ≠ .documents n) : declaration.doc = {} := by
  obtain ⟨m, ⟨code, waits⟩, i, pair, inside, place⟩ := exists_offset there
  cases found : Signature.onLines p code with
  | nil => simp [declared, Declaration.ofCode_eq, found, Declaration.documented] at inside
  | cons signature more =>
    rw [declared_of_found found] at inside
    cases i with
    | succ i =>
      rw [List.getElem?_cons_succ, List.getElem?_map, Option.map_eq_some_iff] at inside
      obtain ⟨other, -, rfl⟩ := inside
      rfl
    | zero =>
      obtain rfl := Option.some.inj inside
      cases waits with
      | none => rfl
      | some block =>
        obtain ⟨k, small, is⟩ := exists_fate_eq_documents closed pair found
        exact absurd (is.trans (congrArg Fate.documents place.symm)) (unused k small)

theorem usedOnce_document {p : Profile} {segs : List Segment} (closed : Segment.Closed segs) (filename : Text)
    (problems : List Problem) : UsedOnce (document p filename segs problems) (blocks p segs) (fate p segs) where
  used _ _ there := holds_fate closed filename problems there
  once _ _ inside insideToo same := fate_inj closed inside insideToo same
  others _ _ there unused := doc_of_unused closed there unused

/-! ## The document of a source -/

theorem length_waiting (p : Profile) (segs : List Segment) : (waiting p segs).length = (blocks p segs).length + 1 := by
  unfold waiting
  cases leads : hasMain p segs with
  | false => simp
  | true =>
    have some_block : blocks p segs ≠ [] := by
      simp only [hasMain, Bool.and_eq_true, Bool.not_eq_true', List.isEmpty_eq_false_iff] at leads
      simpa [blocks] using leads.1
    have positive := List.length_pos_iff.mpr some_block
    simp
    omega

/-- The declarations stand in the order of the lines of the code. -/
theorem signatures_codes {p : Profile} {segs : List Segment} (closed : Segment.Closed segs) :
    ((pairs p segs).flatMap (declared p)).map Declaration.signature
      = (segs.map Segment.code).flatMap (Signature.onLines p) := by
  have each : ∀ pair, (declared p pair).map Declaration.signature = Signature.onLines p pair.1 := by
    intro pair
    rw [declared, Declaration.ofCode_eq]
    cases Signature.onLines p pair.1 <;> simp [Declaration.documented, Function.comp_def]
  have codes : (pairs p segs).map Prod.fst = segs.map Segment.code := by
    apply List.map_fst_zip
    rw [List.length_map, length_waiting, length_segments (p := p) closed]
  calc ((pairs p segs).flatMap (declared p)).map Declaration.signature
      = (pairs p segs).flatMap fun pair => Signature.onLines p pair.1 := by
        rw [List.map_flatMap]
        simp only [each]
    _ = (segs.map Segment.code).flatMap (Signature.onLines p) := by rw [← codes, List.flatMap_map]

theorem signatures_declared {p : Profile} {segs : List Segment} (closed : Segment.Closed segs) :
    ((pairs p segs).flatMap (declared p)).map Declaration.signature
      = (Segment.skeleton segs).lines.filterMap (Signature.ofLine? p) := by
  have skipped : ∀ texts : List Text,
      (texts.filter (!·.isEmpty)).flatMap (Signature.onLines p) = texts.flatMap (Signature.onLines p) := by
    intro texts
    induction texts with
    | nil => rfl
    | cons t texts ih => cases t <;> simp [ih]
  calc ((pairs p segs).flatMap (declared p)).map Declaration.signature
      = (segs.map Segment.code).flatMap (Signature.onLines p) := signatures_codes closed
    _ = Signature.onLines p (Segment.skeleton segs) := by rw [Segment.skeleton, Signature.onLines_join, skipped]

theorem document_ofSource (p : Profile) (filename source : Text) (problems : List Problem) :
    (Collected.ofSource p false source).document filename true problems
      = document p filename (segments p source) problems := by
  obtain ⟨sameMain, declarations, orphans⟩ := collected_eq (p := p) (closed_segments p source)
  unfold Collected.document Collected.trace Document.orphanNotes Collected.ofSource
  rw [sameMain, declarations, orphans, if_pos rfl, if_pos rfl, List.map_map]
  rfl

theorem usedOnce_lookingFor {d : Document} {blocks : List Block} {fate : Nat → Fate} (usedOnce : UsedOnce d blocks fate)
    (lookup : Text) : UsedOnce (Document.lookingFor lookup d) blocks fate where
  used k block there := by
    have holds := usedOnce.used k block there
    generalize fate k = way at holds ⊢
    cases way with
    | main => exact (Document.lookingFor_main lookup d).trans holds
    | documents n =>
      show Option.map _ (Document.lookingFor lookup d).declarations[n]? = _
      rw [Document.lookingFor_declarations]
      exact holds
    | orphan n =>
      show (Document.lookingFor lookup d).debug[n]? = _
      rw [Document.debug_lookingFor]
      exact holds
  once := usedOnce.once
  others n declaration there unused := by
    rw [Document.lookingFor_declarations] at there
    exact usedOnce.others n declaration there unused

/-- The document of a source is the one that its segments say, with the problems that an audit finds in it. -/
theorem ofSource_eq {p : Profile} {settings : Value} (traced : Settings.debug settings = .ok true)
    (filename source lookup : Text) :
    Document.ofSource p settings filename source { lookup } =
      ((Settings.part settings "lint" >>= Audit.Rules.ofSection) >>= fun rules =>
        audit p rules (document p filename (segments p source) []) >>= fun problems =>
          .ok (Document.lookingFor lookup (document p filename (segments p source) problems))) := by
  obtain ⟨v, found, -⟩ := Fallible.bind_eq_ok.mp traced
  unfold Document.ofSource
  rw [Document.ofCollected_eq, Settings.part_orElse found, traced]
  simp only [← document_ofSource]
  rfl

/-- Every comment of a source is used once, whatever the profile: it is the main block, or it documents the first
    declaration after it, or the trace tells it as an orphan. The declarations are those on the lines of the skeleton,
    in order. There is a document if and only if an audit of what is paired succeeds. -/
theorem document_paired {p : Profile} {settings : Value} (traced : Settings.debug settings = .ok true)
    (filename source lookup : Text) :
    let segs := segments p source
    (∀ d, Document.ofSource p settings filename source { lookup } = .ok d →
      d.main = main p segs
      ∧ d.declarations = (pairs p segs).flatMap (declared p)
      ∧ d.debug = ((pairs p segs).flatMap (unclaimed p)).map orphanNote ++ [foundNote filename d.declarations]
      ∧ UsedOnce d (blocks p segs) (fate p segs)
      ∧ d.declarations.map Declaration.signature
        = (Segment.skeleton segs).lines.filterMap (Signature.ofLine? p))
    ∧ ((∃ d, Document.ofSource p settings filename source { lookup } = .ok d) ↔
      ∃ rules problems, (Settings.part settings "lint" >>= Audit.Rules.ofSection) = .ok rules
        ∧ audit p rules (document p filename segs []) = .ok problems) := by
  have closed := closed_segments p source
  rw [ofSource_eq traced]
  constructor
  · intro d given
    obtain ⟨rules, -, given⟩ := Fallible.bind_eq_ok.mp given
    obtain ⟨problems, -, given⟩ := Fallible.bind_eq_ok.mp given
    obtain rfl := Except.ok.inj given
    rw [Document.lookingFor_main, Document.lookingFor_declarations, Document.debug_lookingFor]
    exact ⟨rfl, rfl, rfl, usedOnce_lookingFor (usedOnce_document closed filename problems) lookup,
      signatures_declared closed⟩
  · constructor
    · rintro ⟨d, given⟩
      obtain ⟨rules, readable, given⟩ := Fallible.bind_eq_ok.mp given
      obtain ⟨problems, audited, -⟩ := Fallible.bind_eq_ok.mp given
      exact ⟨rules, problems, readable, audited⟩
    · rintro ⟨rules, problems, readable, audited⟩
      exact ⟨_, Fallible.bind_eq_ok.mpr ⟨rules, readable, Fallible.bind_eq_ok.mpr ⟨problems, audited, rfl⟩⟩⟩

/-- A main block, an orphan, and a block for the first of two functions. -/
theorem document_paired_orphan :
    let source : Text := "<?php /** M. */ /** A. */ /** B. */ function f() ; function g() ;"
    let settings : Value := .object [("debug", .bool true)]
    Settings.debug settings = .ok true
    ∧ ∃ d, Document.ofSource .php settings "a.php" source {} = .ok d
      ∧ d.main = Block.read .php " M. "
      ∧ d.declarations = [⟨⟨.function, "function", "f", []⟩, Block.read .php " B. "⟩,
        ⟨⟨.function, "function", "g", []⟩, {}⟩]
      ∧ d.debug = ["Orphan block: A.".toList, "Found 2 declarations in a.php".toList] := by
  intro source settings
  have traced : Settings.debug settings = .ok true := rfl
  have groups : ∀ pattern ∈ Profile.php.paramPattern, pattern.groups ≤ 1 := by
    rintro pattern ⟨⟩
    decide
  obtain ⟨problems, audited⟩ := Audit.exists_audit groups {} (document .php "a.php" (segments .php source) [])
  obtain ⟨told, made⟩ := document_paired (p := .php) traced "a.php" source []
  obtain ⟨d, given⟩ := made.mpr ⟨{}, problems, rfl, audited⟩
  obtain ⟨itsMain, itsDeclarations, itsTrace, -, -⟩ := told d given
  have declarations : (pairs .php (segments .php source)).flatMap (declared .php)
      = [⟨⟨.function, "function", "f", []⟩, Block.read .php " B. "⟩, ⟨⟨.function, "function", "g", []⟩, {}⟩] := by
    decide +kernel
  refine ⟨traced, d, given, itsMain.trans (by decide +kernel), itsDeclarations.trans declarations, ?_⟩
  rw [itsTrace, itsDeclarations, declarations]
  decide +kernel

end Pairing

end Marginalia
