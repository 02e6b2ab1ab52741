import Mathlib.Data.List.Nodup
import Mathlib.Data.List.Perm.Subperm

namespace GameServer.Chain

/-! Singly linked chains in a store: `next` leads from a place to the one behind it. -/

variable {ι : Type} {next next' : ι → Option ι} {start : ι} {places : List ι}

/-- The places met from `start` to the end of its chain. -/
inductive Trail (next : ι → Option ι) : ι → List ι → Prop
  | last {place : ι} (final : next place = none) : Trail next place [place]
  | link {place behind : ι} {places : List ι} (linked : next place = some behind)
      (onward : Trail next behind places) : Trail next place (place :: places)

/-- The loop that goes down a chain to the first place that passes the test. -/
def search (next : ι → Option ι) (test : ι → Bool) : Nat → ι → Option ι
  | 0, _ => none
  | steps + 1, place =>
      if test place then some place
      else match next place with
        | some behind => search next test steps behind
        | none => none

namespace Trail

theorem start_mem (trail : Trail next start places) : start ∈ places := by
  cases trail <;> exact List.mem_cons_self

theorem deterministic {others : List ι} (trail : Trail next start places)
    (other : Trail next start others) : places = others := by
  induction trail generalizing others with
  | last final =>
      cases other with
      | last _ => rfl
      | link linked _ => simp [final] at linked
  | link linked onward ih =>
      cases other with
      | last final => simp [linked] at final
      | link linkedToo onwardToo =>
          rw [linked] at linkedToo
          cases linkedToo
          rw [ih onwardToo]

theorem congr (trail : Trail next start places) (same : ∀ place ∈ places, next' place = next place) :
    Trail next' start places := by
  induction trail with
  | last final => exact .last ((same _ List.mem_cons_self).trans final)
  | link linked onward ih =>
      apply Trail.link ((same _ List.mem_cons_self).trans linked)
      apply ih
      intro place member
      exact same place (List.mem_cons_of_mem _ member)

/-- Every place of a chain is the start of the rest of the chain. -/
theorem suffix (trail : Trail next start places) {place : ι} (member : place ∈ places) :
    ∃ rest, Trail next place rest ∧ rest <:+ places := by
  induction trail with
  | @last here final =>
      have same : place = here := by simpa using member
      subst same
      exact ⟨[place], .last final, List.suffix_refl _⟩
  | @link here behind places linked onward ih =>
      cases List.mem_cons.mp member with
      | inl same =>
          subst same
          exact ⟨place :: places, .link linked onward, List.suffix_refl _⟩
      | inr later =>
          obtain ⟨rest, trail, suffix⟩ := ih later
          exact ⟨rest, trail, suffix.trans (List.suffix_cons _ _)⟩

/-- A chain that ends meets no place twice. -/
theorem nodup (trail : Trail next start places) : places.Nodup := by
  induction trail with
  | last final => exact List.nodup_singleton _
  | @link place behind places linked onward ih =>
      apply List.nodup_cons.mpr
      refine ⟨?_, ih⟩
      intro again
      obtain ⟨rest, trail, suffix⟩ := onward.suffix again
      have whole : rest = place :: places := trail.deterministic (.link linked onward)
      have shorter := suffix.length_le
      rw [whole, List.length_cons] at shorter
      omega

theorem eq_cons_of_link (trail : Trail next start places) {behind : ι} (linked : next start = some behind) :
    ∃ rest, places = start :: rest ∧ Trail next behind rest := by
  cases trail with
  | last final => simp [linked] at final
  | link linkedToo onward =>
      rw [linked] at linkedToo
      cases linkedToo
      exact ⟨_, rfl, onward⟩

/-- Every place but the first is behind another one of the chain. -/
theorem exists_previous (trail : Trail next start places) {place : ι} (member : place ∈ places)
    (notFirst : place ≠ start) : ∃ previous ∈ places, next previous = some place := by
  induction trail with
  | last final =>
      simp only [List.mem_singleton] at member
      exact absurd member notFirst
  | @link here behind places linked onward ih =>
      have later : place ∈ places := (List.mem_cons.mp member).resolve_left notFirst
      by_cases first : place = behind
      · subst first
        exact ⟨here, List.mem_cons_self, linked⟩
      · obtain ⟨previous, before, leads⟩ := ih later first
        exact ⟨previous, List.mem_cons_of_mem _ before, leads⟩

/-- Going down a chain for as many steps as it is long misses no place of it. -/
theorem search_eq_find? (trail : Trail next start places) (test : ι → Bool) {steps : Nat}
    (enough : places.length ≤ steps) : search next test steps start = places.find? test := by
  induction trail generalizing steps with
  | @last place final =>
      obtain ⟨steps, rfl⟩ : ∃ less, steps = less + 1 := ⟨steps - 1, by simp at enough; omega⟩
      cases passed : test place <;> simp [search, final, passed]
  | @link place behind places linked onward ih =>
      rw [List.length_cons] at enough
      obtain ⟨steps, rfl⟩ : ∃ less, steps = less + 1 := ⟨steps - 1, by omega⟩
      have further := ih (by omega : places.length ≤ steps)
      cases passed : test place <;> simp [search, linked, passed, further]

theorem search_eq_some_iff (trail : Trail next start places) {test : ι → Bool} {steps : Nat}
    (enough : places.length ≤ steps) {found : ι} (only : ∀ place ∈ places, test place = true → place = found) :
    search next test steps start = some found ↔ found ∈ places ∧ test found = true := by
  rw [trail.search_eq_find? test enough]
  constructor
  · intro present
    exact ⟨List.mem_of_find?_eq_some present, List.find?_some present⟩
  · intro present
    obtain ⟨member, passed⟩ := present
    obtain ⟨place, first⟩ := Option.isSome_iff_exists.mp (List.find?_isSome.mpr ⟨found, member, passed⟩)
    have same := only place (List.mem_of_find?_eq_some first) (List.find?_some first)
    rw [first, same]

section Update

variable [DecidableEq ι]

/-- A new place is put into the chain behind `at`. -/
theorem insert (trail : Trail next start places) {front new : ι} (fresh : new ∉ places)
    (toNew : next' front = some new) (fromNew : next' new = next front)
    (others : ∀ place ∈ places, place ≠ front → next' place = next place) :
    Trail next' start (places.flatMap fun place => if place = front then [front, new] else [place]) := by
  induction trail with
  | @last place final =>
      by_cases same : place = front
      · subst same
        simpa using Trail.link toNew (.last (fromNew.trans final))
      · simpa [same] using Trail.last ((others place List.mem_cons_self same).trans final)
  | @link place behind places linked onward ih =>
      have apart : place ∉ places := (List.nodup_cons.mp (Trail.link linked onward).nodup).1
      have freshBehind : new ∉ places := fun member => fresh (List.mem_cons_of_mem _ member)
      rw [List.flatMap_cons]
      by_cases same : place = front
      · subst same
        have kept : places.flatMap (fun other => if other = place then [place, new] else [other]) = places := by
          have alone : ∀ other ∈ places, (if other = place then [place, new] else [other]) = [other] := by
            intro other member
            rw [if_neg]
            intro same
            subst same
            exact apart member
          rw [List.flatMap_congr alone, List.flatMap_singleton']
        rw [if_pos rfl, kept]
        refine .link toNew (.link (fromNew.trans linked) (onward.congr ?_))
        intro other member
        apply others other (List.mem_cons_of_mem _ member)
        intro same
        subst same
        exact apart member
      · rw [if_neg same]
        refine .link ((others place List.mem_cons_self same).trans linked) (ih freshBehind ?_)
        intro other member
        exact others other (List.mem_cons_of_mem _ member)

/-- A new place takes the position of an old one, with what was behind it. -/
theorem substitute (trail : Trail next start places) {previous old new : ι} (fresh : new ∉ places)
    (notFirst : start ≠ old) (before : next previous = some old)
    (only : ∀ place, next place = some old → place = previous)
    (toNew : next' previous = some new) (fromNew : next' new = next old)
    (others : ∀ place ∈ places, place ≠ previous → place ≠ old → next' place = next place) :
    Trail next' start (places.map fun place => if place = old then new else place) := by
  induction trail with
  | @last place final =>
      have notPrevious : place ≠ previous := by
        intro same
        subst same
        simp [final] at before
      have same := others place List.mem_cons_self notPrevious notFirst
      simpa [notFirst] using Trail.last (same.trans final)
  | @link place behind places linked onward ih =>
      have apart : place ∉ places := (List.nodup_cons.mp (Trail.link linked onward).nodup).1
      have freshBehind : new ∉ places := fun member => fresh (List.mem_cons_of_mem _ member)
      rw [List.map_cons, if_neg notFirst]
      by_cases reached : behind = old
      · subst reached
        have same := only place linked
        subst same
        obtain ⟨rest, shape⟩ : ∃ rest, places = behind :: rest := by cases onward <;> exact ⟨_, rfl⟩
        subst shape
        have unmet : behind ∉ rest := (List.nodup_cons.mp onward.nodup).1
        have kept : rest.map (fun other => if other = behind then new else other) = rest := by
          conv_rhs => rw [← List.map_id rest]
          apply List.map_congr_left
          intro other member
          rw [id, if_neg]
          intro same
          subst same
          exact unmet member
        rw [List.map_cons, if_pos rfl, kept]
        apply Trail.link toNew
        have untouched : ∀ other ∈ rest, next' other = next other := by
          intro other member
          apply others other (by simp [member])
          · intro same
            subst same
            exact apart (List.mem_cons_of_mem _ member)
          · intro same
            subst same
            exact unmet member
        cases onward with
        | last final => exact .last (fromNew.trans final)
        | link further onward => exact .link (fromNew.trans further) (onward.congr untouched)
      · have notPrevious : place ≠ previous := by
          intro same
          subst same
          rw [linked] at before
          exact reached (Option.some.inj before)
        have same := others place List.mem_cons_self notPrevious notFirst
        refine .link (same.trans linked) (ih freshBehind reached ?_)
        intro other member
        exact others other (List.mem_cons_of_mem _ member)

end Update

end Trail

end GameServer.Chain
