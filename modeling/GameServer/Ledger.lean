import Mathlib.Data.List.Basic
import Mathlib.Data.List.Nodup
import Mathlib.Data.List.Perm.Basic

namespace GameServer

/-! Objects that are acquired once and have to be released once.  A ledger keeps
every object ever acquired, numbered in order, with the number of times it was
released; a second release is counted, not refused, so that the double release
of a program stays visible. -/

structure Lease (α : Type) where
  value : α
  releases : Nat
deriving DecidableEq

abbrev Ledger (α : Type) := List (Lease α)

namespace Ledger

variable {α : Type} {ledger : Ledger α} {owners : List Nat} {id : Nat}

def acquire (ledger : Ledger α) (value : α) : Ledger α :=
  ledger ++ [⟨value, 0⟩]

def release (ledger : Ledger α) (id : Nat) : Ledger α :=
  ledger.modify id fun lease => { lease with releases := lease.releases + 1 }

def update (ledger : Ledger α) (id : Nat) (change : α → α) : Ledger α :=
  ledger.modify id fun lease => { lease with value := change lease.value }

/-- How often an object was released; zero for one that does not exist. -/
def releases (ledger : Ledger α) (id : Nat) : Nat :=
  (ledger[id]?.map Lease.releases).getD 0

/-- The value of an object that exists and was not released. -/
def live? (ledger : Ledger α) (id : Nat) : Option α :=
  match ledger[id]? with
  | some lease => if lease.releases = 0 then some lease.value else none
  | none => none

theorem lt_length_of_releases (released : 0 < ledger.releases id) : id < ledger.length := by
  by_contra outside
  simp [releases, List.getElem?_eq_none (Nat.le_of_not_lt outside)] at released

@[simp] theorem length_acquire (value : α) : (ledger.acquire value).length = ledger.length + 1 := by
  simp [acquire]

theorem acquire_inj {value other : α} (same : ledger.acquire value = ledger.acquire other) :
    value = other := by
  simpa [acquire] using same

@[simp] theorem length_release : (ledger.release id).length = ledger.length := by
  simp [release]

@[simp] theorem releases_acquire (value : α) (id : Nat) :
    (ledger.acquire value).releases id = ledger.releases id := by
  unfold releases acquire
  rcases Nat.lt_trichotomy id ledger.length with old | new | beyond
  · rw [List.getElem?_append_left old]
  · subst new; simp
  · rw [List.getElem?_eq_none (by simp; omega), List.getElem?_eq_none (by omega)]

theorem releases_release (inside : id < ledger.length) (other : Nat) :
    (ledger.release id).releases other = ledger.releases other + if other = id then 1 else 0 := by
  unfold releases release
  rw [List.getElem?_modify]
  by_cases same : id = other
  · subst same
    simp [List.getElem?_eq_getElem inside]
  · have different : other ≠ id := fun equal => same equal.symm
    simp only [same, different, if_false, Nat.add_zero]
    cases ledger[other]? <;> rfl

theorem live?_isSome_iff :
    (ledger.live? id).isSome ↔ id < ledger.length ∧ ledger.releases id = 0 := by
  unfold live? releases
  by_cases inside : id < ledger.length
  · simp only [List.getElem?_eq_getElem inside, inside, true_and, Option.map_some, Option.getD_some]
    split <;> simp_all
  · simp [inside]

theorem live?_acquire_self (value : α) :
    (ledger.acquire value).live? ledger.length = some value := by
  simp [live?, acquire]

theorem live?_acquire_of_lt (value : α) (inside : id < ledger.length) :
    (ledger.acquire value).live? id = ledger.live? id := by
  simp [live?, acquire, List.getElem?_append_left inside]

theorem live?_release_of_ne {other : Nat} (different : other ≠ id) :
    (ledger.release id).live? other = ledger.live? other := by
  have apart : id ≠ other := fun same => different same.symm
  unfold live? release
  rw [List.getElem?_modify]
  cases ledger[other]? <;> simp [apart]

theorem acquire_update (value : α) (change : α → α) :
    (ledger.acquire value).update ledger.length change = ledger.acquire (change value) := by
  unfold acquire update
  induction ledger with
  | nil => rfl
  | cons lease rest ih => simpa using ih

/-- The owners hold different objects, none of which was released.  Unless objects may
be released `twice` none was; unless they may be `lost` every other one was released. -/
structure Owns (lost twice : Prop) (ledger : Ledger α) (owners : List Nat) : Prop where
  nodup : owners.Nodup
  live : ∀ id ∈ owners, (ledger.live? id).isSome
  once : ∀ id, twice ∨ ledger.releases id ≤ 1
  kept : ∀ id < ledger.length, lost ∨ id ∈ owners ∨ 0 < ledger.releases id

namespace Owns

variable {lost twice : Prop}

theorem nil : Owns lost twice ([] : Ledger α) [] where
  nodup := List.nodup_nil
  live := nofun
  once := fun _ => .inr (by simp [releases])
  kept := nofun

theorem perm {reordered : List Nat} (owns : Owns lost twice ledger owners)
    (same : owners.Perm reordered) : Owns lost twice ledger reordered where
  nodup := same.nodup_iff.mp owns.nodup
  live := fun id member => owns.live id (same.mem_iff.mpr member)
  once := owns.once
  kept := fun id inside => by simpa only [← same.mem_iff] using owns.kept id inside

theorem lt_length (owns : Owns lost twice ledger owners) (member : id ∈ owners) :
    id < ledger.length :=
  (live?_isSome_iff.mp (owns.live id member)).1

theorem fresh (owns : Owns lost twice ledger owners) : ledger.length ∉ owners :=
  fun member => Nat.lt_irrefl _ (owns.lt_length member)

theorem acquire (owns : Owns lost twice ledger owners) (value : α) :
    Owns lost twice (ledger.acquire value) (ledger.length :: owners) where
  nodup := List.nodup_cons.mpr ⟨owns.fresh, owns.nodup⟩
  live := by
    intro id member
    rcases List.mem_cons.mp member with rfl | old
    · simp [live?_acquire_self]
    · rw [live?_acquire_of_lt value (owns.lt_length old)]
      exact owns.live id old
  once := by simpa only [releases_acquire] using owns.once
  kept := by
    intro id inside
    rw [length_acquire] at inside
    rw [releases_acquire]
    rcases Nat.lt_succ_iff_lt_or_eq.mp inside with old | rfl
    · exact (owns.kept id old).imp_right (.imp_left (List.mem_cons_of_mem _))
    · exact .inr (.inl (List.mem_cons_self ..))

theorem release (owns : Owns lost twice ledger (id :: owners)) :
    Owns lost twice (ledger.release id) owners := by
  obtain ⟨outside, nodup⟩ := List.nodup_cons.mp owns.nodup
  obtain ⟨inside, unreleased⟩ := live?_isSome_iff.mp (owns.live id (List.mem_cons_self ..))
  refine ⟨nodup, fun other member => ?_, fun other => ?_, fun other within => ?_⟩
  · have different : other ≠ id := fun same => outside (same ▸ member)
    rw [live?_release_of_ne different]
    exact owns.live other (List.mem_cons_of_mem _ member)
  · rw [releases_release inside]
    by_cases same : other = id
    · subst same
      simp [unreleased]
    · simpa [same] using owns.once other
  · rw [length_release] at within
    rw [releases_release inside]
    by_cases same : other = id
    · simp [same]
    · simpa [same] using owns.kept other within

/-- A further release of what was released already. -/
theorem releaseAgain (owns : Owns lost twice ledger owners) (allowed : twice)
    (released : 0 < ledger.releases id) : Owns lost twice (ledger.release id) owners := by
  have inside := lt_length_of_releases released
  refine ⟨owns.nodup, fun other member => ?_, fun _ => .inl allowed, fun other within => ?_⟩
  · have different : other ≠ id := by
      intro same
      subst same
      have unreleased := (live?_isSome_iff.mp (owns.live other member)).2
      omega
    rw [live?_release_of_ne different]
    exact owns.live other member
  · rw [length_release] at within
    rw [releases_release inside]
    exact (owns.kept other within).imp_right (.imp_right fun positive => by omega)

/-- An owner gives its object up without releasing it. -/
theorem forget (owns : Owns lost twice ledger (id :: owners)) (allowed : lost) :
    Owns lost twice ledger owners where
  nodup := (List.nodup_cons.mp owns.nodup).2
  live := fun other member => owns.live other (List.mem_cons_of_mem _ member)
  once := owns.once
  kept := fun _ _ => .inl allowed

/-- An object nobody was given. -/
theorem discard (owns : Owns lost twice ledger owners) (value : α) :
    Owns lost twice ((ledger.acquire value).release ledger.length) owners :=
  (owns.acquire value).release

end Owns

/-- Every object was either released exactly once, or it is still held and then
by exactly one of the owners. -/
def Balanced (ledger : Ledger α) (owners : List Nat) : Prop :=
  ∀ id, ledger.releases id + owners.count id = if id < ledger.length then 1 else 0

theorem Owns.balanced (owns : Owns False False ledger owners) : Balanced ledger owners := by
  intro id
  by_cases owned : id ∈ owners
  · obtain ⟨inside, unreleased⟩ := live?_isSome_iff.mp (owns.live id owned)
    rw [List.count_eq_one_of_mem owns.nodup owned, unreleased, if_pos inside]
  · rw [List.count_eq_zero_of_not_mem owned, Nat.add_zero]
    have atMostOnce := (owns.once id).resolve_left not_false
    split
    · rename_i inside
      have released := ((owns.kept id inside).resolve_left nofun).resolve_left owned
      omega
    · rename_i outside
      exact Nat.eq_zero_of_not_pos fun released => outside (lt_length_of_releases released)

theorem not_balanced_of_held (held : ledger.map Lease.releases = [0]) : ¬ Balanced ledger [] := by
  intro balanced
  obtain ⟨lease, rfl, unreleased⟩ : ∃ lease, ledger = [lease] ∧ lease.releases = 0 := by
    simpa [List.map_eq_cons_iff] using held
  have total := balanced 0
  simp [releases, unreleased] at total

end Ledger

end GameServer
