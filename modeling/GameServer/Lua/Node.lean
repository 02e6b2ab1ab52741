import GameServer.Chain
import GameServer.Lua.Table
import Mathlib.Algebra.Group.Nat.Defs

namespace GameServer.Lua

open Chain

/-! The hash part of a table (`ltable.c`): a chained scatter table with Brent's variation. -/

/-- `Node`; `next` is an index of the node vector. -/
structure Node where
  value : Value := .nil
  key : Value := .nil
  next : Option Nat := none
deriving DecidableEq

instance : Inhabited Node := ⟨{}⟩

variable (hash : Value → Nat)

/-- `mainposition` in a vector of `2 ^ lsizenode` nodes.  `hash` is the word the key is hashed
by: the hash of a string, the summed halves of a number, the address of an object. -/
def mainposition (lsizenode : Nat) (key : Value) : Nat :=
  let sizenode := 2 ^ lsizenode
  match key with
  | .number n => if n = .finite 0 then 0 else hash key % ((sizenode - 1) ||| 1)
  | .string _ => hash key &&& (sizenode - 1)
  | .boolean b => b.toNat &&& (sizenode - 1)
  | _ => hash key % ((sizenode - 1) ||| 1)

theorem mainposition_lt (lsizenode : Nat) (key : Value) : mainposition hash lsizenode key < 2 ^ lsizenode := by
  have positive : 0 < 2 ^ lsizenode := Nat.two_pow_pos lsizenode
  have modulus : hash key % ((2 ^ lsizenode - 1) ||| 1) < 2 ^ lsizenode := by
    cases lsizenode with
    | zero => simp [Nat.mod_one]
    | succ bits =>
        apply Nat.lt_of_lt_of_le (Nat.mod_lt _ _)
        · have bound : (2 ^ (bits + 1) - 1) ||| 1 < 2 ^ (bits + 1) :=
            Nat.or_lt_two_pow (by omega) (Nat.one_lt_two_pow (by omega))
          omega
        · exact Nat.lt_of_lt_of_le Nat.one_pos Nat.right_le_or
  have masked : ∀ word : Nat, word &&& (2 ^ lsizenode - 1) < 2 ^ lsizenode := by
    intro word
    have bound : word &&& (2 ^ lsizenode - 1) ≤ 2 ^ lsizenode - 1 := Nat.and_le_right
    omega
  unfold mainposition
  cases key with
  | number n => dsimp only; split <;> assumption
  | string _ => exact masked _
  | boolean b => exact masked _
  | _ => exact modulus

section Scattered

variable (position : Value → Nat) (size : Nat)

/-- The invariant of a node vector, read as a function of the index: chains end and do not
meet, each key is reached from its main position, and the key found there is at home. -/
structure Scattered (node : Nat → Node) : Prop where
  ends : ∀ i < size, ∃ places, Trail (fun i => (node i).next) i places
  linked : ∀ i j, (node i).next = some j → (node j).key ≠ .nil
  single : ∀ i j k, (node i).next = some k → (node j).next = some k → i = j
  blank : ∀ i, (node i).key = .nil → node i = {}
  inside : ∀ i, (node i).key ≠ .nil → i < size
  distinct : ∀ i j, (node i).key ≠ .nil → (node i).key = (node j).key → i = j
  reached : ∀ i places, (node i).key ≠ .nil →
    Trail (fun i => (node i).next) (position (node i).key) places → i ∈ places
  home : ∀ i, (node i).key ≠ .nil → (node (position (node i).key)).key ≠ .nil ∧
    position (node (position (node i).key)).key = position (node i).key

/-- The vector has a node with this key and value. -/
def Holds (node : Nat → Node) (key value : Value) : Prop :=
  ∃ i, (node i).key = key ∧ (node i).value = value

variable {position size} {node : Nat → Node} {key : Value} {mp : Nat}

namespace Scattered

variable (scattered : Scattered position size node)

include scattered

theorem linked_lt {i j : Nat} (linked : (node i).next = some j) : j < size :=
  scattered.inside j (scattered.linked i j linked)

theorem from_lt {i j : Nat} (linked : (node i).next = some j) : i < size := by
  apply scattered.inside
  intro blank
  simp [scattered.blank i blank] at linked

/-- A chain has no more places than the vector. -/
theorem trail_length {start : Nat} {places : List Nat} (bound : start < size)
    (trail : Trail (fun i => (node i).next) start places) : places.length ≤ size := by
  have within : places ⊆ List.range size := by
    intro place member
    rw [List.mem_range]
    by_cases first : place = start
    · rw [first]
      exact bound
    · obtain ⟨previous, -, linked⟩ := trail.exists_previous member first
      exact scattered.linked_lt linked
  have shorter := (List.subperm_of_subset trail.nodup within).length_le
  simpa using shorter

/-- A node without a key is in no chain but its own. -/
theorem not_mem_of_blank {start i : Nat} {places : List Nat}
    (trail : Trail (fun i => (node i).next) start places) (blank : (node i).key = .nil)
    (different : i ≠ start) : i ∉ places := by
  intro member
  obtain ⟨previous, -, linked⟩ := trail.exists_previous member different
  exact scattered.linked previous i linked blank

/-- A key whose main position holds no value is written there. -/
theorem settle {node' : Nat → Node} (valid : key ≠ .nil) (bound : mp < size)
    (main : position key = mp) (absent : ∀ i, (node i).key ≠ key)
    (atMain : node' mp = { node mp with key := key }) (others : ∀ i, i ≠ mp → node' i = node i) :
    Scattered position size node' := by
  have next : ∀ i, (node' i).next = (node i).next := by
    intro i
    by_cases same : i = mp
    · rw [same, atMain]
    · rw [others i same]
  have nexts : (fun i => (node' i).next) = fun i => (node i).next := funext next
  have mainKey : (node' mp).key = key := by rw [atMain]
  have keyed : ∀ i, (node i).key ≠ .nil → (node' i).key ≠ .nil := by
    intro i named
    by_cases same : i = mp
    · rw [same, mainKey]
      exact valid
    · rwa [others i same]
  refine { ends := ?ends, linked := ?linked, single := ?single, blank := ?blank, inside := ?inside,
           distinct := ?distinct, reached := ?reached, home := ?home }
  case ends =>
    rw [nexts]
    exact scattered.ends
  case linked =>
    intro i j linked
    rw [next] at linked
    exact keyed j (scattered.linked i j linked)
  case single =>
    intro i j k left right
    rw [next] at left right
    exact scattered.single i j k left right
  case blank =>
    intro i blank
    by_cases same : i = mp
    · rw [same, mainKey] at blank
      exact absurd blank valid
    · rw [others i same] at blank ⊢
      exact scattered.blank i blank
  case inside =>
    intro i named
    by_cases same : i = mp
    · rw [same]
      exact bound
    · rw [others i same] at named
      exact scattered.inside i named
  case distinct =>
    intro i j named alike
    by_cases iMain : i = mp
    · by_cases jMain : j = mp
      · rw [iMain, jMain]
      · rw [iMain, mainKey, others j jMain] at alike
        exact absurd alike.symm (absent j)
    · rw [others i iMain] at named alike
      by_cases jMain : j = mp
      · rw [jMain, mainKey] at alike
        exact absurd alike (absent i)
      · rw [others j jMain] at alike
        exact scattered.distinct i j named alike
  case reached =>
    intro i places named trail
    rw [nexts] at trail
    by_cases same : i = mp
    · rw [same, mainKey, main] at trail
      rw [same]
      exact trail.start_mem
    · rw [others i same] at named trail
      exact scattered.reached i places named trail
  case home =>
    intro i named
    by_cases same : i = mp
    · rw [same, mainKey, main, mainKey]
      exact ⟨valid, main⟩
    · rw [others i same] at named ⊢
      obtain ⟨occupied, atHome⟩ := scattered.home i named
      by_cases toMain : position (node i).key = mp
      · rw [toMain, mainKey]
        exact ⟨valid, main⟩
      · rw [others _ toMain]
        exact ⟨occupied, atHome⟩

theorem not_self (i : Nat) : (node i).next ≠ some i := by
  intro linked
  obtain ⟨places, trail⟩ := scattered.ends i (scattered.from_lt linked)
  obtain ⟨rest, shape, onward⟩ := trail.eq_cons_of_link linked
  have longer := congrArg List.length (onward.deterministic trail)
  rw [shape, List.length_cons] at longer
  omega

theorem unlinked {n : Nat} (free : (node n).key = .nil) (i : Nat) : (node i).next ≠ some n :=
  fun linked => scattered.linked i n linked free

/-- No key has its main position at a node without a key. -/
theorem position_ne {n i : Nat} (free : (node n).key = .nil) (named : (node i).key ≠ .nil) :
    position (node i).key ≠ n := by
  intro same
  have taken := (scattered.home i named).1
  rw [same] at taken
  exact taken free

/-- No key has its main position at a node whose own key is out of its main position. -/
theorem unclaimed {i : Nat} (away : position (node mp).key ≠ mp) (named : (node i).key ≠ .nil) :
    position (node i).key ≠ mp := by
  intro same
  have settled := (scattered.home i named).2
  rw [same] at settled
  exact away settled

/-- The chain of the main position of a key. -/
theorem home_trail {i : Nat} (named : (node i).key ≠ .nil) :
    ∃ places, Trail (fun i => (node i).next) (position (node i).key) places ∧ i ∈ places := by
  obtain ⟨places, trail⟩ := scattered.ends _ (scattered.inside _ (scattered.home i named).1)
  exact ⟨places, trail, scattered.reached i places named trail⟩

end Scattered

/-- The free node `n` got `key`, and is chained in behind the node `mp`. -/
structure Chained (node node' : Nat → Node) (key : Value) (mp n : Nat) : Prop where
  valid : key ≠ .nil
  occupied : (node mp).key ≠ .nil
  free : node n = {}
  atNew : node' n = { key := key, next := (node mp).next }
  atMain : node' mp = { node mp with next := some n }
  others : ∀ i, i ≠ mp → i ≠ n → node' i = node i

namespace Chained

variable {node' : Nat → Node} {n i : Nat} (chained : Chained node node' key mp n)

include chained

theorem blank : (node n).key = .nil := by rw [chained.free]

theorem different : mp ≠ n := by
  intro same
  have occupied := chained.occupied
  rw [same] at occupied
  exact occupied chained.blank

theorem newKey : (node' n).key = key := by rw [chained.atNew]

theorem toNew : (node' mp).next = some n := by rw [chained.atMain]

theorem fromNew : (node' n).next = (node mp).next := by rw [chained.atNew]

theorem nexts (notMain : i ≠ mp) (old : i ≠ n) : (node' i).next = (node i).next := by
  rw [chained.others i notMain old]

/-- Only the free node changes its key and its value. -/
theorem same (old : i ≠ n) : (node' i).key = (node i).key ∧ (node' i).value = (node i).value := by
  by_cases isMain : i = mp
  · rw [isMain, chained.atMain]
    exact ⟨rfl, rfl⟩
  · rw [chained.others i isMain old]
    exact ⟨rfl, rfl⟩

theorem keyed (named : (node i).key ≠ .nil) : (node' i).key ≠ .nil := by
  have old : i ≠ n := by
    intro same
    rw [same] at named
    exact named chained.blank
  rwa [(chained.same old).1]

theorem origin (i : Nat) : (node' i).key = key ∨ ∃ j, (node j).key = (node' i).key := by
  by_cases new : i = n
  · exact .inl (by rw [new, chained.newKey])
  · exact .inr ⟨i, (chained.same new).1.symm⟩

theorem holds {other value : Value} (different : other ≠ key) (live : value ≠ .nil) :
    Holds node' other value ↔ Holds node other value := by
  constructor
  · intro held
    obtain ⟨i, named, valued⟩ := held
    have old : i ≠ n := by
      intro new
      rw [new, chained.newKey] at named
      exact different named.symm
    rw [(chained.same old).1] at named
    rw [(chained.same old).2] at valued
    exact ⟨i, named, valued⟩
  · intro held
    obtain ⟨i, named, valued⟩ := held
    have old : i ≠ n := by
      intro new
      rw [new, chained.free] at valued
      exact live valued.symm
    exact ⟨i, (chained.same old).1.trans named, (chained.same old).2.trans valued⟩

/-- A link is one of the two new ones, or was there before. -/
theorem source {k : Nat} (linked : (node' i).next = some k) :
    (i = mp ∧ k = n) ∨ (i = n ∧ (node mp).next = some k) ∨ (i ≠ mp ∧ i ≠ n ∧ (node i).next = some k) := by
  by_cases isMain : i = mp
  · rw [isMain, chained.toNew] at linked
    exact .inl ⟨isMain, (Option.some.inj linked).symm⟩
  by_cases new : i = n
  · rw [new, chained.fromNew] at linked
    exact .inr (.inl ⟨new, linked⟩)
  · rw [chained.nexts isMain new] at linked
    exact .inr (.inr ⟨isMain, new, linked⟩)

variable (scattered : Scattered position size node)

include scattered

/-- A chain through `mp` gets one place more. -/
theorem trail {start : Nat} {places : List Nat} (old : start ≠ n)
    (trail : Trail (fun i => (node i).next) start places) :
    Trail (fun i => (node' i).next) start
      (places.flatMap fun place => if place = mp then [mp, n] else [place]) := by
  have fresh := scattered.not_mem_of_blank trail chained.blank old.symm
  apply trail.insert fresh chained.toNew chained.fromNew
  intro place member notMain
  apply chained.nexts notMain
  intro same
  rw [same] at member
  exact fresh member

theorem new_ends : ∃ places, Trail (fun i => (node' i).next) n places := by
  obtain ⟨places, trail⟩ := scattered.ends mp (scattered.inside mp chained.occupied)
  cases leads : (node mp).next with
  | none => exact ⟨[n], .last (chained.fromNew.trans leads)⟩
  | some behind =>
      obtain ⟨rest, -, onward⟩ := trail.eq_cons_of_link leads
      have apart : mp ∉ rest := by
        have whole : places = mp :: rest := trail.deterministic (.link leads onward)
        have once := trail.nodup
        rw [whole] at once
        exact (List.nodup_cons.mp once).1
      have otherBehind : n ≠ behind := by
        intro same
        rw [← same] at leads
        exact scattered.unlinked chained.blank mp leads
      have fresh : n ∉ rest := scattered.not_mem_of_blank onward chained.blank otherBehind
      refine ⟨n :: rest, .link (chained.fromNew.trans leads) (onward.congr ?_)⟩
      intro place member
      apply chained.nexts
      · intro same
        subst same
        exact apart member
      · intro same
        subst same
        exact fresh member

theorem single {j k : Nat} (left : (node' i).next = some k) (right : (node' j).next = some k) : i = j := by
  have unlinked := scattered.unlinked chained.blank
  rcases chained.source left with ⟨iMain, toFree⟩ | ⟨iNew, fromMain⟩ | ⟨iOther, -, fromOther⟩ <;>
    rcases chained.source right with ⟨jMain, toFree'⟩ | ⟨jNew, fromMain'⟩ | ⟨jOther, -, fromOther'⟩
  · rw [iMain, jMain]
  · exact absurd (toFree ▸ fromMain') (unlinked mp)
  · exact absurd (toFree ▸ fromOther') (unlinked j)
  · exact absurd (toFree' ▸ fromMain) (unlinked mp)
  · rw [iNew, jNew]
  · exact absurd (scattered.single mp j k fromMain fromOther').symm jOther
  · exact absurd (toFree' ▸ fromOther) (unlinked i)
  · exact absurd (scattered.single mp i k fromMain' fromOther).symm iOther
  · exact scattered.single i j k fromOther fromOther'

theorem distinct (absent : ∀ i, (node i).key ≠ key) {j : Nat} (named : (node' i).key ≠ .nil)
    (alike : (node' i).key = (node' j).key) : i = j := by
  by_cases iNew : i = n
  · by_cases jNew : j = n
    · rw [iNew, jNew]
    · rw [iNew, chained.newKey, (chained.same jNew).1] at alike
      exact absurd alike.symm (absent j)
  · rw [(chained.same iNew).1] at named alike
    by_cases jNew : j = n
    · rw [jNew, chained.newKey] at alike
      exact absurd alike (absent i)
    · rw [(chained.same jNew).1] at alike
      exact scattered.distinct i j named alike

theorem reached (main : position key = mp) {places' : List Nat} (named : (node' i).key ≠ .nil)
    (trail' : Trail (fun i => (node' i).next) (position (node' i).key) places') : i ∈ places' := by
  by_cases new : i = n
  · subst new
    rw [chained.newKey, main] at trail'
    obtain ⟨places, trail⟩ := scattered.ends mp (scattered.inside mp chained.occupied)
    rw [trail'.deterministic (chained.trail scattered chained.different trail), List.mem_flatMap]
    exact ⟨mp, trail.start_mem, by simp⟩
  · rw [(chained.same new).1] at named trail'
    obtain ⟨places, trail, member⟩ := scattered.home_trail named
    rw [trail'.deterministic (chained.trail scattered (scattered.position_ne chained.blank named) trail),
      List.mem_flatMap]
    refine ⟨i, member, ?_⟩
    split <;> simp [*]

/-- A key whose main position is taken by a node at home is put into a free node, which is
chained in behind that one. -/
theorem scatters (bound : n < size) (main : position key = mp) (atHome : position (node mp).key = mp)
    (absent : ∀ i, (node i).key ≠ key) : Scattered position size node' := by
  refine { ends := ?ends, linked := ?linked, single := fun _ _ _ => chained.single scattered, blank := ?blank,
           inside := ?inside, distinct := fun _ _ => chained.distinct scattered absent,
           reached := fun _ _ => chained.reached scattered main, home := ?home }
  case ends =>
    intro i inside
    by_cases new : i = n
    · rw [new]
      exact chained.new_ends scattered
    · obtain ⟨places, trail⟩ := scattered.ends i inside
      exact ⟨_, chained.trail scattered new trail⟩
  case linked =>
    intro i j linked
    rcases chained.source linked with ⟨-, toFree⟩ | ⟨-, fromMain⟩ | ⟨-, -, fromOther⟩
    · rw [toFree, chained.newKey]
      exact chained.valid
    · exact chained.keyed (scattered.linked mp j fromMain)
    · exact chained.keyed (scattered.linked i j fromOther)
  case blank =>
    intro i blank
    by_cases new : i = n
    · rw [new, chained.newKey] at blank
      exact absurd blank chained.valid
    · rw [(chained.same new).1] at blank
      have notMain : i ≠ mp := by
        intro same
        rw [same] at blank
        exact chained.occupied blank
      rw [chained.others i notMain new]
      exact scattered.blank i blank
  case inside =>
    intro i named
    by_cases new : i = n
    · rw [new]
      exact bound
    · rw [(chained.same new).1] at named
      exact scattered.inside i named
  case home =>
    intro i named
    by_cases new : i = n
    · rw [new, chained.newKey, main, (chained.same chained.different).1]
      exact ⟨chained.occupied, atHome⟩
    · rw [(chained.same new).1] at named ⊢
      rw [(chained.same (scattered.position_ne chained.blank named)).1]
      exact scattered.home i named

end Chained

/-- `key` got the node `mp`; the node there, out of its own main position, went to the free node
`n`, and `previous` leads to it there. -/
structure Moved (node node' : Nat → Node) (key : Value) (mp n previous : Nat) : Prop where
  valid : key ≠ .nil
  occupied : (node mp).key ≠ .nil
  free : node n = {}
  before : (node previous).next = some mp
  atNew : node' n = node mp
  atPrevious : node' previous = { node previous with next := some n }
  atMain : node' mp = { key := key }
  others : ∀ i, i ≠ mp → i ≠ n → i ≠ previous → node' i = node i

namespace Moved

variable {node' : Nat → Node} {n previous i : Nat} (moved : Moved node node' key mp n previous)

include moved

theorem blank : (node n).key = .nil := by rw [moved.free]

theorem mainKey : (node' mp).key = key := by rw [moved.atMain]

theorem newKey : (node' n).key = (node mp).key := by rw [moved.atNew]

theorem fromMain : (node' mp).next = none := by rw [moved.atMain]

theorem fromNew : (node' n).next = (node mp).next := by rw [moved.atNew]

theorem toNew : (node' previous).next = some n := by rw [moved.atPrevious]

theorem nexts (notMain : i ≠ mp) (old : i ≠ n) (notPrevious : i ≠ previous) : (node' i).next = (node i).next := by
  rw [moved.others i notMain old notPrevious]

theorem same (notMain : i ≠ mp) (old : i ≠ n) :
    (node' i).key = (node i).key ∧ (node' i).value = (node i).value := by
  by_cases isPrevious : i = previous
  · rw [isPrevious, moved.atPrevious]
    exact ⟨rfl, rfl⟩
  · rw [moved.others i notMain old isPrevious]
    exact ⟨rfl, rfl⟩

theorem keyed (named : (node i).key ≠ .nil) : (node' i).key ≠ .nil := by
  by_cases isMain : i = mp
  · rw [isMain, moved.mainKey]
    exact moved.valid
  · have old : i ≠ n := by
      intro same
      rw [same] at named
      exact named moved.blank
    rwa [(moved.same isMain old).1]

/-- Each key but the new one was in one node before. -/
theorem home_node (notMain : i ≠ mp) :
    ∃ j, (node' i).key = (node j).key ∧ (i = n ∧ j = mp ∨ i ≠ n ∧ j = i) := by
  by_cases new : i = n
  · exact ⟨mp, by rw [new, moved.newKey], .inl ⟨new, rfl⟩⟩
  · exact ⟨i, (moved.same notMain new).1, .inr ⟨new, rfl⟩⟩

theorem origin (i : Nat) : (node' i).key = key ∨ ∃ j, (node j).key = (node' i).key := by
  by_cases isMain : i = mp
  · exact .inl (by rw [isMain, moved.mainKey])
  · obtain ⟨j, same, -⟩ := moved.home_node isMain
    exact .inr ⟨j, same.symm⟩

theorem holds {other value : Value} (different : other ≠ key) (live : value ≠ .nil) :
    Holds node' other value ↔ Holds node other value := by
  constructor
  · intro held
    obtain ⟨i, named, valued⟩ := held
    by_cases isMain : i = mp
    · rw [isMain, moved.mainKey] at named
      exact absurd named.symm different
    by_cases new : i = n
    · rw [new, moved.atNew] at named valued
      exact ⟨mp, named, valued⟩
    · rw [(moved.same isMain new).1] at named
      rw [(moved.same isMain new).2] at valued
      exact ⟨i, named, valued⟩
  · intro held
    obtain ⟨i, named, valued⟩ := held
    by_cases isMain : i = mp
    · rw [isMain] at named valued
      exact ⟨n, by rw [moved.atNew, named], by rw [moved.atNew, valued]⟩
    · have old : i ≠ n := by
        intro new
        rw [new, moved.free] at valued
        exact live valued.symm
      exact ⟨i, (moved.same isMain old).1.trans named, (moved.same isMain old).2.trans valued⟩

/-- A link leads from the new node or to it, or was there before. -/
theorem source {k : Nat} (linked : (node' i).next = some k) :
    (i = n ∧ (node mp).next = some k) ∨ (i = previous ∧ k = n) ∨ (i ≠ mp ∧ (node i).next = some k) := by
  by_cases isMain : i = mp
  · rw [isMain, moved.fromMain] at linked
    cases linked
  by_cases new : i = n
  · rw [new, moved.fromNew] at linked
    exact .inl ⟨new, linked⟩
  by_cases isPrevious : i = previous
  · rw [isPrevious, moved.toNew] at linked
    exact .inr (.inl ⟨isPrevious, (Option.some.inj linked).symm⟩)
  · rw [moved.nexts isMain new isPrevious] at linked
    exact .inr (.inr ⟨isMain, linked⟩)

variable (scattered : Scattered position size node)

include scattered

/-- A chain that does not begin at `mp` passes through `n` in its place. -/
theorem trail {start : Nat} {places : List Nat} (notMain : start ≠ mp) (old : start ≠ n)
    (trail : Trail (fun i => (node i).next) start places) :
    Trail (fun i => (node' i).next) start (places.map fun place => if place = mp then n else place) := by
  have fresh := scattered.not_mem_of_blank trail moved.blank old.symm
  apply trail.substitute fresh notMain moved.before
    (fun place linked => scattered.single place previous mp linked moved.before) moved.toNew moved.fromNew
  intro place member notPrevious notOld
  apply moved.nexts notOld _ notPrevious
  intro same
  rw [same] at member
  exact fresh member

theorem new_ends : ∃ places, Trail (fun i => (node' i).next) n places := by
  cases leads : (node mp).next with
  | none => exact ⟨[n], .last (moved.fromNew.trans leads)⟩
  | some behind =>
      have notMain : behind ≠ mp := by
        intro same
        rw [same] at leads
        exact scattered.not_self mp leads
      have notNew : behind ≠ n := by
        intro same
        rw [same] at leads
        exact scattered.unlinked moved.blank mp leads
      obtain ⟨places, trail⟩ := scattered.ends behind (scattered.linked_lt leads)
      exact ⟨_, .link (moved.fromNew.trans leads) (moved.trail scattered notMain notNew trail)⟩

theorem single {j k : Nat} (left : (node' i).next = some k) (right : (node' j).next = some k) : i = j := by
  have unlinked := scattered.unlinked moved.blank
  rcases moved.source left with ⟨iNew, fromMain⟩ | ⟨iPrevious, toFree⟩ | ⟨iOther, fromOther⟩ <;>
    rcases moved.source right with ⟨jNew, fromMain'⟩ | ⟨jPrevious, toFree'⟩ | ⟨jOther, fromOther'⟩
  · rw [iNew, jNew]
  · exact absurd (toFree' ▸ fromMain) (unlinked mp)
  · exact absurd (scattered.single mp j k fromMain fromOther').symm jOther
  · exact absurd (toFree ▸ fromMain') (unlinked mp)
  · rw [iPrevious, jPrevious]
  · exact absurd (toFree ▸ fromOther') (unlinked j)
  · exact absurd (scattered.single mp i k fromMain' fromOther).symm iOther
  · exact absurd (toFree' ▸ fromOther) (unlinked i)
  · exact scattered.single i j k fromOther fromOther'

theorem distinct (absent : ∀ i, (node i).key ≠ key) {j : Nat} (named : (node' i).key ≠ .nil)
    (alike : (node' i).key = (node' j).key) : i = j := by
  by_cases iMain : i = mp
  · by_cases jMain : j = mp
    · rw [iMain, jMain]
    · obtain ⟨place, same, -⟩ := moved.home_node jMain
      rw [iMain, moved.mainKey, same] at alike
      exact absurd alike.symm (absent place)
  · obtain ⟨place, same, from_i⟩ := moved.home_node iMain
    rw [same] at named alike
    by_cases jMain : j = mp
    · rw [jMain, moved.mainKey] at alike
      exact absurd alike (absent place)
    · obtain ⟨place', same', from_j⟩ := moved.home_node jMain
      rw [same'] at alike
      have met := scattered.distinct place place' named alike
      omega

variable (away : position (node mp).key ≠ mp)

include away

theorem reached (main : position key = mp) {places' : List Nat} (named : (node' i).key ≠ .nil)
    (trail' : Trail (fun i => (node' i).next) (position (node' i).key) places') : i ∈ places' := by
  by_cases isMain : i = mp
  · rw [isMain, moved.mainKey, main] at trail'
    rw [isMain]
    exact trail'.start_mem
  by_cases new : i = n
  · rw [new, moved.newKey] at trail'
    obtain ⟨places, trail, member⟩ := scattered.home_trail moved.occupied
    have start := scattered.position_ne moved.blank moved.occupied
    rw [new, trail'.deterministic (moved.trail scattered away start trail), List.mem_map]
    exact ⟨mp, member, if_pos rfl⟩
  · rw [(moved.same isMain new).1] at named trail'
    obtain ⟨places, trail, member⟩ := scattered.home_trail named
    have start := scattered.position_ne moved.blank named
    rw [trail'.deterministic (moved.trail scattered (scattered.unclaimed away named) start trail),
      List.mem_map]
    exact ⟨i, member, if_neg isMain⟩

theorem home (main : position key = mp) (named : (node' i).key ≠ .nil) :
    (node' (position (node' i).key)).key ≠ .nil ∧
      position (node' (position (node' i).key)).key = position (node' i).key := by
  by_cases isMain : i = mp
  · rw [isMain, moved.mainKey, main, moved.mainKey]
    exact ⟨moved.valid, main⟩
  by_cases new : i = n
  · rw [new, moved.newKey, (moved.same away (scattered.position_ne moved.blank moved.occupied)).1]
    exact scattered.home mp moved.occupied
  · rw [(moved.same isMain new).1] at named ⊢
    rw [(moved.same (scattered.unclaimed away named) (scattered.position_ne moved.blank named)).1]
    exact scattered.home i named

/-- A key whose main position is taken by a node out of its own is put there, and the other
node moves to a free one. -/
theorem scatters (bound : n < size) (main : position key = mp) (absent : ∀ i, (node i).key ≠ key) :
    Scattered position size node' := by
  refine { ends := ?ends, linked := ?linked, single := fun _ _ _ => moved.single scattered, blank := ?blank,
           inside := ?inside, distinct := fun _ _ => moved.distinct scattered absent,
           reached := fun _ _ => moved.reached scattered away main,
           home := fun _ => moved.home scattered away main }
  case ends =>
    intro i inside
    by_cases isMain : i = mp
    · rw [isMain]
      exact ⟨[mp], .last moved.fromMain⟩
    by_cases new : i = n
    · rw [new]
      exact moved.new_ends scattered
    · obtain ⟨places, trail⟩ := scattered.ends i inside
      exact ⟨_, moved.trail scattered isMain new trail⟩
  case linked =>
    intro i j linked
    rcases moved.source linked with ⟨-, fromMain⟩ | ⟨-, toFree⟩ | ⟨-, fromOther⟩
    · exact moved.keyed (scattered.linked mp j fromMain)
    · rw [toFree, moved.newKey]
      exact moved.occupied
    · exact moved.keyed (scattered.linked i j fromOther)
  case blank =>
    intro i blank
    have notMain : i ≠ mp := by
      intro same
      rw [same, moved.mainKey] at blank
      exact moved.valid blank
    have old : i ≠ n := by
      intro same
      rw [same, moved.newKey] at blank
      exact moved.occupied blank
    rw [(moved.same notMain old).1] at blank
    have empty := scattered.blank i blank
    have notPrevious : i ≠ previous := by
      intro same
      have before := moved.before
      rw [← same, empty] at before
      cases before
    rwa [moved.others i notMain old notPrevious]
  case inside =>
    intro i named
    by_cases isMain : i = mp
    · rw [isMain]
      exact scattered.inside mp moved.occupied
    by_cases new : i = n
    · rw [new]
      exact bound
    · rw [(moved.same isMain new).1] at named
      exact scattered.inside i named

end Moved

end Scattered

end GameServer.Lua
