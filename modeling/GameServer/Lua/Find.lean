import GameServer.Lua.Value
import Mathlib.Data.List.Infix

namespace GameServer.Lua

/-! `string.find` of `lstrlib.c`, called with a string and what to look for. -/

/-- Where `memchr` finds a byte among the first `n`. -/
def memchr (s : Bytes) (c : UInt8) (n : Nat) : Option Nat :=
  (s.take n).findIdx? (· == c)

/-- The loop of `lmemfind`, with the string from `s1` on, which lies `offset` bytes after
the start; `first` and `rest` are what is looked for. -/
def lmemfindFrom (first : UInt8) (rest : Bytes) (s1 : Bytes) (l1 offset : Nat) : Option Nat :=
  if _ : 0 < l1 then
    match memchr s1 first l1 with
    | none => none
    | some found =>
        let init := s1.drop (found + 1)
        if init.take rest.length = rest then some (offset + found)
        else lmemfindFrom first rest init (l1 - (found + 1)) (offset + found + 1)
  else none
termination_by l1

/-- `lmemfind`, which returns where `s2` begins in `s1`. -/
def lmemfind (s1 s2 : Bytes) : Option Nat :=
  match s2 with
  | [] => some 0
  | first :: rest =>
      if s2.length > s1.length then none
      else lmemfindFrom first rest s1 (s1.length - rest.length) 0

def specials : Bytes := lit "^$*+?.([%-"

/-- `str_find` with two arguments; `match` is what it returns for a pattern. -/
def strFind (matchPattern : Bytes → Bytes → List Value) (s p : Bytes) : List Value :=
  if (cstr p).all (· ∉ specials) then
    match lmemfind s p with
    | some found => [.number (.finite (found + 1)), .number (.finite (found + p.length))]
    | none => [.nil]
  else matchPattern s p

theorem memchr_eq_none {s : Bytes} {c : UInt8} {n : Nat} (absent : memchr s c n = none) {k : Nat}
    (inside : k < n) : s[k]? ≠ some c := by
  intro here
  have member : c ∈ s.take n := List.mem_of_getElem? ((List.getElem?_take_of_lt inside).trans here)
  have other := List.findIdx?_eq_none_iff.mp absent c member
  simp at other

theorem memchr_eq_some {s : Bytes} {c : UInt8} {n found : Nat} (present : memchr s c n = some found) :
    found < n ∧ s[found]? = some c ∧ ∀ k < found, s[k]? ≠ some c := by
  obtain ⟨inside, here, earlier⟩ := List.findIdx?_eq_some_iff_getElem.mp present
  have bound : found < n := Nat.lt_of_lt_of_le inside (List.length_take_le ..)
  refine ⟨bound, ?_, ?_⟩
  · rw [← List.getElem?_take_of_lt bound, List.getElem?_eq_getElem inside, eq_of_beq here]
  · intro k before same
    have different := earlier k before
    rw [← List.getElem?_take_of_lt (Nat.lt_trans before bound),
      List.getElem?_eq_getElem (Nat.lt_trans before inside)] at same
    simp [Option.some.inj same] at different

theorem cons_prefix_drop_iff {first : UInt8} {rest s : Bytes} {k : Nat} :
    (first :: rest) <+: s.drop k ↔
      s[k]? = some first ∧ (s.drop (k + 1)).take rest.length = rest := by
  rw [← List.head?_drop, ← List.tail_drop]
  cases s.drop k with
  | nil => simp
  | cons byte after =>
      rw [List.cons_prefix_cons, List.prefix_iff_eq_take, List.head?_cons, List.tail_cons,
        Option.some.injEq]
      exact and_congr eq_comm eq_comm

/-- Where the first byte is found and the others do not follow, the loop misses nothing by
going on behind it. -/
theorem occurs_later {first : UInt8} {rest s1 : Bytes} {found k : Nat}
    (before : ∀ k < found, s1[k]? ≠ some first)
    (different : (s1.drop (found + 1)).take rest.length ≠ rest)
    (occurs : (first :: rest) <+: s1.drop k) :
    ∃ j, k = found + 1 + j ∧ (first :: rest) <+: (s1.drop (found + 1)).drop j := by
  obtain ⟨start, follows⟩ := cons_prefix_drop_iff.mp occurs
  have notAhead : ¬ k < found := fun ahead => before k ahead start
  have notHere : k ≠ found := by
    intro same
    subst same
    exact different follows
  have behind : k = found + 1 + (k - (found + 1)) := by omega
  refine ⟨k - (found + 1), behind, ?_⟩
  rwa [List.drop_drop, ← behind]

/-- The loop finds the first of the `l1` places it may look at. -/
theorem lmemfindFrom_eq_some {first : UInt8} {rest s1 : Bytes} {l1 offset place : Nat}
    (present : lmemfindFrom first rest s1 l1 offset = some place) :
    ∃ k < l1, place = offset + k ∧ (first :: rest) <+: s1.drop k ∧
      ∀ earlier < k, ¬ (first :: rest) <+: s1.drop earlier := by
  fun_induction lmemfindFrom with
  | case1 s1 l1 offset positive absent => cases present
  | case2 s1 l1 offset positive found here init matched =>
      obtain ⟨inside, start, before⟩ := memchr_eq_some here
      refine ⟨found, inside, (Option.some.inj present).symm, cons_prefix_drop_iff.mpr ⟨start, matched⟩, ?_⟩
      intro earlier sooner occurs
      exact before earlier sooner (cons_prefix_drop_iff.mp occurs).1
  | case3 s1 l1 offset positive found here init different ih =>
      obtain ⟨inside, -, before⟩ := memchr_eq_some here
      obtain ⟨k, within, rfl, occurs, first⟩ := ih present
      refine ⟨found + 1 + k, by omega, by omega, ?_, ?_⟩
      · rwa [List.drop_drop] at occurs
      · intro earlier sooner repeated
        obtain ⟨j, rfl, again⟩ := occurs_later before different repeated
        exact first j (by omega) again
  | case4 s1 l1 offset empty => cases present

theorem lmemfindFrom_eq_none {first : UInt8} {rest s1 : Bytes} {l1 offset : Nat}
    (absent : lmemfindFrom first rest s1 l1 offset = none) {k : Nat} (inside : k < l1) :
    ¬ (first :: rest) <+: s1.drop k := by
  fun_induction lmemfindFrom generalizing k with
  | case1 s1 l1 offset positive missing =>
      intro occurs
      exact memchr_eq_none missing inside (cons_prefix_drop_iff.mp occurs).1
  | case2 s1 l1 offset positive found here init matched => cases absent
  | case3 s1 l1 offset positive found here init different ih =>
      obtain ⟨-, -, before⟩ := memchr_eq_some here
      intro occurs
      obtain ⟨j, rfl, again⟩ := occurs_later before different occurs
      exact ih absent (by omega : j < l1 - (found + 1)) again
  | case4 s1 l1 offset empty => omega

theorem lmemfind_eq_some {s1 s2 : Bytes} {place : Nat} (present : lmemfind s1 s2 = some place) :
    s2 <+: s1.drop place ∧ ∀ earlier < place, ¬ s2 <+: s1.drop earlier := by
  cases s2 with
  | nil =>
      cases present
      exact ⟨List.nil_prefix, fun earlier sooner => absurd sooner (Nat.not_lt_zero earlier)⟩
  | cons first rest =>
      simp only [lmemfind] at present
      split at present
      case isTrue => cases present
      case isFalse =>
        obtain ⟨k, -, rfl, occurs, before⟩ := lmemfindFrom_eq_some present
        rw [Nat.zero_add]
        exact ⟨occurs, before⟩

theorem lmemfind_eq_none {s1 s2 : Bytes} (absent : lmemfind s1 s2 = none) (k : Nat) :
    ¬ s2 <+: s1.drop k := by
  cases s2 with
  | nil => cases absent
  | cons first rest =>
      intro occurs
      have room := occurs.length_le
      rw [List.length_cons, List.length_drop] at room
      have long : ¬ (first :: rest).length > s1.length := by
        rw [List.length_cons]
        omega
      have looked : lmemfindFrom first rest s1 (s1.length - rest.length) 0 = none := by
        simpa only [lmemfind, if_neg long] using absent
      exact lmemfindFrom_eq_none looked (by omega : k < s1.length - rest.length) occurs

theorem lmemfind_isSome_iff {s1 s2 : Bytes} : (lmemfind s1 s2).isSome ↔ s2 <:+: s1 := by
  rw [List.infix_iff_prefix_suffix]
  constructor
  · intro present
    obtain ⟨place, present⟩ := Option.isSome_iff_exists.mp present
    exact ⟨s1.drop place, (lmemfind_eq_some present).1, List.drop_suffix place s1⟩
  · intro occurs
    obtain ⟨after, occurs, suffix⟩ := occurs
    cases result : lmemfind s1 s2 with
    | some place => rfl
    | none =>
        rw [List.suffix_iff_eq_drop.mp suffix] at occurs
        exact absurd occurs (lmemfind_eq_none result _)

/-- What is looked for has no special character: the string is found exactly when it
occurs. -/
theorem strFind_truthy_iff (matchPattern : Bytes → Bytes → List Value) {s p : Bytes}
    (plain : (cstr p).all (· ∉ specials) = true) :
    ((strFind matchPattern s p).headD .nil).truthy = true ↔ p <:+: s := by
  rw [strFind, if_pos plain, ← lmemfind_isSome_iff]
  cases lmemfind s p <;> simp [Value.truthy]

end GameServer.Lua
