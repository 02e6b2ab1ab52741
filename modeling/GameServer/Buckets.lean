import Mathlib.Data.List.Flatten
import Mathlib.Data.List.Nodup

namespace GameServer.Buckets

/-! Hash tables with a list for each place: every element is kept in the list of its place. -/

variable {α β : Type} {place : α → Nat} {buckets : List (List α)} {x : α} {i : Nat}

def Placed (place : α → Nat) (buckets : List (List α)) : Prop :=
  ∀ i, ∀ x ∈ buckets.getD i [], place x = i

def insert (place : α → Nat) (buckets : List (List α)) (x : α) : List (List α) :=
  buckets.modify (place x) (x :: ·)

/-- All elements moved, in their order, to the front of their places in `size` new lists. -/
def rehash (place : α → Nat) (size : Nat) (buckets : List (List α)) : List (List α) :=
  buckets.flatten.foldl (insert place) (List.replicate size [])

theorem mem_flatten_of_mem_getD (member : x ∈ buckets.getD i []) : x ∈ buckets.flatten := by
  rw [List.getD_eq_getElem?_getD] at member
  cases found : buckets[i]? with
  | none => simp [found] at member
  | some bucket =>
      rw [found] at member
      exact List.mem_flatten.mpr ⟨bucket, List.mem_of_getElem? found, member⟩

theorem exists_mem_getD (member : x ∈ buckets.flatten) : ∃ i, x ∈ buckets.getD i [] := by
  obtain ⟨bucket, here, inside⟩ := List.mem_flatten.mp member
  obtain ⟨i, found⟩ := List.getElem?_of_mem here
  refine ⟨i, ?_⟩
  rwa [List.getD_eq_getElem?_getD, found]

theorem Placed.mem_getD (placed : Placed place buckets) (member : x ∈ buckets.flatten) :
    x ∈ buckets.getD (place x) [] := by
  obtain ⟨i, inside⟩ := exists_mem_getD member
  rwa [placed i x inside]

theorem getD_modify {change : List α → List α} (empty : change [] = []) (i j : Nat) :
    (buckets.modify i change).getD j [] =
      if i = j then change (buckets.getD j []) else buckets.getD j [] := by
  rw [List.getD_eq_getElem?_getD, List.getElem?_modify, List.getD_eq_getElem?_getD]
  cases buckets[j]? <;> split_ifs <;> simp [empty]

theorem mem_getD_insert {y : α} (member : y ∈ (insert place buckets x).getD i []) :
    y = x ∧ place x = i ∨ y ∈ buckets.getD i [] := by
  rw [insert, List.getD_eq_getElem?_getD, List.getElem?_modify] at member
  rw [List.getD_eq_getElem?_getD]
  cases found : buckets[i]? with
  | none => simp [found] at member
  | some bucket =>
      rw [found] at member
      by_cases here : place x = i
      · simpa [here] using member
      · exact .inr (by simpa [here] using member)

theorem Placed.insert (placed : Placed place buckets) (x : α) :
    Placed place (insert place buckets x) := by
  intro i y member
  rcases mem_getD_insert member with ⟨rfl, here⟩ | old
  · exact here
  · exact placed i y old

theorem length_insert : (insert place buckets x).length = buckets.length :=
  List.length_modify ..

theorem flatten_modify_cons (inside : i < buckets.length) :
    (buckets.modify i (x :: ·)).flatten.Perm (x :: buckets.flatten) := by
  induction buckets generalizing i with
  | nil => simp at inside
  | cons bucket rest ih =>
      cases i with
      | zero => simp
      | succ i =>
          have onward := ih (i := i) (by simpa using inside)
          rw [List.modify_succ_cons, List.flatten_cons, List.flatten_cons]
          exact (onward.append_left bucket).trans List.perm_middle

theorem flatten_insert (inside : place x < buckets.length) :
    (insert place buckets x).flatten.Perm (x :: buckets.flatten) :=
  flatten_modify_cons inside

private theorem foldl_insert {moved : List α} (inside : ∀ x ∈ moved, place x < buckets.length)
    (placed : Placed place buckets) :
    Placed place (moved.foldl (insert place) buckets) ∧
      (moved.foldl (insert place) buckets).length = buckets.length ∧
      (moved.foldl (insert place) buckets).flatten.Perm (moved ++ buckets.flatten) := by
  induction moved generalizing buckets with
  | nil => exact ⟨placed, rfl, List.Perm.refl _⟩
  | cons first moved ih =>
      have here := inside first List.mem_cons_self
      obtain ⟨placed', length', perm'⟩ := @ih (insert place buckets first)
        (fun x member => by
          rw [length_insert]
          exact inside x (List.mem_cons_of_mem _ member))
        (placed.insert first)
      refine ⟨placed', length'.trans length_insert, perm'.trans ?_⟩
      exact ((flatten_insert here).append_left moved).trans List.perm_middle

section Rehash

variable {size : Nat} (inside : ∀ x, place x < size)

include inside

private theorem rehash_all (buckets : List (List α)) :
    Placed place (rehash place size buckets) ∧ (rehash place size buckets).length = size ∧
      (rehash place size buckets).flatten.Perm buckets.flatten := by
  have empty : Placed place (List.replicate size ([] : List α)) := by
    intro i x member
    rw [List.getD_eq_getElem?_getD, List.getElem?_replicate] at member
    split_ifs at member <;> simp at member
  obtain ⟨placed, length, perm⟩ := @foldl_insert α place (List.replicate size []) buckets.flatten
    (fun x _ => by simpa using inside x) empty
  refine ⟨placed, length.trans List.length_replicate, ?_⟩
  simpa [rehash] using perm

theorem rehash_placed (buckets : List (List α)) : Placed place (rehash place size buckets) :=
  (rehash_all inside buckets).1

theorem length_rehash (buckets : List (List α)) : (rehash place size buckets).length = size :=
  (rehash_all inside buckets).2.1

theorem flatten_rehash (buckets : List (List α)) :
    (rehash place size buckets).flatten.Perm buckets.flatten :=
  (rehash_all inside buckets).2.2

end Rehash

/-- A change of one list that takes elements out, up to what `key` reads of them. -/
theorem flatten_modify_sublist {key : α → β} {change : List α → List α}
    (less : ∀ bucket, ((change bucket).map key).Sublist (bucket.map key)) (i : Nat) :
    ((buckets.modify i change).flatten.map key).Sublist (buckets.flatten.map key) := by
  induction buckets generalizing i with
  | nil => simp
  | cons bucket rest ih =>
      cases i with
      | zero =>
          rw [List.modify_zero_cons, List.flatten_cons, List.flatten_cons, List.map_append, List.map_append]
          exact (less bucket).append (List.Sublist.refl _)
      | succ i =>
          rw [List.modify_succ_cons, List.flatten_cons, List.flatten_cons, List.map_append, List.map_append]
          exact (List.Sublist.refl _).append (ih i)

theorem length_flatten_modify {change : List α → List α} (empty : change [] = []) (i : Nat) :
    (buckets.modify i change).flatten.length + (buckets.getD i []).length =
      buckets.flatten.length + (change (buckets.getD i [])).length := by
  induction buckets generalizing i with
  | nil => simp [empty]
  | cons bucket rest ih =>
      cases i with
      | zero =>
          simp only [List.modify_zero_cons, List.flatten_cons, List.length_append, List.getD_cons_zero]
          omega
      | succ i =>
          have onward := ih i
          simp only [List.modify_succ_cons, List.flatten_cons, List.length_append, List.getD_cons_succ]
          omega

end GameServer.Buckets
