import GameServer.Lua.Find
import GameServer.Server

namespace GameServer

open Lua

/-! `script/init.lua`: which handler a request path selects. -/

/-- The functions of the script that `fun_table` holds. -/
inductive Handler where
  | handlerNihao
  | dumpBase
  | showArgs
deriving DecidableEq

/-- The entries of `fun_table`; `pairs` goes through them in any order. -/
def funTable : List (Bytes × Handler) :=
  [(lit "/nihao", .handlerNihao), (lit "/dump", .dumpBase), (lit "/show", .showArgs)]

variable (matchPattern : Bytes → Bytes → List Value)

/-- `path:find(k)` as a condition. -/
def finds (path key : Bytes) : Bool :=
  ((strFind matchPattern path key).headD .nil).truthy

/-- The loop of `http_request_handler`: the first entry whose key is found in the path. -/
def selectHandler (path : Bytes) : List (Bytes × Handler) → Option Handler
  | [] => none
  | (key, handler) :: rest => if finds matchPattern path key then some handler else selectHandler path rest

section Handling

variable (rt : Runtime Server) (closure : Handler → Value)

/-- The end of `http_request_handler`: it returns what the selected handler returns. -/
def dispatched (args : Value) (world : World Server) : Option Handler → CallResult Server
  | some handler => rt.call (closure handler) [args] world
  | none => .returns [.boolean true, .string (lit "buduiba")] world

/-- `http_request_handler`, with `fun_table` traversed in the given order.  The lines before
the loop, `prologue`, leave the path, or end the function by an error. -/
def httpRequestHandler (prologue : Value → World Server → Except (CallResult Server) (Bytes × World Server))
    (order : List (Bytes × Handler)) (args : Value) (world : World Server) : CallResult Server :=
  match prologue args world with
  | .ok (path, world) => dispatched rt closure args world (selectHandler matchPattern path order)
  | .error stopped => stopped

end Handling

/-- Whatever the order of the traversal, the same handler is selected for the path and its
results are returned. -/
def OrderIndependent (path : Bytes) : Prop :=
  ∀ order other : List (Bytes × Handler), order.Perm funTable → other.Perm funTable →
    selectHandler matchPattern path order = selectHandler matchPattern path other ∧
    ∀ rt closure prologue args world reached, prologue args world = .ok (path, reached) →
      httpRequestHandler matchPattern rt closure prologue order args world =
        dispatched rt closure args reached (selectHandler matchPattern path other)

/-- No two keys occur in the path. -/
def Unambiguous (path : Bytes) : Prop :=
  ∀ entry ∈ funTable, ∀ other ∈ funTable, entry.1 <:+: path → other.1 <:+: path → entry = other

theorem funTable_injective {entry other : Bytes × Handler} (member : entry ∈ funTable)
    (otherMember : other ∈ funTable) (same : entry.2 = other.2) : entry = other := by
  have apart : ∀ entry ∈ funTable, ∀ other ∈ funTable, entry.2 = other.2 → entry = other := by decide
  exact apart entry member other otherMember same

theorem finds_iff {path : Bytes} {entry : Bytes × Handler} (member : entry ∈ funTable) :
    finds matchPattern path entry.1 = true ↔ entry.1 <:+: path := by
  apply strFind_truthy_iff
  revert entry
  decide

/-! ## Selection -/

variable {path : Bytes} {order : List (Bytes × Handler)}

theorem selectHandler_eq_some {handler : Handler}
    (selected : selectHandler matchPattern path order = some handler) :
    ∃ entry ∈ order, finds matchPattern path entry.1 = true ∧ entry.2 = handler := by
  induction order with
  | nil => cases selected
  | cons entry rest induction =>
      simp only [selectHandler] at selected
      split at selected
      case isTrue found =>
        exact ⟨entry, List.mem_cons_self, found, Option.some.inj selected⟩
      case isFalse =>
        obtain ⟨later, member, found, same⟩ := induction selected
        exact ⟨later, List.mem_cons_of_mem _ member, found, same⟩

theorem selectHandler_eq_none (selected : selectHandler matchPattern path order = none)
    {entry : Bytes × Handler} (member : entry ∈ order) : finds matchPattern path entry.1 = false := by
  induction order with
  | nil => cases member
  | cons first rest induction =>
      simp only [selectHandler] at selected
      split at selected
      case isTrue => cases selected
      case isFalse missing =>
        rcases List.mem_cons.mp member with rfl | later
        · exact Bool.eq_false_iff.mpr missing
        · exact induction selected later

theorem selectHandler_front {entry : Bytes × Handler} (member : entry ∈ funTable)
    (occurs : entry.1 <:+: path) :
    selectHandler matchPattern path (entry :: funTable.erase entry) = some entry.2 :=
  if_pos ((finds_iff matchPattern member).mpr occurs)

theorem selectHandler_of_unambiguous (unambiguous : Unambiguous path)
    {other : List (Bytes × Handler)} (permuted : order.Perm funTable)
    (otherPermuted : other.Perm funTable) :
    selectHandler matchPattern path order = selectHandler matchPattern path other := by
  cases selected : selectHandler matchPattern path order with
  | none =>
      cases otherSelected : selectHandler matchPattern path other with
      | none => rfl
      | some handler =>
          obtain ⟨entry, member, found, -⟩ := selectHandler_eq_some matchPattern otherSelected
          have inOrder : entry ∈ order := permuted.mem_iff.mpr (otherPermuted.mem_iff.mp member)
          rw [selectHandler_eq_none matchPattern selected inOrder] at found
          cases found
  | some handler =>
      obtain ⟨entry, member, found, rfl⟩ := selectHandler_eq_some matchPattern selected
      have inTable := permuted.mem_iff.mp member
      cases otherSelected : selectHandler matchPattern path other with
      | none =>
          have inOther : entry ∈ other := otherPermuted.mem_iff.mpr inTable
          rw [selectHandler_eq_none matchPattern otherSelected inOther] at found
          cases found
      | some otherHandler =>
          obtain ⟨second, secondMember, secondFound, rfl⟩ :=
            selectHandler_eq_some matchPattern otherSelected
          have secondInTable := otherPermuted.mem_iff.mp secondMember
          rw [unambiguous entry inTable second secondInTable
            ((finds_iff matchPattern inTable).mp found)
            ((finds_iff matchPattern secondInTable).mp secondFound)]

/-- Two keys that occur are each selected by some order. -/
theorem unambiguous_of_orderIndependent (independent : OrderIndependent matchPattern path) :
    Unambiguous path := by
  intro entry member other otherMember occurs otherOccurs
  have same := (independent (entry :: funTable.erase entry) (other :: funTable.erase other)
    (List.perm_cons_erase member).symm (List.perm_cons_erase otherMember).symm).1
  rw [selectHandler_front matchPattern member occurs,
    selectHandler_front matchPattern otherMember otherOccurs] at same
  exact funTable_injective member otherMember (Option.some.inj same)

/-- The order of `fun_table` does not matter exactly for the paths in which at most one of
its keys occurs. -/
theorem orderIndependent_iff (path : Bytes) : OrderIndependent matchPattern path ↔ Unambiguous path := by
  refine ⟨unambiguous_of_orderIndependent matchPattern, ?_⟩
  intro unambiguous order other permuted otherPermuted
  have same := selectHandler_of_unambiguous matchPattern unambiguous permuted otherPermuted
  refine ⟨same, ?_⟩
  intro rt closure prologue args world reached left
  simp only [httpRequestHandler, left, same]

/-- `/nihao/dump` holds two of the keys. -/
theorem orderIndependent_counterexample :
    ¬ OrderIndependent (fun _ _ => [.nil]) (lit "/nihao/dump") := by
  intro independent
  have same := unambiguous_of_orderIndependent _ independent (lit "/nihao", .handlerNihao) (by decide)
    (lit "/dump", .dumpBase) (by decide) (by decide) (by decide)
  exact absurd same (by decide)

end GameServer
