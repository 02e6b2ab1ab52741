import GameServer.Lua.Stack

namespace GameServer.Lua

open LuaM

/-! The arguments of a C function, which it addresses from the bottom of its frame. -/

variable (platform : Platform)

/-- The string an argument of a C function converts to, NULL where it does not or is
missing. -/
def argumentText (arguments : List Value) (position : Nat) : CharPtr :=
  arguments[position]?.bind (Value.toLuaString platform)

/-- The number an argument reads as, zero where it does not. -/
def argumentNumber (arguments : List Value) (position : Nat) : LuaNumber :=
  (arguments[position]?.bind (Value.toNumber platform)).getD (.finite 0)

/-- The arguments once `lua_tolstring` was called for one of them. -/
def convertArgument (arguments : List Value) (position : Nat) : List Value :=
  arguments.modify position (Value.converted platform)

theorem lt_length_of_argumentText {arguments : List Value} {position : Nat} {text : Bytes}
    (given : argumentText platform arguments position = some text) : position < arguments.length := by
  obtain ⟨value, found, -⟩ := Option.bind_eq_some_iff.mp given
  obtain ⟨inside, -⟩ := List.getElem?_eq_some_iff.mp found
  exact inside

@[simp] theorem length_convertArgument (arguments : List Value) (position : Nat) :
    (convertArgument platform arguments position).length = arguments.length := by
  simp [convertArgument]

@[simp] theorem argumentText_convertArgument (arguments : List Value) (position other : Nat) :
    argumentText platform (convertArgument platform arguments position) other =
      argumentText platform arguments other := by
  unfold argumentText convertArgument
  rw [List.getElem?_modify]
  cases arguments[other]? with
  | none => rfl
  | some value => by_cases here : position = other <;> simp [here]

theorem getElem?_convertArgument (arguments : List Value) {position other : Nat}
    (apart : position ≠ other) :
    (convertArgument platform arguments position)[other]? = arguments[other]? := by
  unfold convertArgument
  rw [List.getElem?_modify]
  cases arguments[other]? <;> simp [apart]

theorem argumentNumber_convertArgument (arguments : List Value) {position other : Nat}
    (apart : position ≠ other) :
    argumentNumber platform (convertArgument platform arguments position) other =
      argumentNumber platform arguments other := by
  unfold argumentNumber
  rw [getElem?_convertArgument platform arguments apart]

section Apply

variable {H : Type} (arguments : List Value) {idx : Int} (position : Nat)
  (named : idx = position + 1) (passed : List (Sink × CharPtr)) (world : World H)

include named

theorem index2adr_argument_above (beyond : arguments.length ≤ position) :
    index2adr arguments.reverse idx = .above := by
  subst named
  have positive : (0 : Int) < position + 1 := by omega
  have outside : ¬ (position : Int) + 1 ≤ arguments.length := by omega
  simp only [index2adr, List.length_reverse, if_pos positive, if_neg outside]

theorem valueAt_argument :
    valueAt idx ⟨arguments.reverse, passed, world⟩ =
      .ok arguments[position]? ⟨arguments.reverse, passed, world⟩ := by
  by_cases inside : position < arguments.length
  · subst named
    have positive : (0 : Int) < position + 1 := by omega
    have within : (position : Int) + 1 ≤ arguments.length := by omega
    have bottom : ((position : Int) + 1).toNat = position + 1 := by omega
    have address : index2adr arguments.reverse (position + 1) =
        .slot (arguments.length - (position + 1)) := by
      simp only [index2adr, List.length_reverse, if_pos positive, if_pos within, bottom]
    have mirrored : arguments.length - 1 - (arguments.length - (position + 1)) = position := by omega
    simp only [valueAt, bind_apply, getStack_apply, Outcome.ok_bind, address, pure_apply]
    rw [List.getElem?_reverse (by omega), mirrored]
  · have address := index2adr_argument_above arguments position named (by omega)
    have missing : arguments[position]? = none := List.getElem?_eq_none (by omega)
    simp [valueAt, address, missing]

theorem luaTonumber_argument :
    luaTonumber platform idx ⟨arguments.reverse, passed, world⟩ =
      .ok (argumentNumber platform arguments position) ⟨arguments.reverse, passed, world⟩ := by
  simp [luaTonumber, valueAt_argument arguments position named, argumentNumber]

theorem luaToboolean_argument :
    luaToboolean idx ⟨arguments.reverse, passed, world⟩ =
      .ok ((arguments[position]?.map Value.truthy).getD false)
        ⟨arguments.reverse, passed, world⟩ := by
  simp [luaToboolean, valueAt_argument arguments position named]

theorem luaTolstring_argument :
    luaTolstring platform idx ⟨arguments.reverse, passed, world⟩ =
      .ok (argumentText platform arguments position)
        ⟨(convertArgument platform arguments position).reverse, passed, world⟩ := by
  by_cases inside : position < arguments.length
  · obtain ⟨front, value, back, rfl, rfl⟩ :
        ∃ front value back, arguments = front ++ value :: back ∧ front.length = position :=
      ⟨arguments.take position, arguments[position], arguments.drop (position + 1),
        by simp, by simp; omega⟩
    subst named
    have address := index2adr_above back.reverse value front.reverse
    rw [List.length_reverse] at address
    have found := luaTolstring_slot platform back.reverse front.reverse passed world address
    have converted : convertArgument platform (front ++ value :: back) front.length =
        front ++ value.converted platform :: back := by
      simp [convertArgument, List.modify_eq_take_drop]
    rw [converted]
    simpa [argumentText] using found
  · have address := index2adr_argument_above arguments position named (by omega)
    have missing : arguments[position]? = none := List.getElem?_eq_none (by omega)
    have unchanged : convertArgument platform arguments position = arguments :=
      List.modify_eq_self (by omega)
    simp [luaTolstring, address, argumentText, missing, unchanged]

end Apply

end GameServer.Lua
