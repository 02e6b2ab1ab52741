import Mathlib.Data.List.TakeWhile

namespace GameServer

abbrev Bytes := List UInt8

/-- The bytes of a string literal of the C source. -/
def lit (text : String) : Bytes :=
  text.toList.map fun character => UInt8.ofNat character.toNat

/-- What the C library reads through a `char*`: the bytes before the first NUL. -/
def cstr (bytes : Bytes) : Bytes :=
  bytes.takeWhile (· != 0)

/-- A `const char*`: NULL, or the bytes it points at up to the terminator its
owner wrote.  A string with a length of its own may hold NULs before that one. -/
abbrev CharPtr := Option Bytes

theorem zero_not_mem_cstr (bytes : Bytes) : 0 ∉ cstr bytes := by
  intro member
  have nonzero := List.mem_takeWhile_imp member
  simp at nonzero

theorem cstr_of_not_mem {bytes : Bytes} (free : 0 ∉ bytes) : cstr bytes = bytes := by
  apply List.takeWhile_eq_self_iff.mpr
  intro byte member
  simp only [bne_iff_ne, ne_eq]
  intro same
  subst same
  exact free member

@[simp] theorem cstr_cstr (bytes : Bytes) : cstr (cstr bytes) = cstr bytes :=
  cstr_of_not_mem (zero_not_mem_cstr bytes)

theorem cstr_eq_self_iff {bytes : Bytes} : cstr bytes = bytes ↔ 0 ∉ bytes :=
  ⟨fun same => same ▸ zero_not_mem_cstr bytes, cstr_of_not_mem⟩

theorem cstr_append_of_not_mem {front : Bytes} (back : Bytes) (free : 0 ∉ front) :
    cstr (front ++ back) = front ++ cstr back := by
  apply List.takeWhile_append_of_pos
  intro byte member
  simp only [bne_iff_ne, ne_eq]
  intro same
  subst same
  exact free member

@[simp] theorem cstr_zero_cons (rest : Bytes) : cstr (0 :: rest) = [] := rfl

theorem cstr_length_le (bytes : Bytes) : (cstr bytes).length ≤ bytes.length :=
  (List.takeWhile_prefix _).length_le

end GameServer
