import GameServer.CString

namespace GameServer

/-! The part of `printf` the engine relies on: ordinary bytes, `%%`, `%s` and `%d`. -/

namespace Printf

inductive Arg where
  | str (pointer : CharPtr)
  | int (value : Int)
deriving DecidableEq

/-- Formats the bytes of a format string.  `none` is what the C standard leaves
undefined: a conversion without its argument, or one that is not a conversion. -/
def format : Bytes → List Arg → Option Bytes
  | [], _ => some []
  | 37 :: 37 :: rest, args => (format rest args).map (37 :: ·)
  | 37 :: 115 :: rest, .str (some text) :: args => (format rest args).map (cstr text ++ ·)
  | 37 :: 100 :: rest, .int value :: args => (format rest args).map (lit (toString value) ++ ·)
  | byte :: rest, args => if byte = 37 then none else (format rest args).map (byte :: ·)

theorem format_plain {text : Bytes} (plain : 37 ∉ text) (args : List Arg) :
    format text args = some text := by
  induction text with
  | nil => rfl
  | cons byte rest ih =>
      have ordinary : byte ≠ 37 := fun same => plain (by simp [same])
      have restPlain : 37 ∉ rest := fun member => plain (List.mem_cons_of_mem _ member)
      unfold format
      split <;> simp_all

/-- Without arguments every `%` costs at least one byte: `%%` is the only
conversion left, and it prints a single one. -/
theorem format_length {text printed : Bytes} (formatted : format text [] = some printed) :
    printed.length ≤ text.length ∧ (37 ∈ text → printed.length < text.length) := by
  generalize noArgs : ([] : List Arg) = args at formatted
  fun_induction format text args generalizing printed with
  | case1 => simp_all
  | case2 rest args ih =>
      obtain ⟨tail, tailFormatted, rfl⟩ := Option.map_eq_some_iff.mp formatted
      have shorter := (ih noArgs tailFormatted).1
      simp only [List.length_cons]
      omega
  | case3 => contradiction
  | case4 => contradiction
  | case5 => contradiction
  | case6 byte rest args _ _ _ ordinary ih =>
      obtain ⟨tail, tailFormatted, rfl⟩ := Option.map_eq_some_iff.mp formatted
      obtain ⟨bounded, shorter⟩ := ih noArgs tailFormatted
      refine ⟨by simpa using bounded, fun member => ?_⟩
      have inRest : 37 ∈ rest := (List.mem_cons.mp member).resolve_left fun same => ordinary same.symm
      simpa using shorter inRest

theorem format_nil_eq_self_iff {text : Bytes} : format text [] = some text ↔ 37 ∉ text := by
  constructor
  · intro formatted member
    exact Nat.lt_irrefl _ ((format_length formatted).2 member)
  · exact fun plain => format_plain plain []

/-- A string that arrives as a C string and is used as the format is printed as it is
only when neither of the two touches it. -/
theorem format_cstr_eq_self_iff {text : Bytes} :
    format (cstr text) [] = some text ↔ 37 ∉ text ∧ 0 ∉ text := by
  constructor
  · intro formatted
    have whole : cstr text = text := by
      apply (List.takeWhile_prefix _).eq_of_length
      exact Nat.le_antisymm (cstr_length_le text) (format_length formatted).1
    rw [whole] at formatted
    exact ⟨format_nil_eq_self_iff.mp formatted, cstr_eq_self_iff.mp whole⟩
  · intro free
    obtain ⟨plain, free⟩ := free
    rw [cstr_of_not_mem free]
    exact format_plain plain []

end Printf

end GameServer
