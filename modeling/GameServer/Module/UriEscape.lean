import GameServer.Module.HttpUtil
import Mathlib.Data.Fin.Basic

namespace GameServer

open Lua LuaM

/-! `encode_uri` and `decode_uri` as a code for byte strings. -/

/-! ## The code -/

theorem hexValue_hexDigit {n : UInt8} (small : n < 16) : hexValue (hexDigit n) = some n := by
  have all : ∀ digit : Fin 16,
      hexValue (hexDigit (UInt8.ofNat digit)) = some (UInt8.ofNat digit) := by decide
  have bound : n.toNat < 16 := UInt8.lt_iff_toNat_lt.mp small
  have found := all ⟨n.toNat, bound⟩
  simpa using found

theorem high_lt (c : UInt8) : c / 16 < 16 := by
  have bound := c.toNat_lt
  rw [UInt8.lt_iff_toNat_lt, UInt8.toNat_div]
  change c.toNat / 16 < 16
  omega

theorem low_lt (c : UInt8) : c % 16 < 16 := by
  rw [UInt8.lt_iff_toNat_lt, UInt8.toNat_mod]
  change c.toNat % 16 < 16
  omega

theorem high_low (c : UInt8) : c / 16 * 16 + c % 16 = c := by
  have bound := c.toNat_lt
  apply UInt8.toNat_inj.mp
  rw [UInt8.toNat_add, UInt8.toNat_mul, UInt8.toNat_div, UInt8.toNat_mod]
  change (c.toNat / 16 * 16 % 256 + c.toNat % 16) % 256 = c.toNat
  omega

/-- What one byte becomes. -/
def escaped (c : UInt8) : Bytes :=
  if uriUnreserved c then [c]
  else if c = 32 then [43]
  else [37, hexDigit (c / 16), hexDigit (c % 16)]

theorem evhttpUridecode_cons {c : UInt8} (notPlus : c ≠ 43) (notPercent : c ≠ 37) (rest : Bytes) :
    evhttpUridecode (c :: rest) = c :: evhttpUridecode rest := by
  rw [evhttpUridecode]
  · exact notPlus
  · intro _ _ _ percent
    exact absurd percent notPercent

theorem evhttpUridecode_escape {high low h l : UInt8} (readHigh : hexValue high = some h)
    (readLow : hexValue low = some l) (rest : Bytes) :
    evhttpUridecode (37 :: high :: low :: rest) = (h * 16 + l) :: evhttpUridecode rest := by
  rw [evhttpUridecode, readHigh, readLow]

theorem evhttpUridecode_escaped (c : UInt8) (rest : Bytes) :
    evhttpUridecode (escaped c ++ rest) = c :: evhttpUridecode rest := by
  unfold escaped
  split
  · rename_i kept
    have notPlus : c ≠ 43 := by
      intro same
      subst same
      cases kept
    have notPercent : c ≠ 37 := by
      intro same
      subst same
      cases kept
    exact evhttpUridecode_cons notPlus notPercent rest
  · split
    · rename_i space
      rw [space]
      rfl
    · have decoded := evhttpUridecode_escape (hexValue_hexDigit (high_lt c))
        (hexValue_hexDigit (low_lt c)) rest
      rw [high_low] at decoded
      exact decoded

theorem evhttpUriencode_cons (c : UInt8) (rest : Bytes) :
    evhttpUriencode (c :: rest) = escaped c ++ evhttpUriencode rest :=
  List.flatMap_cons

theorem evhttpUridecode_encode (bytes : Bytes) : evhttpUridecode (evhttpUriencode bytes) = bytes := by
  induction bytes with
  | nil => rfl
  | cons c rest ih => rw [evhttpUriencode_cons, evhttpUridecode_escaped, ih]

/-- A byte that is escaped and is no part of an escape does not occur in an encoding. -/
theorem not_mem_evhttpUriencode {mark : UInt8} (reserved : uriUnreserved mark = false)
    (notPlus : mark ≠ 43) (notPercent : mark ≠ 37) (noDigit : hexValue mark = none) (bytes : Bytes) :
    mark ∉ evhttpUriencode bytes := by
  have notHex {n : UInt8} (small : n < 16) : mark ≠ hexDigit n := by
    intro same
    subst same
    rw [hexValue_hexDigit small] at noDigit
    cases noDigit
  intro member
  obtain ⟨c, -, inside⟩ := List.mem_flatMap.mp member
  change mark ∈ escaped c at inside
  unfold escaped at inside
  split at inside
  · rename_i kept
    rw [List.mem_singleton] at inside
    rw [inside, kept] at reserved
    cases reserved
  · split at inside
    · exact notPlus (List.mem_singleton.mp inside)
    · simp [notPercent, notHex (high_lt c), notHex (low_lt c)] at inside

theorem cstr_evhttpUriencode (bytes : Bytes) : cstr (evhttpUriencode bytes) = evhttpUriencode bytes :=
  cstr_of_not_mem (not_mem_evhttpUriencode rfl (by decide) (by decide) rfl bytes)

/-! ## The two functions -/

section Functions

variable (rt : Runtime Server) (function : Value) (world : World Server)

theorem luaIsstring_only (bytes : Bytes) (passed : List (Sink × CharPtr)) :
    luaIsstring 1 ⟨[.string bytes], passed, world⟩ = .ok true ⟨[.string bytes], passed, world⟩ := rfl

theorem luaTolstring_only (platform : Platform) (bytes : Bytes) (passed : List (Sink × CharPtr)) :
    luaTolstring platform 1 ⟨[.string bytes], passed, world⟩ =
      .ok (some bytes) ⟨[.string bytes], passed, world⟩ := rfl

theorem luaHttpUriEncode_string (bytes : Bytes) :
    callNative function (luaHttpUriEncode rt true) [.string bytes] world =
      .returns [.string (evhttpUriencode bytes)] world := by
  cases bytes with
  | nil => rfl
  | cons c rest =>
      simp [callNative, luaHttpUriEncode, luaIsstring_only, luaTolstring_only, luaPushstring,
        cstr_evhttpUriencode]

theorem luaHttpUriDecode_string {bytes : Bytes} (free : cstr bytes = bytes) :
    callNative function (luaHttpUriDecode rt true) [.string bytes] world =
      .returns [.string (evhttpUridecode bytes)] world := by
  cases bytes with
  | nil => rfl
  | cons c rest =>
      simp [callNative, luaHttpUriDecode, luaIsstring_only, luaTolstring_only, free]

end Functions

/-- What `encode_uri` makes of a string, `decode_uri` turns back into it, so different
strings have different encodings. -/
theorem luaHttpUriDecode_encode (rt : Runtime Server) (encode decode : Value) (bytes : Bytes)
    (world : World Server) :
    ∃ encoded,
      callNative encode (luaHttpUriEncode rt true) [.string bytes] world =
        .returns [.string encoded] world ∧
      (∀ later, callNative decode (luaHttpUriDecode rt true) [.string encoded] later =
        .returns [.string bytes] later) ∧
      ∀ other later, callNative encode (luaHttpUriEncode rt true) [.string other] later =
        .returns [.string encoded] later → other = bytes := by
  have free := cstr_evhttpUriencode bytes
  refine ⟨evhttpUriencode bytes, luaHttpUriEncode_string rt encode world bytes, ?_, ?_⟩
  · intro later
    rw [luaHttpUriDecode_string rt decode later free, evhttpUridecode_encode]
  · intro other later same
    rw [luaHttpUriEncode_string] at same
    have equal : evhttpUriencode other = evhttpUriencode bytes := by
      injection same with results
      injection results with first
      injection first
    rw [← evhttpUridecode_encode other, equal, evhttpUridecode_encode]

end GameServer
