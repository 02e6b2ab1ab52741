import GameServer.Lua.Sizes
import Mathlib.Tactic.Ring

namespace GameServer.Lua

/-! The sizes of tables (`lobject.c`): logarithms, and the "floating point byte" an instruction
holds a size in. -/

/-- The table of `luaO_log2`. -/
def logTable : List Nat :=
  [0, 1] ++ List.replicate 2 2 ++ List.replicate 4 3 ++ List.replicate 8 4 ++ List.replicate 16 5 ++
    List.replicate 32 6 ++ List.replicate 64 7 ++ List.replicate 128 8

/-- The loop of `luaO_log2`. -/
def logFrom (x : Nat) (l : Int) : Int :=
  if 256 ≤ x then logFrom (x >>> 8) (l + 8) else l + logTable.getD x 0
termination_by x
decreasing_by
  rw [Nat.shiftRight_eq_div_pow]
  omega

def luaOLog2 (x : Nat) : Int :=
  logFrom x (-1)

/-- The loop of `luaO_int2fb`, on an `unsigned int`. -/
def halve (x e : Nat) : Nat × Nat :=
  if 16 ≤ x then halve (((x + 1) % 4294967296) >>> 1) (e + 1) else (x, e)
termination_by x
decreasing_by
  rw [Nat.shiftRight_eq_div_pow]
  omega

def luaOInt2fb (x : Nat) : Nat :=
  let halved := halve x 0
  if halved.1 < 8 then halved.1 else ((halved.2 + 1) <<< 3) ||| (halved.1 - 8)

def luaOFb2int (x : Nat) : Nat :=
  let e := (x >>> 3) &&& 31
  if e = 0 then x else ((x &&& 7) + 8) <<< (e - 1)

/-! ## Logarithms -/

theorem logTable_small : ∀ x < 256, x ≠ 0 → 2 ^ logTable.getD x 0 ≤ 2 * x ∧ x < 2 ^ logTable.getD x 0 := by
  decide +kernel

/-- What `luaO_log2` adds to `l` is the logarithm, rounded down, of what is left. -/
theorem logFrom_eq {x : Nat} (positive : x ≠ 0) (l : Int) : logFrom x l = l + (Nat.log 2 x + 1 : Nat) := by
  fun_induction logFrom x l with
  | case1 x l large ih =>
      have shift : x >>> 8 = x / 256 := Nat.shiftRight_eq_div_pow x 8
      have rest : x / 256 ≠ 0 := by omega
      have bits : Nat.log 2 x = Nat.log 2 (x / 256) + 8 := by
        have low := Nat.pow_log_le_self 2 rest
        have high := Nat.lt_pow_succ_log_self Nat.one_lt_two (x / 256)
        apply Nat.log_eq_of_pow_le_of_lt_pow
        · rw [Nat.pow_add]
          exact (Nat.le_div_iff_mul_le (by omega)).mp low
        · rw [Nat.add_right_comm, Nat.pow_add]
          exact (Nat.div_lt_iff_lt_mul (by omega)).mp high
      rw [shift] at ih ⊢
      rw [ih rest]
      omega
  | case2 x l small =>
      obtain ⟨low, high⟩ := logTable_small x (by omega) positive
      congr 2
      have one : logTable.getD x 0 ≠ 0 := by
        intro zero
        rw [zero] at high
        omega
      have log : Nat.log 2 x = logTable.getD x 0 - 1 := by
        obtain ⟨bits, same⟩ := Nat.exists_eq_succ_of_ne_zero one
        rw [same] at low high ⊢
        apply Nat.log_eq_of_pow_le_of_lt_pow
        · rw [Nat.pow_succ] at low
          exact Nat.le_of_mul_le_mul_left (by rw [Nat.mul_comm 2]; exact low) Nat.two_pos
        · exact high
      omega

/-- The macro `ceillog2` of `lobject.h` is the logarithm, rounded up. -/
theorem ceillog2_eq_luaOLog2 {x : Nat} (positive : 0 < x) : (ceillog2 x : Int) = luaOLog2 (x - 1) + 1 := by
  by_cases one : x = 1
  · subst one
    have log : ceillog2 1 = 0 := ceillog2_eq (by omega) (by omega)
    rw [luaOLog2, logFrom.eq_def, log]
    rfl
  · have low := Nat.pow_log_le_self 2 (show x - 1 ≠ 0 by omega)
    have high := Nat.lt_pow_succ_log_self Nat.one_lt_two (x - 1)
    have log : ceillog2 x = Nat.log 2 (x - 1) + 1 := ceillog2_eq (fun _ => by rw [Nat.add_sub_cancel]; omega) (by omega)
    rw [luaOLog2, logFrom_eq (by omega), log]
    omega

theorem ceillog2_eq_luaOLog2_thousand : (ceillog2 1000 : Int) = luaOLog2 (1000 - 1) + 1 :=
  ceillog2_eq_luaOLog2 (by decide)

/-! ## Floating point bytes -/

/-- The byte with the significand `m` and the shift `k`. -/
def floatByte (m k : Nat) : Nat := (k + 1) * 8 + (m - 8)

section FloatByte

variable {x m k n : Nat}

/-- After `k + 1` halvings `m` is left, which is `x / 2 ^ (k + 1)` rounded up, and `k` would not
have been enough. -/
structure Halved (x m k : Nat) : Prop where
  low : 8 ≤ m
  below : (m - 1) * 2 ^ (k + 1) < x
  within : x ≤ m * 2 ^ (k + 1)
  least : m = 8 → 15 * 2 ^ k < x

theorem Halved.again (halved : Halved ((x + 1) / 2) m k) : Halved x m (k + 1) := by
  have below := halved.below
  have within := halved.within
  refine ⟨halved.low, ?_, ?_, ?_⟩
  · rw [Nat.pow_succ, ← Nat.mul_assoc]
    omega
  · rw [Nat.pow_succ, ← Nat.mul_assoc]
    omega
  · intro eight
    have least := halved.least eight
    rw [Nat.pow_succ, ← Nat.mul_assoc]
    omega

theorem halve_spec {e : Nat} (fits : x < 4294967295) :
    ∃ m k, halve x e = (m, e + k) ∧ m < 16 ∧ (k = 0 ∧ m = x ∨ ∃ j, k = j + 1 ∧ Halved x m j) := by
  fun_induction halve x e with
  | case1 x e large ih =>
      have half : ((x + 1) % 4294967296) >>> 1 = (x + 1) / 2 := by
        rw [Nat.mod_eq_of_lt (by omega)]
        exact Nat.shiftRight_eq_div_pow (x + 1) 1
      rw [half] at ih ⊢
      obtain ⟨m, k, halved, small, done⟩ := ih (by omega)
      refine ⟨m, k + 1, by rw [halved, Nat.add_assoc, Nat.add_comm 1 k], small, .inr ⟨k, rfl, ?_⟩⟩
      rcases done with ⟨rfl, rfl⟩ | ⟨j, rfl, more⟩
      · exact ⟨by omega, by omega, by omega, fun _ => by omega⟩
      · exact more.again
  | case2 x e small => exact ⟨x, 0, rfl, by omega, .inl ⟨rfl, rfl⟩⟩

theorem luaOInt2fb_floatByte (low : 8 ≤ m) (small : m < 16) : ((k + 1) <<< 3) ||| (m - 8) = floatByte m k := by
  rw [← Nat.shiftLeft_add_eq_or_of_lt (show m - 8 < 2 ^ 3 by omega), Nat.shiftLeft_eq]
  rfl

theorem luaOFb2int_small (small : x < 8) : luaOFb2int x = x := by
  have e : x >>> 3 = 0 := by
    rw [Nat.shiftRight_eq_div_pow]
    omega
  simp [luaOFb2int, e]

theorem luaOFb2int_floatByte (low : 8 ≤ m) (small : m < 16) (fits : k < 31) :
    luaOFb2int (floatByte m k) = m * 2 ^ k := by
  have e : (floatByte m k) >>> 3 = k + 1 := by
    rw [Nat.shiftRight_eq_div_pow, floatByte]
    omega
  have masked : (k + 1) &&& 31 = k + 1 := by
    rw [Nat.and_two_pow_sub_one_eq_mod (k + 1) 5]
    omega
  have significand : floatByte m k &&& 7 = m - 8 := by
    rw [Nat.and_two_pow_sub_one_eq_mod (floatByte m k) 3, floatByte]
    omega
  rw [luaOFb2int, e, masked, significand, if_neg (Nat.succ_ne_zero k), Nat.shiftLeft_eq, Nat.add_sub_cancel,
    Nat.sub_add_cancel low]

/-- Every byte is a small number or has a significand and a shift. -/
theorem floatByte_cases {b : Nat} (byte : b < 256) :
    b < 8 ∨ ∃ m k, 8 ≤ m ∧ m < 16 ∧ k < 31 ∧ b = floatByte m k := by
  rcases Nat.lt_or_ge b 8 with small | large
  · exact .inl small
  · refine .inr ⟨b % 8 + 8, b / 8 - 1, by omega, by omega, by omega, ?_⟩
    rw [floatByte]
    omega

/-- Nothing between `x` and what it is rounded up to has a significand below 16. -/
theorem Halved.le (halved : Halved x m k) {j : Nat} (small : n < 16) (enough : x ≤ n * 2 ^ j) :
    m * 2 ^ (k + 1) ≤ n * 2 ^ j := by
  rcases Nat.lt_or_ge k j with more | less
  · obtain ⟨d, rfl⟩ := Nat.exists_eq_add_of_lt more
    have power : n * 2 ^ (k + d + 1) = n * 2 ^ d * 2 ^ (k + 1) := by ring
    rw [power] at enough ⊢
    have above : m - 1 < n * 2 ^ d := Nat.lt_of_mul_lt_mul_right (Nat.lt_of_lt_of_le halved.below enough)
    exact Nat.mul_le_mul_right _ (by omega)
  · -- a smaller shift does not reach `x`
    have top : n * 2 ^ j ≤ 15 * 2 ^ k :=
      Nat.mul_le_mul (by omega) (Nat.pow_le_pow_right Nat.two_pos less)
    by_cases eight : m = 8
    · have least := halved.least eight
      omega
    · have below := halved.below
      have low := halved.low
      have large : 8 * 2 ^ (k + 1) ≤ (m - 1) * 2 ^ (k + 1) := Nat.mul_le_mul_right _ (by omega)
      rw [Nat.pow_succ] at large below
      omega

end FloatByte

/-- A size an instruction holds is rounded up, and to the least number that a byte can hold. -/
theorem luaOInt2fb_least {x : Nat} (fits : x ≤ 15 * 2 ^ 27) :
    luaOInt2fb x < 256 ∧ x ≤ luaOFb2int (luaOInt2fb x) ∧
      ∀ b < 256, x ≤ luaOFb2int b → luaOFb2int (luaOInt2fb x) ≤ luaOFb2int b := by
  obtain ⟨m, k, halved, small, done⟩ := halve_spec (e := 0) (show x < 4294967295 by omega)
  rw [Nat.zero_add] at halved
  rcases done with ⟨rfl, rfl⟩ | ⟨j, rfl, rounded⟩
  · have exact_ : luaOFb2int (luaOInt2fb m) = m ∧ luaOInt2fb m < 256 := by
      rw [luaOInt2fb, halved]
      dsimp only
      split_ifs with tiny
      · exact ⟨luaOFb2int_small tiny, by omega⟩
      · rw [luaOInt2fb_floatByte (by omega) small, luaOFb2int_floatByte (by omega) small (by omega)]
        exact ⟨by omega, by rw [floatByte]; omega⟩
    rw [exact_.1]
    exact ⟨exact_.2, le_rfl, fun b _ enough => enough⟩
  · have low := rounded.low
    have bounded : j < 27 := by
      by_contra large
      have power : 2 ^ 27 ≤ 2 ^ j := Nat.pow_le_pow_right Nat.two_pos (by omega)
      by_cases eight : m = 8
      · have least := rounded.least eight
        omega
      · have many : 8 * 2 ^ (j + 1) ≤ (m - 1) * 2 ^ (j + 1) := Nat.mul_le_mul_right _ (by omega)
        have below := rounded.below
        rw [Nat.pow_succ] at many below
        omega
    have code : luaOInt2fb x = floatByte m (j + 1) := by
      rw [luaOInt2fb, halved]
      dsimp only
      rw [if_neg (by omega), luaOInt2fb_floatByte low small]
    rw [code, luaOFb2int_floatByte low small (by omega)]
    refine ⟨by rw [floatByte]; omega, rounded.within, fun b byte enough => ?_⟩
    rcases floatByte_cases byte with tiny | ⟨n, i, lowN, smallN, fitsI, rfl⟩
    · rw [luaOFb2int_small tiny] at enough ⊢
      have unshifted := rounded.le (j := 0) (n := b) (by omega) (by omega)
      omega
    · rw [luaOFb2int_floatByte lowN smallN fitsI] at enough ⊢
      exact rounded.le smallN enough

theorem luaOInt2fb_least_hundred : luaOInt2fb 100 < 256 ∧ 100 ≤ luaOFb2int (luaOInt2fb 100) ∧
    ∀ b < 256, 100 ≤ luaOFb2int b → luaOFb2int (luaOInt2fb 100) ≤ luaOFb2int b :=
  luaOInt2fb_least (by decide)

end GameServer.Lua
