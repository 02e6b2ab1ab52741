import GameServer.Backtrack
import GameServer.Lua.Find

namespace GameServer.Lua

open Backtrack

/-! The pattern matcher of `lstrlib.c`.  A pattern is the bytes before its terminator; a place
in the source string is the number of bytes before it. -/

inductive CaptureLen where
  /-- `CAP_UNFINISHED` -/
  | unfinished
  /-- `CAP_POSITION` -/
  | position
  | bytes (len : Nat)
deriving DecidableEq

structure Capture where
  init : Nat
  len : CaptureLen
deriving DecidableEq

/-- What changes of a `MatchState`: the captures below `level`. -/
abbrev MatchState := List Capture

/-- A call of `match`: the place behind the match, or nothing. -/
abbrev Matcher := Search Bytes MatchState Nat

def maxCaptures : Nat := 32

/-- `L_ESC` -/
def lEsc : UInt8 := 37

section Classes

def isupper (c : UInt8) : Bool := 65 ≤ c ∧ c ≤ 90

def islower (c : UInt8) : Bool := 97 ≤ c ∧ c ≤ 122

def isalpha (c : UInt8) : Bool := isupper c || islower c

def isdigit (c : UInt8) : Bool := 48 ≤ c ∧ c ≤ 57

def isalnum (c : UInt8) : Bool := isalpha c || isdigit c

def isxdigit (c : UInt8) : Bool := isdigit c || (65 ≤ c ∧ c ≤ 70) || (97 ≤ c ∧ c ≤ 102)

def isspace (c : UInt8) : Bool := c = 32 ∨ 9 ≤ c ∧ c ≤ 13

def iscntrl (c : UInt8) : Bool := c < 32 ∨ c = 127

def ispunct (c : UInt8) : Bool := 33 ≤ c ∧ c ≤ 126 ∧ isalnum c = false

def tolower (c : UInt8) : UInt8 := if isupper c then c + 32 else c

/-- What the class letter, in lower case, stands for. -/
def classTest (letter c : UInt8) : Option Bool :=
  if letter = 97 then some (isalpha c)          -- a
  else if letter = 99 then some (iscntrl c)     -- c
  else if letter = 100 then some (isdigit c)    -- d
  else if letter = 108 then some (islower c)    -- l
  else if letter = 112 then some (ispunct c)    -- p
  else if letter = 115 then some (isspace c)    -- s
  else if letter = 117 then some (isupper c)    -- u
  else if letter = 119 then some (isalnum c)    -- w
  else if letter = 120 then some (isxdigit c)   -- x
  else if letter = 122 then some (c = 0)        -- z
  else none

def matchClass (c cl : UInt8) : Bool :=
  match classTest (tolower cl) c with
  | some res => if islower cl then res else !res
  | none => cl = c

theorem tail_length_le (p : Bytes) : p.tail.length ≤ p.length := by
  rw [List.length_tail]
  exact Nat.sub_le p.length 1

/-- The loop of `matchbracketclass`, from the byte `++p` stands at to the bracket `ec`. -/
def bracketLoop (c : UInt8) (sig : Bool) : Bytes → Bool
  | [] => !sig
  | [_] => !sig
  | p :: next :: rest =>
      if p = lEsc then
        if matchClass c next then sig else bracketLoop c sig rest
      else if next = 45 ∧ 2 ≤ rest.length then
        if p ≤ c ∧ c ≤ rest.headD 0 then sig else bracketLoop c sig rest.tail
      else if p = c then sig
      else bracketLoop c sig (next :: rest)
termination_by body => body.length
decreasing_by
  · exact Nat.lt_succ_of_lt (Nat.lt_succ_self rest.length)
  · exact Nat.lt_succ_of_lt (Nat.lt_succ_of_le (tail_length_le rest))
  · exact Nat.lt_succ_self (rest.length + 1)

/-- `matchbracketclass` of the bytes behind the opening bracket, up to the closing one. -/
def matchbracketclass (c : UInt8) (body : Bytes) : Bool :=
  if body.head? = some 94 then bracketLoop c false body.tail else bracketLoop c true body

/-- The loop of `classend` that looks for the closing bracket. -/
def bracketEnd : Bytes → Option Bytes
  | [] => none
  | [_] => none
  | c :: next :: rest =>
      if c = lEsc then
        if rest.head? = some 93 then some rest.tail else bracketEnd rest
      else if next = 93 then some rest
      else bracketEnd (next :: rest)

end Classes

theorem bracketEnd_length {p ep : Bytes} (ended : bracketEnd p = some ep) : ep.length < p.length := by
  fun_induction bracketEnd p with
  | case1 => cases ended
  | case2 => cases ended
  | case3 next rest closed =>
      cases ended
      simp only [List.length_tail, List.length_cons]
      omega
  | case4 next rest open_ ih =>
      have shorter := ih ended
      simp only [List.length_cons]
      omega
  | case5 c rest plain =>
      cases ended
      simp only [List.length_cons]
      omega
  | case6 c next rest plain open_ ih =>
      have shorter := ih ended
      simp only [List.length_cons] at shorter ⊢
      omega

theorem bracketEnd_set_length {p ep : Bytes}
    (ended : bracketEnd (if p.head? = some 94 then p.tail else p) = some ep) : ep.length ≤ p.length := by
  have shorter := bracketEnd_length ended
  split_ifs at shorter
  · exact shorter.le.trans (tail_length_le p)
  · exact shorter.le

/-- `classend` for a pattern that begins with `c`. -/
def classend (c : UInt8) (p : Bytes) : Except Bytes { ep : Bytes // ep.length ≤ p.length } :=
  if c = lEsc then
    match p with
    | [] => .error (lit "malformed pattern (ends with '%')")
    | _ :: ep => .ok ⟨ep, Nat.le_succ ep.length⟩
  else if c = 91 then
    let set := if p.head? = some 94 then p.tail else p
    match ended : bracketEnd set with
    | some ep =>
        .ok ⟨ep, bracketEnd_set_length ended⟩
    | none => .error (lit "malformed pattern (missing ']')")
  else .ok ⟨p, Nat.le_refl _⟩

/-- `singlematch` of the pattern that begins with `c` and goes on with `p` up to `ep`. -/
def singlematch (byte c : UInt8) (p ep : Bytes) : Bool :=
  if c = 46 then true
  else if c = lEsc then matchClass byte (p.headD 0)
  else if c = 91 then matchbracketclass byte (p.take (p.length - ep.length))
  else c = byte

section Captures

/-- `capture_to_close`, of the captures below `level`. -/
def captureToClose (ms : MatchState) : Nat → Option Nat
  | 0 => none
  | level + 1 =>
      if (ms[level]?.map Capture.len) = some .unfinished then some level else captureToClose ms level

/-- `start_capture`; `rest` is the call of `match`. -/
def startCapture (s : Nat) (what : CaptureLen) (rest : Matcher) : Matcher := fun ms =>
  if maxCaptures ≤ ms.length then .error (lit "too many captures")
  else within (· ++ [{ init := s, len := what }]) List.dropLast rest ms

/-- `ms->capture[l].len = s - ms->capture[l].init` -/
def closeCapture (s l : Nat) (ms : MatchState) : MatchState :=
  ms.modify l fun capture => { capture with len := .bytes (s - capture.init) }

/-- `ms->capture[l].len = CAP_UNFINISHED` -/
def reopenCapture (l : Nat) (ms : MatchState) : MatchState :=
  ms.modify l fun capture => { capture with len := .unfinished }

def endCapture (s : Nat) (rest : Matcher) : Matcher := fun ms =>
  match captureToClose ms ms.length with
  | none => .error (lit "invalid pattern capture")
  | some l => within (closeCapture s l) (reopenCapture l) rest ms

/-- `check_capture` of a digit. -/
def checkCapture (ms : MatchState) (digit : UInt8) : Except Bytes Capture :=
  match ms[digit.toNat - 49]? with
  | some capture =>
      if digit < 49 ∨ capture.len = .unfinished then .error (lit "invalid capture index") else .ok capture
  | none => .error (lit "invalid capture index")

/-- `match_capture` of a checked capture.  `CAP_POSITION`, read as a length, is more than any
string has left. -/
def matchCapture (src : Bytes) (s : Nat) (capture : Capture) : Option Nat :=
  match capture.len with
  | .bytes len =>
      if len ≤ src.length - s ∧ (src.drop capture.init).take len = (src.drop s).take len then some (s + len)
      else none
  | _ => none

end Captures

/-- The loop of `matchbalance`, with what is left of the string. -/
def balanceFrom (b e : UInt8) : Bytes → Nat → Nat → Option Nat
  | [], _, _ => none
  | byte :: rest, s, cont =>
      if byte = e then
        if cont = 1 then some (s + 1) else balanceFrom b e rest (s + 1) (cont - 1)
      else balanceFrom b e rest (s + 1) (if byte = b then cont + 1 else cont)

/-- `matchbalance`, where the pattern has both its bytes. -/
def matchbalance (src : Bytes) (s : Nat) (b e : UInt8) : Option Nat :=
  if src[s]? = some b then balanceFrom b e (src.drop (s + 1)) (s + 1) 1 else none

/-- `max_expand`; `i` first counts the bytes that match, then goes down. -/
def maxExpand (src : Bytes) (test : UInt8 → Bool) (s : Nat) (rest : Nat → Matcher) : Matcher :=
  downward rest s ((src.drop s).takeWhile test).length

/-- `min_expand`, with what is left of the string. -/
def minExpand (test : UInt8 → Bool) (rest : Nat → Matcher) : Bytes → Nat → Matcher
  | [], s => rest s
  | byte :: more, s => orElse (rest s) (if test byte then minExpand test rest more (s + 1) else fail)

/-- The test of `%f`; both ends of the string count as a NUL. -/
def frontier (src : Bytes) (s : Nat) (test : UInt8 → Bool) : Bool :=
  let previous := if s = 0 then 0 else src.getD (s - 1) 0
  !test previous && test (src.getD s 0)

/-- `match` of a pattern at a place. -/
def matchAt (src : Bytes) : Bytes → Nat → Matcher
  | [], s => succeed s
  | c :: p, s =>
      if c = 40 then          -- (
        if p.head? = some 41 then startCapture s .position (matchAt src p.tail s)
        else startCapture s .unfinished (matchAt src p s)
      else if c = 41 then     -- )
        endCapture s (matchAt src p s)
      else if c = lEsc ∧ p.head? = some 98 then     -- %b
        match p with
        | _ :: b :: e :: p => (matchbalance src s b e).elim fail (matchAt src p)
        | _ => raise (lit "unbalanced pattern")
      else if c = lEsc ∧ p.head? = some 102 then    -- %f
        if p.tail.head? = some 91 then
          match classend 91 p.tail.tail with
          | .ok ⟨ep, _⟩ =>
              if frontier src s (matchbracketclass · (p.tail.tail.take (p.tail.tail.length - ep.length))) then
                matchAt src ep s
              else fail
          | .error message => raise message
        else raise (lit "missing '[' after '%f' in pattern")
      else if c = lEsc ∧ p.head?.any isdigit then   -- %0 to %9
        fun ms =>
          match checkCapture ms (p.headD 0) with
          | .ok capture => (matchCapture src s capture).elim fail (matchAt src p.tail) ms
          | .error message => .error message
      else if c = 36 ∧ p = [] then                  -- $
        if s = src.length then succeed s else fail
      else
        match classend c p with
        | .error message => raise message
        | .ok ⟨ep, _⟩ =>
            let test := fun byte => singlematch byte c p ep
            let m := src[s]?.any test
            if ep.head? = some 63 then                -- ?
              orElse (if m then matchAt src ep.tail (s + 1) else fail) (matchAt src ep.tail s)
            else if ep.head? = some 42 then           -- *
              maxExpand src test s (matchAt src ep.tail)
            else if ep.head? = some 43 then           -- +
              if m then maxExpand src test (s + 1) (matchAt src ep.tail) else fail
            else if ep.head? = some 45 then           -- -
              minExpand test (matchAt src ep.tail) (src.drop s) s
            else if m then matchAt src ep (s + 1) else fail
termination_by p => p.length
decreasing_by
  all_goals simp only [List.length_cons, List.length_tail] at *
  all_goals omega

end GameServer.Lua
