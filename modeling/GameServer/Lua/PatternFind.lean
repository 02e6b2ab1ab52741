import GameServer.Lua.PatternOutcomes

namespace GameServer.Lua

open Backtrack

/-! `string.find`, `string.match` and `string.gmatch`. -/

/-- The bytes from one place to another. -/
def slice (src : Bytes) (s e : Nat) : Bytes := (src.drop s).take (e - s)

/-- `push_onecapture`. -/
def pushOnecapture (src : Bytes) (ms : MatchState) (i s e : Nat) : Except Bytes Value :=
  match ms[i]? with
  | none => if i = 0 then .ok (.string (slice src s e)) else .error (lit "invalid capture index")
  | some capture =>
      match capture.len with
      | .unfinished => .error (lit "unfinished capture")
      | .position => .ok (.number (.finite (capture.init + 1)))
      | .bytes len => .ok (.string ((src.drop capture.init).take len))

/-- `push_captures`; without captures and with a match to give, that is what it gives. -/
def pushCaptures (src : Bytes) (ms : MatchState) (whole : Option (Nat × Nat)) : Except Bytes (List Value) :=
  let nlevels := if ms.length = 0 ∧ whole.isSome then 1 else ms.length
  (List.range nlevels).mapM fun i => pushOnecapture src ms i (whole.getD (0, 0)).1 (whole.getD (0, 0)).2

def posrelat (pos : Int) (len : Nat) : Int :=
  let pos := if pos < 0 then pos + (len + 1) else pos
  if 0 ≤ pos then pos else 0

/-- The places tried one after the other, `left` of them behind the first: the first match. -/
def searchFrom (src p : Bytes) : Nat → Nat → Except Bytes (Option (Nat × Nat × MatchState))
  | left, s1 =>
      match matchAt src p s1 [] with
      | .error message => .error message
      | .ok (some res, ms) => .ok (some (s1, res, ms))
      | .ok (none, _) =>
          match left with
          | 0 => .ok none
          | left + 1 => searchFrom src p left (s1 + 1)

/-- Where the search begins. -/
def searchInit (s : Bytes) (init : Int) : Nat :=
  let init := posrelat init s.length - 1
  if init < 0 then 0 else if s.length < init then s.length else init.toNat

/-- A pattern without the caret that anchors it. -/
def body (p : Bytes) : Bytes := if p.head? = some 94 then p.tail else p

/-- The part of `str_find_aux` that uses the pattern matcher. -/
def findPattern (find : Bool) (s p : Bytes) (init : Nat) : Except Bytes (List Value) :=
  let anchor := p.head? = some 94
  match searchFrom s (body p) (if anchor then 0 else s.length - init) init with
  | .error message => .error message
  | .ok none => .ok [.nil]
  | .ok (some (s1, res, ms)) =>
      if find then
        (pushCaptures s ms none).map fun captures =>
          .number (.finite (s1 + 1)) :: .number (.finite res) :: captures
      else pushCaptures s ms (some (s1, res))

/-- `str_find_aux` of a string and a pattern, with the third and the fourth argument. -/
def strFindAux (find : Bool) (s p : Bytes) (init : Int) (plain : Bool) : Except Bytes (List Value) :=
  let start := searchInit s init
  if find ∧ (plain ∨ (cstr p).all (· ∉ specials)) then
    match lmemfind (s.drop start) p with
    | some s2 => .ok [.number (.finite (start + s2 + 1)), .number (.finite (start + s2 + p.length))]
    | none => .ok [.nil]
  else findPattern find s (cstr p) start

/-- `gmatch_aux`: the values, and the position it keeps for the next call. -/
def gmatchAux (src p : Bytes) (start : Nat) : Except Bytes (Option (List Value × Nat)) :=
  if src.length < start then .ok none
  else
    match searchFrom src (cstr p) (src.length - start) start with
    | .error message => .error message
    | .ok none => .ok none
    | .ok (some (s, e, ms)) =>
        (pushCaptures src ms (some (s, e))).map fun captures =>
          some (captures, if e = s then e + 1 else e)

def patternItems (p : Bytes) : List Item :=
  match items p with
  | .ok all => all
  | .error _ => []

/-- A pattern, or the rest of one, whose items exist and fit the captures before them. -/
def acceptedAfter (st : List Status) (p : Bytes) : Bool :=
  match items p with
  | .ok all => wellFormed all st
  | .error _ => false

def accepted (p : Bytes) : Bool := acceptedAfter [] p

theorem acceptedAfter_iff {st : List Status} {p : Bytes} :
    acceptedAfter st p = true ↔ items p = .ok (patternItems p) ∧ wellFormed (patternItems p) st = true := by
  unfold acceptedAfter patternItems
  cases items p with
  | ok all => simp
  | error message => simp

theorem accepted_iff {p : Bytes} :
    accepted p = true ↔ items p = .ok (patternItems p) ∧ wellFormed (patternItems p) [] = true :=
  acceptedAfter_iff

variable {src s p : Bytes} {all : List Item} {ms : MatchState} {find : Bool} {init : Int}

section Meaning

/-- The first place, of those from `s1` on, where the pattern matches, with the preferred match. -/
def firstMatch (src : Bytes) (all : List Item) (left s1 : Nat) : Option (Nat × Nat × MatchState) :=
  (List.range' s1 (left + 1)).findSome? fun i => (outcomes src all i []).head?.map (i, ·)

/-- The value of a finished capture. -/
def captureValue (src : Bytes) (capture : Capture) : Value :=
  match capture.len with
  | .unfinished => .nil
  | .position => .number (.finite (capture.init + 1))
  | .bytes len => .string ((src.drop capture.init).take len)

/-- What `string.find` and `string.match` return for a match. -/
def answer (find : Bool) (src : Bytes) : Option (Nat × Nat × MatchState) → List Value
  | none => [.nil]
  | some (s1, e, ms) =>
      if find then .number (.finite (s1 + 1)) :: .number (.finite e) :: ms.map (captureValue src)
      else if ms = [] then [.string (slice src s1 e)] else ms.map (captureValue src)

end Meaning

theorem searchFrom_eq (parsed : items p = .ok all) (formed : wellFormed all [] = true) (left s1 : Nat) :
    searchFrom src p left s1 = .ok (firstMatch src all left s1) := by
  induction left generalizing s1 with
  | zero =>
      have found := @finds_matchAt src [] p all parsed formed s1
      rw [searchFrom, found, firstMatch, List.range'_succ, List.findSome?_cons]
      cases outcomes src all s1 [] with
      | nil => rfl
      | cons outcome others => rfl
  | succ left ih =>
      have found := @finds_matchAt src [] p all parsed formed s1
      rw [searchFrom, found, firstMatch, List.range'_succ, List.findSome?_cons]
      cases outcomes src all s1 [] with
      | nil => exact ih (s1 + 1)
      | cons outcome others => rfl

theorem pushOnecapture_eq {i : Nat} {capture : Capture} (here : ms[i]? = some capture)
    (finished : capture.len ≠ .unfinished) (s e : Nat) :
    pushOnecapture src ms i s e = .ok (captureValue src capture) := by
  rw [pushOnecapture, here, captureValue]
  cases len : capture.len with
  | unfinished => exact absurd len finished
  | position => simp [len]
  | bytes n => simp [len]

theorem mapM_eq_ok {ι α ε : Type} {attempt : ι → Except ε α} {value : ι → α} {list : List ι}
    (works : ∀ i ∈ list, attempt i = .ok (value i)) : list.mapM attempt = .ok (list.map value) := by
  induction list with
  | nil => rfl
  | cons first rest ih =>
      rw [List.mapM_cons, works first List.mem_cons_self, ih fun i member => works i (List.mem_cons_of_mem _ member)]
      rfl

theorem pushCaptures_eq (finished : .unfinished ∉ statuses ms) (whole : Option (Nat × Nat)) :
    pushCaptures src ms whole =
      .ok (if ms = [] then whole.toList.map (fun span => .string (slice src span.1 span.2))
        else ms.map (captureValue src)) := by
  by_cases none : ms = []
  · subst none
    cases whole <;> rfl
  · have some_ : ¬ (ms.length = 0 ∧ whole.isSome = true) := fun both => none (List.length_eq_zero_iff.mp both.1)
    rw [pushCaptures, if_neg some_, if_neg none]
    have values : ms.map (captureValue src) =
        (List.range ms.length).map fun i => (ms[i]?.map (captureValue src)).getD .nil := by
      apply List.ext_getElem (by simp)
      intro i inside _
      simp only [List.length_map] at inside
      simp [inside]
    rw [values]
    apply mapM_eq_ok
    intro i inside
    have bound : i < ms.length := List.mem_range.mp inside
    have here : ms[i]? = some ms[i] := List.getElem?_eq_getElem bound
    have closed : ms[i].len ≠ .unfinished := by
      intro open_
      apply finished
      rw [statuses, List.mem_map]
      exact ⟨ms[i], List.getElem_mem _, by rw [open_]; rfl⟩
    rw [here]
    exact pushOnecapture_eq here closed _ _

theorem firstMatch_eq_some {left s1 i e : Nat} (found : firstMatch src all left s1 = some (i, e, ms)) :
    s1 ≤ i ∧ i ≤ s1 + left ∧ (outcomes src all i []).head? = some (e, ms) := by
  obtain ⟨place, member, here⟩ := List.exists_of_findSome?_eq_some found
  rw [List.mem_range'_1] at member
  rw [Option.map_eq_some_iff] at here
  obtain ⟨outcome, best, same⟩ := here
  cases same
  exact ⟨member.1, by omega, best⟩

/-- The captures of the first match are finished and lie in the string. -/
theorem firstMatch_bounds {left s1 i e : Nat} (formed : wellFormed all [] = true) (inside : s1 + left ≤ src.length)
    (found : firstMatch src all left s1 = some (i, e, ms)) :
    i ≤ e ∧ Bounded src e ms ∧ .unfinished ∉ statuses ms := by
  obtain ⟨_, before, best⟩ := firstMatch_eq_some found
  have start : Bounded src i [] :=
    ⟨by omega, fun _ member => absurd member List.not_mem_nil, fun _ member => absurd member List.not_mem_nil⟩
  exact mem_outcomes_bounds start formed (List.mem_of_head? best)

/-- What the pattern matcher finds is the leftmost match, and of those the preferred one. -/
theorem findPattern_eq {init : Nat} (parsed : items (body p) = .ok all)
    (formed : wellFormed all [] = true) (inside : init ≤ s.length) :
    findPattern find s p init =
      .ok (answer find s (firstMatch s all (if p.head? = some 94 then 0 else s.length - init) init)) := by
  have within : init + (if p.head? = some 94 then 0 else s.length - init) ≤ s.length := by
    split_ifs <;> omega
  simp only [findPattern]
  rw [searchFrom_eq parsed formed]
  cases found : firstMatch s all (if p.head? = some 94 then 0 else s.length - init) init with
  | none => rfl
  | some match_ =>
      obtain ⟨i, e, ms⟩ := match_
      obtain ⟨_, _, finished⟩ := firstMatch_bounds formed within found
      dsimp only
      rw [pushCaptures_eq finished, pushCaptures_eq finished, answer]
      cases find with
      | true =>
          by_cases none : ms = []
          · subst none
            rfl
          · rw [if_neg none]
            rfl
      | false => rfl

section Literal

theorem special_ne {c : UInt8} (plain : c ∉ specials) :
    c ≠ 40 ∧ c ≠ lEsc ∧ c ≠ 36 ∧ c ≠ 46 ∧ c ≠ 91 ∧ c ≠ 94 ∧ c ≠ 63 ∧ c ≠ 42 ∧ c ≠ 43 ∧ c ≠ 45 := by
  have all : ∀ other ∈ [40, lEsc, 36, 46, 91, 94, 63, 42, 43, (45 : UInt8)], other ∈ specials := by
    decide +kernel
  refine ⟨?_, ?_, ?_, ?_, ?_, ?_, ?_, ?_, ?_, ?_⟩ <;>
  · intro same
    subst same
    exact plain (all _ (by simp))

/-- A byte that is neither special nor a closing parenthesis stands for itself. -/
theorem nextItem_literal {c : UInt8} (plain : ∀ byte ∈ c :: p, byte ∉ specials) (noClose : c ≠ 41) :
    nextItem c p = .ok (.single (fun byte => c = byte) .once, ⟨p, le_rfl⟩) := by
  obtain ⟨paren, escape, dollar, dot, bracket, _⟩ := special_ne (plain c List.mem_cons_self)
  have ended : classend c p = .ok ⟨p, le_rfl⟩ := by
    rw [classend.eq_def, if_neg escape, if_neg bracket]
  have once : repetition p = (.once, p) := by
    cases p with
    | nil => rfl
    | cons next p =>
        obtain ⟨_, _, _, _, _, _, optional, many, manyOnce, fewest⟩ :=
          special_ne (plain next (List.mem_cons_of_mem _ List.mem_cons_self))
        simp [repetition, optional, many, manyOnce, fewest]
  have test : (singlematch · c p p) = fun byte => decide (c = byte) := by
    funext byte
    rw [singlematch, if_neg dot, if_neg escape, if_neg bracket]
  rw [nextItem.eq_def, if_neg paren, if_neg noClose, if_neg (by simp [escape]), if_neg (by simp [escape]),
    if_neg (by simp [escape]), if_neg (by simp [dollar]), ended]
  simp only [Except.map, once, test]

/-- A pattern of such bytes matches where it occurs, and in this way only. -/
theorem outcomes_literal (plain : ∀ byte ∈ p, byte ∉ specials) (parsed : items p = .ok all)
    (formed : wellFormed all [] = true) (i : Nat) :
    outcomes s all i [] = if p <+: s.drop i then [(i + p.length, [])] else [] := by
  induction p generalizing all i with
  | nil =>
      rw [items] at parsed
      cases parsed
      simp [outcomes]
  | cons c p ih =>
      obtain ⟨item, rest, more, next, onward, rfl⟩ := items_cons_eq_ok parsed
      obtain ⟨after, checked, formedMore⟩ := wellFormed_cons formed
      have noClose : c ≠ 41 := by
        intro closing
        subst closing
        have item_ : item = .closeCapture := by
          rw [nextItem.eq_def] at next
          cases next
          rfl
        subst item_
        cases checked
      rw [nextItem_literal plain noClose] at next
      cases next
      cases checked
      have later := ih (fun byte member => plain byte (List.mem_cons_of_mem _ member)) onward formedMore (i + 1)
      rw [outcomes, Item.outcomes, later, ← List.tail_drop]
      cases s.drop i with
      | nil => simp
      | cons byte left =>
          by_cases same : c = byte
          · subst same
            simp [List.cons_prefix_cons, Nat.add_assoc, Nat.add_comm 1]
          · simp [List.cons_prefix_cons, same]

theorem findSome?_range' {β : Type} {f : Nat → Option β} {start count i : Nat} {found : β} (low : start ≤ i)
    (high : i < start + count) (here : f i = some found) (before : ∀ j, start ≤ j → j < i → f j = none) :
    (List.range' start count).findSome? f = some found := by
  induction count generalizing start with
  | zero => omega
  | succ count ih =>
      rw [List.range'_succ, List.findSome?_cons]
      by_cases first : start = i
      · rw [first, here]
      · rw [before start (Nat.le_refl start) (by omega)]
        exact ih (by omega) (by omega) fun j above below => before j (by omega) below

/-- The plain search finds what the pattern matcher would find. -/
theorem lmemfind_eq_firstMatch {start : Nat} (plain : ∀ byte ∈ p, byte ∉ specials) (parsed : items p = .ok all)
    (formed : wellFormed all [] = true) :
    firstMatch s all (s.length - start) start =
      (lmemfind (s.drop start) p).map fun s2 => (start + s2, start + s2 + p.length, []) := by
  have best : ∀ i, ((outcomes s all i []).head?.map (i, ·)) =
      if p <+: s.drop i then some (i, i + p.length, []) else none := by
    intro i
    rw [outcomes_literal plain parsed formed]
    split_ifs <;> rfl
  rw [firstMatch]
  simp only [best]
  cases searched : lmemfind (s.drop start) p with
  | none =>
      rw [Option.map_none, List.findSome?_eq_none_iff]
      intro i member
      rw [List.mem_range'_1] at member
      have absent := lmemfind_eq_none searched (i - start)
      rw [List.drop_drop, Nat.add_sub_cancel' member.1] at absent
      rw [if_neg absent]
  | some s2 =>
      obtain ⟨occurs, first⟩ := lmemfind_eq_some searched
      have few : s2 ≤ (s.drop start).length := by
        by_contra beyond
        apply first (s.drop start).length (Nat.lt_of_not_le beyond)
        rw [List.drop_length]
        rw [List.drop_eq_nil_of_le (Nat.le_of_not_le beyond), List.prefix_nil] at occurs
        rw [occurs]
      rw [List.length_drop] at few
      rw [Option.map_some]
      refine @findSome?_range' _ _ _ _ (start + s2) _ (by omega) (by omega) ?_ ?_
      · rw [← List.drop_drop, if_pos occurs]
      · intro j above below
        have absent := first (j - start) (by omega)
        rw [List.drop_drop, Nat.add_sub_cancel' above] at absent
        rw [if_neg absent]

end Literal

theorem searchInit_le (s : Bytes) (init : Int) : searchInit s init ≤ s.length := by
  unfold searchInit
  dsimp only
  split_ifs <;> omega

/-- `string.find` and `string.match`, with or without the plain search that stands in for a
pattern without special characters, give the leftmost match of a well-formed pattern, and of
the matches there the preferred one, and raise no error. -/
theorem strFindAux_leftmost (formed : accepted (body (cstr p)) = true)
    (whole : find = true → (cstr p).all (· ∉ specials) = true → 0 ∉ p) :
    strFindAux find s p init false =
      .ok (answer find s (firstMatch s (patternItems (body (cstr p)))
        (if (cstr p).head? = some 94 then 0 else s.length - searchInit s init) (searchInit s init))) := by
  obtain ⟨parsed, formed⟩ := accepted_iff.mp formed
  have inside := searchInit_le s init
  unfold strFindAux
  dsimp only
  by_cases plain : find = true ∧ (false = true ∨ (cstr p).all (· ∉ specials) = true)
  · rw [if_pos plain]
    obtain ⟨finds, none | noSpecial⟩ := plain
    · cases none
    · have same : cstr p = p := cstr_of_not_mem (whole finds noSpecial)
      rw [same] at parsed formed noSpecial ⊢
      have free : ∀ byte ∈ p, byte ∉ specials := by simpa using noSpecial
      have noAnchor : p.head? ≠ some 94 := by
        intro anchored
        have caret := free 94 (List.mem_of_head? anchored)
        exact (special_ne caret).2.2.2.2.2.1 rfl
      have unanchored : body p = p := if_neg noAnchor
      rw [unanchored] at parsed formed ⊢
      rw [if_neg noAnchor, lmemfind_eq_firstMatch free parsed formed]
      cases lmemfind (s.drop (searchInit s init)) p with
      | none => rfl
      | some s2 => simp [answer, finds]
  · rw [if_neg plain]
    exact findPattern_eq parsed formed inside

theorem strFindAux_leftmost_word :
    strFindAux true (lit "hello world") (lit "(o)%s") 1 false =
        .ok [.number (.finite 5), .number (.finite 6), .string (lit "o")] ∧
      strFindAux true (lit "hello world") (lit "o w") 1 false = .ok [.number (.finite 5), .number (.finite 7)] :=
  ⟨(strFindAux_leftmost (by decide +kernel) fun _ plain => absurd plain (by decide +kernel)).trans (by decide +kernel),
    (strFindAux_leftmost (by decide +kernel) fun _ _ => by decide +kernel).trans (by decide +kernel)⟩

/-- `strFind`, with what the pattern matcher returns for its parameter, is `string.find` of two
arguments. -/
theorem strFindAux_eq_strFind {matchPattern : Bytes → Bytes → List Value}
    (matched : findPattern true s (cstr p) 0 = .ok (matchPattern s p)) :
    strFindAux true s p 1 false = .ok (strFind matchPattern s p) := by
  have start : searchInit s 1 = 0 := rfl
  simp only [strFindAux, start, List.drop_zero, strFind, true_and, Bool.false_eq_true, false_or]
  split_ifs
  · cases lmemfind s p with
    | none => rfl
    | some s2 =>
        have counted : ((0 : Nat) : Rat) + s2 = s2 := Rat.zero_add _
        dsimp only
        rw [counted]
  · exact matched

/-- `match` gives the preferred of all the ways to match; where there is none it fails with the
captures as they were.  No way leads out of the string, or leaves a capture open. -/
theorem matchAt_preferred {s : Nat} (formed : acceptedAfter (statuses ms) p = true) (bounded : Bounded src s ms) :
    matchAt src p s ms =
        .ok ((outcomes src (patternItems p) s ms).head?.elim (none, ms) fun outcome => (some outcome.1, outcome.2)) ∧
      ∀ outcome ∈ outcomes src (patternItems p) s ms,
        s ≤ outcome.1 ∧ Bounded src outcome.1 outcome.2 ∧ .unfinished ∉ statuses outcome.2 := by
  obtain ⟨parsed, formed⟩ := acceptedAfter_iff.mp formed
  refine ⟨finds_matchAt parsed formed s, ?_⟩
  intro outcome member
  exact mem_outcomes_bounds bounded formed member

theorem matchAt_preferred_inside :
    matchAt (lit "abab") (lit ")%1") 2 [{ init := 0, len := .unfinished }] =
        .ok ((outcomes (lit "abab") (patternItems (lit ")%1")) 2 [{ init := 0, len := .unfinished }]).head?.elim
          (none, [{ init := 0, len := .unfinished }]) fun outcome => (some outcome.1, outcome.2)) ∧
      ∀ outcome ∈ outcomes (lit "abab") (patternItems (lit ")%1")) 2 [{ init := 0, len := .unfinished }],
        2 ≤ outcome.1 ∧ Bounded (lit "abab") outcome.1 outcome.2 ∧ .unfinished ∉ statuses outcome.2 :=
  matchAt_preferred (by decide +kernel)
    ⟨by decide, fun capture member => by simp_all, fun capture member => by simp_all⟩

end GameServer.Lua
