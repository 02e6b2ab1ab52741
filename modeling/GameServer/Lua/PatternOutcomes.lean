import GameServer.Lua.Pattern

namespace GameServer.Lua

open Backtrack

/-! What a pattern means: its items, and all the ways in which they match, the preferred one
first. -/

inductive Repeats where
  | once
  | optional
  | many
  | manyOnce
  | fewest
deriving DecidableEq

inductive Item where
  | single (test : UInt8 → Bool) (repeats : Repeats)
  | openCapture
  | positionCapture
  | closeCapture
  | balance (b e : UInt8)
  | frontier (test : UInt8 → Bool)
  | backReference (digit : UInt8)
  | atEnd

/-- How often a single byte may match, and the pattern behind that. -/
def repetition (ep : Bytes) : Repeats × Bytes :=
  if ep.head? = some 63 then (.optional, ep.tail)
  else if ep.head? = some 42 then (.many, ep.tail)
  else if ep.head? = some 43 then (.manyOnce, ep.tail)
  else if ep.head? = some 45 then (.fewest, ep.tail)
  else (.once, ep)

theorem repetition_length (ep : Bytes) : (repetition ep).2.length ≤ ep.length := by
  unfold repetition
  split_ifs <;> simp

/-- The first item of a pattern and the rest of it, or why it has none. -/
def nextItem (c : UInt8) (p : Bytes) : Except Bytes (Item × { rest : Bytes // rest.length ≤ p.length }) :=
  if c = 40 then
    if p.head? = some 41 then .ok (.positionCapture, ⟨p.tail, tail_length_le p⟩) else .ok (.openCapture, ⟨p, le_rfl⟩)
  else if c = 41 then .ok (.closeCapture, ⟨p, le_rfl⟩)
  else if c = lEsc ∧ p.head? = some 98 then
    match p with
    | _ :: b :: e :: p => .ok (.balance b e, ⟨p, Nat.le_add_right p.length 3⟩)
    | _ => .error (lit "unbalanced pattern")
  else if c = lEsc ∧ p.head? = some 102 then
    if p.tail.head? = some 91 then
      (classend 91 p.tail.tail).map fun ep =>
        (.frontier (matchbracketclass · (p.tail.tail.take (p.tail.tail.length - ep.val.length))),
          ⟨ep.val, ep.property.trans ((tail_length_le p.tail).trans (tail_length_le p))⟩)
    else .error (lit "missing '[' after '%f' in pattern")
  else if c = lEsc ∧ p.head?.any isdigit then .ok (.backReference (p.headD 0), ⟨p.tail, tail_length_le p⟩)
  else if c = 36 ∧ p = [] then .ok (.atEnd, ⟨[], Nat.zero_le _⟩)
  else
    (classend c p).map fun ep =>
      (.single (singlematch · c p ep.val) (repetition ep.val).1,
        ⟨(repetition ep.val).2, (repetition_length ep.val).trans ep.property⟩)

/-- The items of a pattern. -/
def items : Bytes → Except Bytes (List Item)
  | [] => .ok []
  | c :: p =>
      match nextItem c p with
      | .ok (item, ⟨rest, _⟩) => (items rest).map (item :: ·)
      | .error message => .error message
termination_by p => p.length

/-- What `match` does at an item; `rest` is the call of `match` for what follows it. -/
def Item.run (src : Bytes) (rest : Nat → Matcher) (item : Item) (s : Nat) : Matcher :=
  match item with
  | .single test repeats =>
      let m := src[s]?.any test
      match repeats with
      | .once => if m then rest (s + 1) else fail
      | .optional => orElse (if m then rest (s + 1) else fail) (rest s)
      | .many => maxExpand src test s rest
      | .manyOnce => if m then maxExpand src test (s + 1) rest else fail
      | .fewest => minExpand test rest (src.drop s) s
  | .openCapture => startCapture s .unfinished (rest s)
  | .positionCapture => startCapture s .position (rest s)
  | .closeCapture => endCapture s (rest s)
  | .balance b e => (matchbalance src s b e).elim fail rest
  | .frontier test => if Lua.frontier src s test then rest s else fail
  | .backReference digit => fun ms =>
      match checkCapture ms digit with
      | .ok capture => (matchCapture src s capture).elim fail rest ms
      | .error message => .error message
  | .atEnd => if s = src.length then rest s else fail

/-- All that an item and what follows it can come to. -/
def Item.outcomes (src : Bytes) (rest : Nat → MatchState → List (Nat × MatchState)) (item : Item) (s : Nat)
    (ms : MatchState) : List (Nat × MatchState) :=
  match item with
  | .single test repeats =>
      let count := ((src.drop s).takeWhile test).length
      match repeats with
      | .once => if 1 ≤ count then rest (s + 1) ms else []
      | .optional => (if 1 ≤ count then rest (s + 1) ms else []) ++ rest s ms
      | .many => (List.range (count + 1)).reverse.flatMap fun i => rest (s + i) ms
      | .manyOnce => (List.range count).reverse.flatMap fun i => rest (s + 1 + i) ms
      | .fewest => (List.range (count + 1)).flatMap fun i => rest (s + i) ms
  | .openCapture => rest s (ms ++ [{ init := s, len := .unfinished }])
  | .positionCapture => rest s (ms ++ [{ init := s, len := .position }])
  | .closeCapture => (captureToClose ms ms.length).elim [] fun l => rest s (Lua.closeCapture s l ms)
  | .balance b e => (matchbalance src s b e).elim [] fun s => rest s ms
  | .frontier test => if Lua.frontier src s test then rest s ms else []
  | .backReference digit =>
      (ms[digit.toNat - 49]?.bind (matchCapture src s)).elim [] fun s => rest s ms
  | .atEnd => if s = src.length then rest s ms else []

def outcomes (src : Bytes) : List Item → Nat → MatchState → List (Nat × MatchState)
  | [] => fun s ms => [(s, ms)]
  | item :: items => item.outcomes src (outcomes src items)

/-- The state of a capture as the pattern tells it before any string is matched. -/
inductive Status where
  | unfinished
  | position
  | finished
deriving DecidableEq

def CaptureLen.status : CaptureLen → Status
  | .unfinished => .unfinished
  | .position => .position
  | .bytes _ => .finished

def statuses (ms : MatchState) : List Status := ms.map fun capture => capture.len.status

def lastUnfinished (st : List Status) : Nat → Option Nat
  | 0 => none
  | level + 1 => if st[level]? = some .unfinished then some level else lastUnfinished st level

/-- The captures behind an item; none where the item does not fit those before it. -/
def Item.check (st : List Status) : Item → Option (List Status)
  | .openCapture => if st.length < maxCaptures then some (st ++ [.unfinished]) else none
  | .positionCapture => if st.length < maxCaptures then some (st ++ [.position]) else none
  | .closeCapture => (lastUnfinished st st.length).map fun l => st.set l .finished
  | .backReference digit =>
      if 49 ≤ digit ∧ st[digit.toNat - 49]?.any (· ≠ .unfinished) then some st else none
  | _ => some st

def wellFormed : List Item → List Status → Bool
  | [], st => .unfinished ∉ st
  | item :: items, st => (item.check st).any (wellFormed items)

theorem matchAt_cons {src p : Bytes} {c : UInt8} {item : Item} {rest : { rest : Bytes // rest.length ≤ p.length }}
    (next : nextItem c p = .ok (item, rest)) (s : Nat) :
    matchAt src (c :: p) s = item.run src (matchAt src rest.val) s := by
  rw [matchAt.eq_def]
  dsimp only
  unfold nextItem at next
  by_cases opening : c = 40
  · rw [if_pos opening] at next ⊢
    by_cases position : p.head? = some 41
    · rw [if_pos position] at next ⊢
      cases next
      rfl
    · rw [if_neg position] at next ⊢
      cases next
      rfl
  rw [if_neg opening] at next ⊢
  by_cases closing : c = 41
  · rw [if_pos closing] at next ⊢
    cases next
    rfl
  rw [if_neg closing] at next ⊢
  by_cases balanced : c = lEsc ∧ p.head? = some 98
  · rw [if_pos balanced] at next ⊢
    split at next
    · cases next
      rfl
    · cases next
  rw [if_neg balanced] at next ⊢
  by_cases border : c = lEsc ∧ p.head? = some 102
  · rw [if_pos border] at next ⊢
    by_cases set : p.tail.head? = some 91
    · rw [if_pos set] at next ⊢
      cases ended : classend 91 p.tail.tail with
      | error message =>
          rw [ended] at next
          cases next
      | ok ep =>
          rw [ended] at next
          cases next
          rfl
    · rw [if_neg set] at next
      cases next
  rw [if_neg border] at next ⊢
  by_cases reference : c = lEsc ∧ p.head?.any isdigit = true
  · rw [if_pos reference] at next ⊢
    cases next
    rfl
  rw [if_neg reference] at next ⊢
  by_cases last : c = 36 ∧ p = []
  · rw [if_pos last] at next ⊢
    cases next
    unfold Item.run
    dsimp only
    rw [matchAt.eq_def]
  rw [if_neg last] at next ⊢
  cases ended : classend c p with
  | error message =>
      rw [ended] at next
      cases next
  | ok ep =>
      rw [ended] at next
      cases next
      unfold Item.run repetition
      dsimp only
      split_ifs <;> rfl

variable {src : Bytes} {rest : Nat → Matcher} {outs : Nat → MatchState → List (Nat × MatchState)} {s : Nat}
  {ms : MatchState} {st : List Status} {test : UInt8 → Bool}

section Captures

theorem captureToClose_eq (ms : MatchState) (level : Nat) :
    captureToClose ms level = lastUnfinished (statuses ms) level := by
  induction level with
  | zero => rfl
  | succ level ih =>
      have same : ms[level]?.map Capture.len = some .unfinished ↔ (statuses ms)[level]? = some .unfinished := by
        rw [statuses, List.getElem?_map]
        cases ms[level]? with
        | none => simp
        | some capture => cases capture with | mk init len => cases len <;> simp [CaptureLen.status]
      rw [captureToClose, lastUnfinished, ih]
      exact if_congr same rfl rfl

theorem captureToClose_eq_some {level l : Nat} (found : captureToClose ms level = some l) :
    ∃ capture, ms[l]? = some capture ∧ capture.len = .unfinished := by
  induction level with
  | zero => cases found
  | succ level ih =>
      rw [captureToClose] at found
      split_ifs at found with here
      · cases found
        exact Option.map_eq_some_iff.mp here
      · exact ih found

/-- The undoing of `end_capture`. -/
theorem reopen_close {l : Nat} (found : captureToClose ms ms.length = some l) :
    reopenCapture l (closeCapture s l ms) = ms := by
  obtain ⟨capture, here, unfinished⟩ := captureToClose_eq_some found
  apply List.ext_getElem?
  intro i
  rw [reopenCapture, closeCapture, List.getElem?_modify, List.getElem?_modify]
  by_cases same : l = i
  · subst same
    rw [here, ← unfinished]
    simp
  · simp [same]

theorem finds_startCapture {what : CaptureLen} {search : Matcher} {found : List (Nat × MatchState)}
    (room : ms.length < maxCaptures) (onward : Finds search (ms ++ [{ init := s, len := what }]) found) :
    Finds (startCapture s what search) ms found := by
  have undone : List.dropLast (ms ++ [{ init := s, len := what }]) = ms := List.dropLast_concat
  rw [Finds, startCapture, if_neg (Nat.not_le_of_lt room)]
  exact @Finds.within Bytes MatchState Nat search ms found (· ++ [{ init := s, len := what }]) List.dropLast undone onward

theorem statuses_close (l : Nat) : statuses (closeCapture s l ms) = (statuses ms).set l .finished := by
  apply List.ext_getElem?
  intro i
  rw [statuses, closeCapture, List.getElem?_map, List.getElem?_modify, List.getElem?_set, statuses, List.getElem?_map]
  by_cases same : l = i
  · subst same
    by_cases inside : l < ms.length <;> simp [inside, CaptureLen.status]
  · simp [same]

theorem checkCapture_eq {digit : UInt8} (high : 49 ≤ digit)
    (known : (statuses ms)[digit.toNat - 49]?.any (· ≠ .unfinished) = true) :
    ∃ capture, ms[digit.toNat - 49]? = some capture ∧ checkCapture ms digit = .ok capture := by
  rw [statuses, List.getElem?_map] at known
  cases here : ms[digit.toNat - 49]? with
  | none => simp [here] at known
  | some capture =>
      refine ⟨capture, rfl, ?_⟩
      have open_ : capture.len ≠ .unfinished := by
        intro unfinished
        simp [here, unfinished, CaptureLen.status] at known
      have low : ¬ digit < 49 := by
        rw [UInt8.not_lt]
        exact high
      rw [checkCapture, here]
      exact if_neg (by simp [open_, low])

end Captures

section Single

theorem any_getElem?_eq : (src[s]?.any test = true) ↔ 1 ≤ ((src.drop s).takeWhile test).length := by
  rw [← List.head?_drop]
  cases src.drop s with
  | nil => simp
  | cons byte more =>
      cases passes : test byte <;> simp [passes]

theorem takeWhile_length_succ (here : src[s]?.any test = true) :
    ((src.drop s).takeWhile test).length = ((src.drop (s + 1)).takeWhile test).length + 1 := by
  rw [← List.head?_drop] at here
  rw [← List.tail_drop]
  cases start : src.drop s with
  | nil => simp [start] at here
  | cons byte more =>
      rw [start] at here
      have passes : test byte = true := by simpa using here
      simp [passes]

theorem finds_maxExpand (onward : ∀ s, Finds (rest s) ms (outs s ms)) :
    Finds (maxExpand src test s rest) ms
      ((List.range (((src.drop s).takeWhile test).length + 1)).reverse.flatMap fun i => outs (s + i) ms) :=
  @finds_downward Bytes MatchState Nat ms rest (fun s => outs s ms) s _ fun i _ => onward (s + i)

theorem finds_minExpand (onward : ∀ s, Finds (rest s) ms (outs s ms)) (left : Bytes) (s : Nat) :
    Finds (minExpand test rest left s) ms
      ((List.range ((left.takeWhile test).length + 1)).flatMap fun i => outs (s + i) ms) := by
  induction left generalizing s with
  | nil => simpa [minExpand] using onward s
  | cons byte more ih =>
      rw [minExpand, List.takeWhile_cons]
      cases passes : test byte with
      | false => simpa using (onward s).orElse finds_fail
      | true =>
          have later := (onward s).orElse (ih (s + 1))
          rw [if_pos rfl, if_pos rfl, List.length_cons, List.range_succ_eq_map, List.flatMap_cons, List.flatMap_map]
          simpa only [Nat.add_zero, Nat.succ_eq_add_one, Nat.add_assoc, Nat.add_comm 1] using later

/-- The first step of an item that matches one byte. -/
theorem finds_once (onward : ∀ s, Finds (rest s) ms (outs s ms)) :
    Finds (if src[s]?.any test then rest (s + 1) else fail) ms
      (if 1 ≤ ((src.drop s).takeWhile test).length then outs (s + 1) ms else []) := by
  by_cases here : src[s]?.any test = true
  · rw [if_pos here, if_pos (any_getElem?_eq.mp here)]
    exact onward (s + 1)
  · rw [if_neg here, if_neg (mt any_getElem?_eq.mpr here)]
    exact finds_fail

theorem finds_single (repeats : Repeats) (onward : ∀ s, Finds (rest s) ms (outs s ms)) :
    Finds ((Item.single test repeats).run src rest s) ms ((Item.single test repeats).outcomes src outs s ms) := by
  cases repeats with
  | once => exact finds_once onward
  | optional => exact (finds_once onward).orElse (onward s)
  | many => exact finds_maxExpand onward
  | manyOnce =>
      unfold Item.run Item.outcomes
      dsimp only
      by_cases here : src[s]?.any test = true
      · rw [if_pos here, takeWhile_length_succ here]
        exact finds_maxExpand onward
      · have none : ((src.drop s).takeWhile test).length = 0 := by
          have few := mt any_getElem?_eq.mpr here
          omega
        rw [if_neg here, none]
        exact finds_fail
  | fewest => exact finds_minExpand onward (src.drop s) s

end Single

/-- An item that fits the captures before it raises no error, comes to the first of its outcomes
and undoes what it did where it has none. -/
theorem Item.finds {item : Item} {after : List Status} (checked : item.check (statuses ms) = some after)
    (onward : ∀ s ms, statuses ms = after → Finds (rest s) ms (outs s ms)) :
    Finds (item.run src rest s) ms (item.outcomes src outs s ms) := by
  cases item with
  | single test repeats =>
      cases checked
      exact finds_single repeats fun s => onward s ms rfl
  | openCapture | positionCapture =>
      simp only [Item.check, Option.ite_none_right_eq_some, Option.some.injEq] at checked
      obtain ⟨room, rfl⟩ := checked
      rw [statuses, List.length_map] at room
      apply finds_startCapture room
      apply onward
      rw [statuses, List.map_append]
      rfl
  | closeCapture =>
      rw [Item.check, Option.map_eq_some_iff] at checked
      obtain ⟨l, open_, rfl⟩ := checked
      have found : captureToClose ms ms.length = some l := by
        rw [captureToClose_eq, ← open_, statuses, List.length_map]
      unfold Item.run endCapture Item.outcomes
      dsimp only
      rw [Finds, found, Option.elim_some]
      apply Finds.within (reopen_close found)
      exact onward s _ (statuses_close l)
  | balance b e =>
      cases checked
      unfold Item.run Item.outcomes
      dsimp only
      cases matchbalance src s b e with
      | none => exact finds_fail
      | some ended => exact onward ended ms rfl
  | frontier test =>
      cases checked
      unfold Item.run Item.outcomes
      dsimp only
      split_ifs
      · exact onward s ms rfl
      · exact finds_fail
  | backReference digit =>
      simp only [Item.check, Option.ite_none_right_eq_some, Option.some.injEq] at checked
      obtain ⟨⟨high, known⟩, rfl⟩ := checked
      obtain ⟨capture, here, good⟩ := checkCapture_eq high known
      unfold Item.run Item.outcomes
      dsimp only
      rw [Finds, good, here, Option.bind_some]
      dsimp only
      cases matchCapture src s capture with
      | none => rfl
      | some ended => exact onward ended ms rfl
  | atEnd =>
      cases checked
      unfold Item.run Item.outcomes
      dsimp only
      split_ifs
      · exact onward s ms rfl
      · exact finds_fail

theorem items_cons_eq_ok {c : UInt8} {p : Bytes} {all : List Item} (parsed : items (c :: p) = .ok all) :
    ∃ item rest more, nextItem c p = .ok (item, rest) ∧ items rest.val = .ok more ∧ all = item :: more := by
  rw [items] at parsed
  cases next : nextItem c p with
  | error message => simp [next] at parsed
  | ok found =>
      obtain ⟨item, rest⟩ := found
      rw [next] at parsed
      dsimp only at parsed
      cases onward : items rest.val with
      | error message =>
          rw [onward] at parsed
          cases parsed
      | ok more =>
          rw [onward] at parsed
          cases parsed
          exact ⟨item, rest, more, rfl, onward, rfl⟩

theorem wellFormed_cons {item : Item} {more : List Item} (formed : wellFormed (item :: more) st = true) :
    ∃ after, item.check st = some after ∧ wellFormed more after = true := by
  rw [wellFormed, Option.any_eq_true] at formed
  exact formed

theorem items_nil {p : Bytes} (parsed : items p = .ok []) : p = [] := by
  cases p with
  | nil => rfl
  | cons c p =>
      obtain ⟨_, _, _, _, _, split⟩ := items_cons_eq_ok parsed
      cases split

/-- `match` computes the meaning of the pattern. -/
theorem finds_matchAt {p : Bytes} {all : List Item} (parsed : items p = .ok all)
    (formed : wellFormed all (statuses ms) = true) (s : Nat) :
    Finds (matchAt src p s) ms (outcomes src all s ms) := by
  induction all generalizing p s ms with
  | nil =>
      rw [items_nil parsed, matchAt.eq_def]
      exact finds_succeed s
  | cons item more ih =>
      cases p with
      | nil =>
          rw [items] at parsed
          cases parsed
      | cons c p =>
          obtain ⟨first, rest, others, next, onward, split⟩ := items_cons_eq_ok parsed
          cases split
          obtain ⟨after, checked, formedToo⟩ := wellFormed_cons formed
          rw [matchAt_cons next]
          apply Item.finds checked
          intro s ms same
          exact ih onward (by rw [same]; exact formedToo) s

section Bounds

/-- A place in the string, and captures that lie before it. -/
structure Bounded (src : Bytes) (s : Nat) (ms : MatchState) : Prop where
  inside : s ≤ src.length
  init : ∀ capture ∈ ms, capture.init ≤ s
  len : ∀ capture ∈ ms, ∀ len, capture.len = .bytes len → capture.init + len ≤ s

theorem Bounded.mono {later : Nat} (bounded : Bounded src s ms) (onward : s ≤ later) (inside : later ≤ src.length) :
    Bounded src later ms where
  inside := inside
  init := fun capture member => (bounded.init capture member).trans onward
  len := fun capture member len same => (bounded.len capture member len same).trans onward

theorem Bounded.append (bounded : Bounded src s ms) {what : CaptureLen} (open_ : ∀ len, what ≠ .bytes len) :
    Bounded src s (ms ++ [{ init := s, len := what }]) where
  inside := bounded.inside
  init := by
    intro capture member
    rcases List.mem_append.mp member with old | new
    · exact bounded.init capture old
    · rw [List.mem_singleton.mp new]
  len := by
    intro capture member len same
    rcases List.mem_append.mp member with old | new
    · exact bounded.len capture old len same
    · rw [List.mem_singleton.mp new] at same
      exact absurd same (open_ len)

theorem Bounded.close (bounded : Bounded src s ms) (l : Nat) : Bounded src s (closeCapture s l ms) := by
  have member : ∀ capture ∈ closeCapture s l ms, capture ∈ ms ∨
      ∃ old ∈ ms, capture = { old with len := .bytes (s - old.init) } := by
    intro capture inside
    obtain ⟨i, found⟩ := List.getElem?_of_mem inside
    rw [closeCapture, List.getElem?_modify] at found
    cases here : ms[i]? with
    | none => simp [here] at found
    | some old =>
        rw [here, Option.map_eq_map, Option.map_some, Option.some.injEq] at found
        split_ifs at found
        · exact .inr ⟨old, List.mem_of_getElem? here, found.symm⟩
        · rw [← found]
          exact .inl (List.mem_of_getElem? here)
  constructor
  case inside => exact bounded.inside
  case init =>
    intro capture inside
    rcases member capture inside with old | ⟨old, here, rfl⟩
    · exact bounded.init capture old
    · exact bounded.init old here
  case len =>
    intro capture inside len same
    rcases member capture inside with old | ⟨old, here, rfl⟩
    · exact bounded.len capture old len same
    · have before := bounded.init old here
      simp only [CaptureLen.bytes.injEq] at same
      dsimp only
      omega

theorem balanceFrom_bounds {b e : UInt8} {left : Bytes} {cont ended : Nat}
    (found : balanceFrom b e left s cont = some ended) : s < ended ∧ ended ≤ s + left.length := by
  fun_induction balanceFrom b e left s cont with
  | case1 => cases found
  | case2 => cases found; simp
  | case3 more s cont _ ih | case4 byte more s cont _ ih =>
      obtain ⟨low, high⟩ := ih found
      rw [List.length_cons]
      omega

theorem matchbalance_bounds {b e : UInt8} {ended : Nat} (found : matchbalance src s b e = some ended) :
    s < ended ∧ ended ≤ src.length := by
  unfold matchbalance at found
  split_ifs at found with here
  have inside : s < src.length := (List.getElem?_eq_some_iff.mp here).1
  obtain ⟨low, high⟩ := balanceFrom_bounds found
  rw [List.length_drop] at high
  omega

theorem takeWhile_bound (inside : s ≤ src.length) : s + ((src.drop s).takeWhile test).length ≤ src.length := by
  have few := (List.takeWhile_prefix test (l := src.drop s)).length_le
  rw [List.length_drop] at few
  omega

theorem mem_outcomes_single {test : UInt8 → Bool} {repeats : Repeats} {found : Nat × MatchState}
    (member : found ∈ (Item.single test repeats).outcomes src outs s ms) :
    ∃ i ≤ ((src.drop s).takeWhile test).length, found ∈ outs (s + i) ms := by
  unfold Item.outcomes at member
  cases repeats with
  | once =>
      dsimp only at member
      split_ifs at member with some_
      · exact ⟨1, some_, member⟩
      · cases member
  | optional =>
      rcases List.mem_append.mp member with one | none
      · split_ifs at one with some_
        · exact ⟨1, some_, one⟩
        · cases one
      · exact ⟨0, Nat.zero_le _, none⟩
  | many =>
      obtain ⟨i, few, onward⟩ := List.mem_flatMap.mp member
      rw [List.mem_reverse, List.mem_range] at few
      exact ⟨i, by omega, onward⟩
  | manyOnce =>
      obtain ⟨i, few, onward⟩ := List.mem_flatMap.mp member
      rw [List.mem_reverse, List.mem_range] at few
      exact ⟨1 + i, by omega, by rwa [← Nat.add_assoc]⟩
  | fewest =>
      obtain ⟨i, few, onward⟩ := List.mem_flatMap.mp member
      rw [List.mem_range] at few
      exact ⟨i, by omega, onward⟩

theorem matchCapture_bounds {capture : Capture} {ended : Nat} (inside : s ≤ src.length)
    (matched : matchCapture src s capture = some ended) : s ≤ ended ∧ ended ≤ src.length := by
  unfold matchCapture at matched
  split at matched
  · split_ifs at matched with same
    cases matched
    omega
  · cases matched

/-- What an outcome of an item goes on from. -/
theorem Item.mem_outcomes {item : Item} {found : Nat × MatchState} (bounded : Bounded src s ms)
    (member : found ∈ item.outcomes src outs s ms) :
    ∃ next after, s ≤ next ∧ Bounded src next after ∧ found ∈ outs next after ∧
      ∀ st, item.check (statuses ms) = some st → statuses after = st := by
  cases item with
  | single test repeats =>
      have bound := @takeWhile_bound src s test bounded.inside
      obtain ⟨i, few, onward⟩ := mem_outcomes_single member
      refine ⟨s + i, ms, Nat.le_add_right s i, bounded.mono (Nat.le_add_right s i) (by omega), onward, ?_⟩
      intro st checked
      exact Option.some.inj checked
  | openCapture | positionCapture =>
      refine ⟨s, _, Nat.le_refl s, bounded.append (by simp), member, ?_⟩
      intro st checked
      simp only [Item.check, Option.ite_none_right_eq_some, Option.some.injEq] at checked
      rw [← checked.2, statuses, List.map_append]
      rfl
  | closeCapture =>
      unfold Item.outcomes at member
      cases found : captureToClose ms ms.length with
      | none => simp [found] at member
      | some l =>
          rw [found] at member
          refine ⟨s, _, Nat.le_refl s, bounded.close l, member, ?_⟩
          intro st checked
          have same := captureToClose_eq ms ms.length
          rw [Item.check, statuses, List.length_map, ← statuses, ← same, found, Option.map_some] at checked
          rw [statuses_close]
          exact Option.some.inj checked
  | balance b e =>
      unfold Item.outcomes at member
      dsimp only at member
      cases found : matchbalance src s b e with
      | none => simp [found] at member
      | some ended =>
          rw [found] at member
          obtain ⟨low, high⟩ := matchbalance_bounds found
          exact ⟨ended, ms, low.le, bounded.mono low.le high, member, fun st checked => Option.some.inj checked⟩
  | frontier test =>
      unfold Item.outcomes at member
      dsimp only at member
      split_ifs at member
      · exact ⟨s, ms, Nat.le_refl s, bounded, member, fun st checked => Option.some.inj checked⟩
      · cases member
  | backReference digit =>
      unfold Item.outcomes at member
      dsimp only at member
      cases found : ms[digit.toNat - 49]?.bind (matchCapture src s) with
      | none => simp [found] at member
      | some ended =>
          rw [found] at member
          obtain ⟨capture, _, matched⟩ := Option.bind_eq_some_iff.mp found
          have within := matchCapture_bounds bounded.inside matched
          refine ⟨ended, ms, within.1, bounded.mono within.1 within.2, member, ?_⟩
          intro st checked
          simp only [Item.check, Option.ite_none_right_eq_some, Option.some.injEq] at checked
          exact checked.2
  | atEnd =>
      unfold Item.outcomes at member
      dsimp only at member
      split_ifs at member
      · exact ⟨s, ms, Nat.le_refl s, bounded, member, fun st checked => Option.some.inj checked⟩
      · cases member

/-- Every outcome lies in the string, with all its captures finished and inside. -/
theorem mem_outcomes_bounds {all : List Item} {ended : Nat} {after : MatchState} (bounded : Bounded src s ms)
    (formed : wellFormed all (statuses ms) = true) (member : (ended, after) ∈ outcomes src all s ms) :
    s ≤ ended ∧ Bounded src ended after ∧ .unfinished ∉ statuses after := by
  induction all generalizing s ms with
  | nil =>
      cases List.mem_singleton.mp member
      exact ⟨Nat.le_refl _, bounded, of_decide_eq_true formed⟩
  | cons item more ih =>
      obtain ⟨next, between, onward, boundedNext, rest, agree⟩ := Item.mem_outcomes bounded member
      obtain ⟨st, checked, formedNext⟩ := wellFormed_cons formed
      obtain ⟨later, result⟩ := ih boundedNext (by rw [agree st checked]; exact formedNext) rest
      exact ⟨onward.trans later, result⟩

end Bounds

end GameServer.Lua
