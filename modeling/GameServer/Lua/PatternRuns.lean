import GameServer.Lua.PatternFind

namespace GameServer.Lua

open Backtrack

/-! `string.gmatch` from call to call, and `string.gsub`. -/

/-- The calls of the function `gmatch` returns, up to the one that returns nothing. -/
inductive GmatchRun (src p : Bytes) : Nat → List (List Value) → Prop
  | done {start : Nat} (last : gmatchAux src p start = .ok none) : GmatchRun src p start []
  | call {start later : Nat} {values : List Value} {rest : List (List Value)}
      (here : gmatchAux src p start = .ok (some (values, later))) (onward : GmatchRun src p later rest) :
      GmatchRun src p start (values :: rest)

/-- The third argument of `gsub`, once its type is checked.  What a function does, or a metamethod
of a table, depends on the state of the Lua code and changes it, and may end in an error. -/
inductive Replacement (σ : Type) where
  | news (text : Bytes)
  | function (call : List Value → EStateM Value σ Value)
  | table (get : Value → EStateM Value σ Value)

section Source

variable {σ : Type} (number2str : LuaNumber → Bytes) (src p : Bytes) (anchor : Bool) (maxS : Int)

/-- `luaL_error` with this message where there is one. -/
def orError : Except Bytes α → EStateM Value σ α
  | .ok value => pure value
  | .error message => throw (.string message)

/-- `luaL_addvalue` of what `lua_isstring` accepts. -/
def addedText : Value → Bytes
  | .string text => text
  | .number number => number2str number
  | _ => []

/-- The loop of `add_s`.  An escape at the end of the text adds its terminator. -/
def addS (ms : MatchState) (s e : Nat) : Bytes → Except Bytes Bytes
  | [] => .ok []
  | [c] => .ok [if c = lEsc then 0 else c]
  | c :: next :: news =>
      if c ≠ lEsc then (addS ms s e (next :: news)).map (c :: ·)
      else if isdigit next = false then (addS ms s e news).map (next :: ·)
      else if next = 48 then (addS ms s e news).map (slice src s e ++ ·)
      else do
        let capture ← pushOnecapture src ms (next.toNat - 49) s e
        let rest ← addS ms s e news
        return addedText number2str capture ++ rest

/-- The end of `add_value`, where the replacement is a value. -/
def addResult (s e : Nat) (value : Value) : EStateM Value σ Bytes :=
  if value.truthy = false then return slice src s e
  else if value.isString then return addedText number2str value
  else throw (.string (lit ("invalid replacement value (a " ++ value.typename ++ ")")))

def addValue (repl : Replacement σ) (ms : MatchState) (s e : Nat) : EStateM Value σ Bytes :=
  match repl with
  | .news text => orError (addS number2str src ms s e text)
  | .function call => do
      let captures ← orError (pushCaptures src ms (some (s, e)))
      addResult number2str src s e (← call captures)
  | .table get => do
      let capture ← orError (pushOnecapture src ms 0 s e)
      addResult number2str src s e (← get capture)

/-- The loop of `str_gsub`, with what is left of the string, the substitutions made and what is
in the buffer; at the end of the string no match goes any further. -/
def gsubLoop (add : MatchState → Nat → Nat → EStateM Value σ Bytes) (left : Bytes) (s n : Nat) (b : Bytes) :
    EStateM Value σ (Bytes × Nat) :=
  if (n : Int) < maxS then do
    let (found, ms) ← orError (matchAt src p s [])
    let (b, n) ← match found with
      | none => pure (b, n)
      | some e => pure (b ++ (← add ms s e), n + 1)
    match left with
    | [] => return (b, n)
    | c :: left =>
        let e := found.getD s
        let rest := if s < e then left.drop (e - s - 1) else left
        let s' := if s < e then e else s + 1
        let b := if s < e then b else b ++ [c]
        if anchor then return (b ++ rest, n) else gsubLoop add rest s' n b
  else return (b ++ left, n)
termination_by left.length
decreasing_by
  split <;> simp only [List.length_drop, List.length_cons] <;> omega

end Source

/-- `str_gsub` of a string and a pattern: the result and the number of substitutions. -/
def strGsub {σ : Type} (number2str : LuaNumber → Bytes) (src p : Bytes) (repl : Replacement σ) (maxS : Int) :
    EStateM Value σ (Bytes × Nat) :=
  gsubLoop src (body (cstr p)) ((cstr p).head? = some 94) maxS (addValue number2str src repl) src 0 0 []

/-- Where a match begins and ends, and its captures. -/
abbrev Span := Nat × Nat × MatchState

/-- The successive matches from `start` on: each the first that is left, none begun inside
another one. -/
inductive Spans (src : Bytes) (all : List Item) : Nat → List Span → Prop
  | done {start : Nat} (absent : ∀ i, start ≤ i → i ≤ src.length → outcomes src all i [] = []) :
      Spans src all start []
  | span {start s e : Nat} {ms : MatchState} {rest : List Span} (low : start ≤ s)
      (inside : s ≤ src.length) (absent : ∀ i, start ≤ i → i < s → outcomes src all i [] = [])
      (best : (outcomes src all s []).head? = some (e, ms))
      (onward : Spans src all (if e = s then e + 1 else e) rest) : Spans src all start ((s, e, ms) :: rest)

/-- Matches from left to right, each the preferred one at its place: no place from `start` on
where the pattern matches is left out, but those inside an earlier match. -/
structure Successive (src : Bytes) (all : List Item) (start : Nat) (spans : List Span) : Prop where
  inside : ∀ span ∈ spans, start ≤ span.1 ∧ span.1 ≤ src.length
  preferred : ∀ span ∈ spans, (outcomes src all span.1 []).head? = some span.2
  disjoint : spans.Pairwise fun span later => span.1 < later.1 ∧ span.2.1 ≤ later.1
  complete : ∀ i, start ≤ i → i ≤ src.length → outcomes src all i [] ≠ [] →
    ∃ span ∈ spans, span.1 = i ∨ span.1 < i ∧ i < span.2.1

/-- The spans with what is added for each, asked for one after the other. -/
def addAll {σ : Type} (add : MatchState → Nat → Nat → EStateM Value σ Bytes) :
    List Span → EStateM Value σ (List (Span × Bytes))
  | [] => return []
  | span :: rest => do
      let text ← add span.2.2 span.1 span.2.1
      let woven ← addAll add rest
      return (span, text) :: woven

/-- The string from a place on, with each span replaced by its text. -/
def weave (src : Bytes) : Nat → List (Span × Bytes) → Bytes
  | s, [] => src.drop s
  | s, (span, text) :: rest => slice src s span.1 ++ text ++ weave src span.2.1 rest

variable {src p : Bytes} {all : List Item} {spans : List Span} {s : Nat}

theorem firstMatch_cases (src : Bytes) (all : List Item) (left s1 : Nat) :
    (firstMatch src all left s1 = none ∧ ∀ i, s1 ≤ i → i ≤ s1 + left → outcomes src all i [] = []) ∨
    ∃ s e ms, firstMatch src all left s1 = some (s, e, ms) ∧ s1 ≤ s ∧ s ≤ s1 + left ∧
      (∀ i, s1 ≤ i → i < s → outcomes src all i [] = []) ∧ (outcomes src all s []).head? = some (e, ms) := by
  induction left generalizing s1 with
  | zero =>
      rw [firstMatch, List.range'_succ, List.findSome?_cons]
      cases best : (outcomes src all s1 []).head? with
      | none =>
          refine .inl ⟨rfl, ?_⟩
          intro i low high
          rw [show i = s1 by omega]
          exact List.head?_eq_none_iff.mp best
      | some found => exact .inr ⟨s1, found.1, found.2, rfl, le_rfl, by omega, by omega, best⟩
  | succ left ih =>
      rw [firstMatch, List.range'_succ, List.findSome?_cons]
      cases best : (outcomes src all s1 []).head? with
      | none =>
          have empty : outcomes src all s1 [] = [] := List.head?_eq_none_iff.mp best
          rcases ih (s1 + 1) with ⟨none, absent⟩ | ⟨s, e, ms, found, low, high, before, first⟩
          · refine .inl ⟨none, ?_⟩
            intro i low high
            by_cases here : i = s1
            · rw [here, empty]
            · exact absent i (by omega) (by omega)
          · refine .inr ⟨s, e, ms, found, by omega, by omega, ?_, first⟩
            intro i low high
            by_cases here : i = s1
            · rw [here, empty]
            · exact before i (by omega) high
      | some found => exact .inr ⟨s1, found.1, found.2, rfl, le_rfl, by omega, by omega, best⟩

/-- What an outcome from a place without captures says of its end. -/
theorem outcome_bounds {e : Nat} {ms : MatchState} (formed : wellFormed all [] = true) (inside : s ≤ src.length)
    (best : (outcomes src all s []).head? = some (e, ms)) :
    s ≤ e ∧ Bounded src e ms ∧ .unfinished ∉ statuses ms := by
  have start : Bounded src s [] :=
    ⟨inside, fun _ member => absurd member List.not_mem_nil, fun _ member => absurd member List.not_mem_nil⟩
  exact mem_outcomes_bounds start formed (List.mem_of_head? best)

namespace Spans

theorem span_bounds (formed : wellFormed all [] = true) {start : Nat} (matched : Spans src all start spans)
    {span : Span} (member : span ∈ spans) :
    start ≤ span.1 ∧ span.1 ≤ span.2.1 ∧ Bounded src span.2.1 span.2.2 ∧ .unfinished ∉ statuses span.2.2 ∧
      (outcomes src all span.1 []).head? = some span.2 := by
  induction matched with
  | done absent => cases member
  | span low inside absent best onward ih =>
      obtain ⟨after, bounded, finished⟩ := outcome_bounds formed inside best
      rcases List.mem_cons.mp member with rfl | later
      · exact ⟨low, after, bounded, finished, best⟩
      · obtain ⟨behind, rest⟩ := ih later
        refine ⟨?_, rest⟩
        split_ifs at behind <;> omega

theorem inside {start : Nat} (matched : Spans src all start spans) {span : Span} (member : span ∈ spans) :
    span.1 ≤ src.length := by
  induction matched with
  | done absent => cases member
  | span low within absent best onward ih =>
      rcases List.mem_cons.mp member with rfl | later
      · exact within
      · exact ih later

theorem disjoint (formed : wellFormed all [] = true) {start : Nat} (matched : Spans src all start spans) :
    spans.Pairwise fun span later => span.1 < later.1 ∧ span.2.1 ≤ later.1 := by
  induction matched with
  | done absent => exact List.Pairwise.nil
  | span low inside absent best onward ih =>
      obtain ⟨after, _⟩ := outcome_bounds formed inside best
      refine List.Pairwise.cons ?_ ih
      intro later member
      have behind := (onward.span_bounds formed member).1
      split_ifs at behind <;> constructor <;> dsimp only <;> omega

theorem complete (formed : wellFormed all [] = true) {start i : Nat} (matched : Spans src all start spans)
    (low : start ≤ i) (high : i ≤ src.length) (found : outcomes src all i [] ≠ []) :
    ∃ span ∈ spans, span.1 = i ∨ span.1 < i ∧ i < span.2.1 := by
  induction matched with
  | done absent => exact absurd (absent i low high) found
  | @span start s e ms rest first inside absent best onward ih =>
      obtain ⟨after, _⟩ := outcome_bounds formed inside best
      by_cases before : i < s
      · exact absurd (absent i low before) found
      by_cases here : i = s
      · exact ⟨_, List.mem_cons_self, .inl here.symm⟩
      by_cases within : i < e
      · exact ⟨_, List.mem_cons_self, .inr ⟨by dsimp only; omega, within⟩⟩
      · obtain ⟨span, member, covers⟩ := ih (by split_ifs <;> omega)
        exact ⟨span, List.mem_cons_of_mem _ member, covers⟩

theorem beyond {start : Nat} (matched : Spans src all start spans) (outside : src.length < start) : spans = [] := by
  cases matched with
  | done absent => rfl
  | span low inside => omega

theorem later {start : Nat} (matched : Spans src all start spans) (absent : outcomes src all start [] = []) :
    Spans src all (start + 1) spans := by
  cases matched with
  | done none => exact .done fun i low high => none i (by omega) high
  | @span _ s e ms rest low inside before best onward =>
      have further : start ≠ s := by
        intro here
        rw [← here, absent] at best
        cases best
      exact .span (by omega) inside (fun i low high => before i (by omega) high) best onward

theorem skip {start : Nat} (matched : Spans src all start spans) (low : start ≤ s)
    (absent : ∀ i, start ≤ i → i < s → outcomes src all i [] = []) : Spans src all s spans := by
  induction s, low using Nat.le_induction with
  | base => exact matched
  | succ s low ih => exact (ih fun i after before => absent i after (by omega)).later (absent s low (by omega))

theorem here {start e : Nat} {ms : MatchState} (matched : Spans src all start spans) (inside : start ≤ src.length)
    (best : (outcomes src all start []).head? = some (e, ms)) :
    ∃ rest, spans = (start, e, ms) :: rest ∧ Spans src all (if e = start then e + 1 else e) rest := by
  cases matched with
  | done absent =>
      rw [absent start le_rfl inside] at best
      cases best
  | @span _ s e' ms' rest low inString before best' onward =>
      have same : start = s := by
        by_contra further
        rw [before start le_rfl (by omega)] at best
        cases best
      subst same
      rw [best] at best'
      cases best'
      exact ⟨rest, rfl, onward⟩

theorem successive (formed : wellFormed all [] = true) {start : Nat} (matched : Spans src all start spans) :
    Successive src all start spans where
  inside := fun _ member => ⟨(matched.span_bounds formed member).1, matched.inside member⟩
  preferred := fun _ member => (matched.span_bounds formed member).2.2.2.2
  disjoint := matched.disjoint formed
  complete := fun _ low high found => matched.complete formed low high found

theorem unique {start : Nat} {others : List Span} (matched : Spans src all start spans)
    (too : Spans src all start others) : spans = others := by
  induction matched generalizing others with
  | @done start absent =>
      cases too with
      | done => rfl
      | span low inside before best onward =>
          rw [absent _ low inside] at best
          cases best
  | @span start s e ms rest low inside before best onward ih =>
      obtain ⟨more, rfl, further⟩ := (too.skip low before).here inside best
      rw [ih further]

end Spans

theorem Spans.of_successive (formed : wellFormed all [] = true) {start : Nat}
    (successive : Successive src all start spans) : Spans src all start spans := by
  induction spans generalizing start with
  | nil =>
      refine .done fun i low high => ?_
      by_contra found
      obtain ⟨span, member, _⟩ := successive.complete i low high found
      cases member
  | cons span rest ih =>
      obtain ⟨s, e, ms⟩ := span
      obtain ⟨low, inside⟩ := successive.inside _ List.mem_cons_self
      obtain ⟨behind, disjoint⟩ := List.pairwise_cons.mp successive.disjoint
      obtain ⟨order, _⟩ := outcome_bounds formed inside (successive.preferred _ List.mem_cons_self)
      refine .span low inside ?_ (successive.preferred _ List.mem_cons_self) (ih ?_)
      · intro i after before
        by_contra found
        obtain ⟨span, member, covers⟩ := successive.complete i after (by omega) found
        rcases List.mem_cons.mp member with rfl | later
        · dsimp only at covers
          omega
        · have further := (behind span later).1
          dsimp only at further
          omega
      · constructor
        · intro span member
          have further := behind span member
          dsimp only at further
          refine ⟨by split_ifs <;> omega, (successive.inside span (List.mem_cons_of_mem _ member)).2⟩
        · exact fun span member => successive.preferred span (List.mem_cons_of_mem _ member)
        · exact disjoint
        · intro i low high found
          obtain ⟨span, member, covers⟩ := successive.complete i (by split_ifs at low <;> omega) high found
          rcases List.mem_cons.mp member with rfl | later
          · dsimp only at covers
            split_ifs at low <;> omega
          · exact ⟨span, later, covers⟩

/-- There is only one list of successive matches. -/
theorem Successive.unique (formed : wellFormed all [] = true) {start : Nat} {others : List Span}
    (successive : Successive src all start spans) (too : Successive src all start others) : spans = others :=
  (Spans.of_successive formed successive).unique (Spans.of_successive formed too)

theorem exists_spans (formed : wellFormed all [] = true) (start : Nat) : ∃ spans, Spans src all start spans := by
  generalize room : src.length + 1 - start = left
  induction left using Nat.strong_induction_on generalizing start with
  | h left ih =>
      by_cases inside : start ≤ src.length
      · rcases firstMatch_cases src all (src.length - start) start with
          ⟨_, absent⟩ | ⟨s, e, ms, _, low, high, before, best⟩
        · exact ⟨[], .done fun i low high => absent i low (by omega)⟩
        · have inString : s ≤ src.length := by omega
          obtain ⟨after, _⟩ := outcome_bounds formed inString best
          obtain ⟨rest, onward⟩ := ih _ (by split_ifs <;> omega) (if e = s then e + 1 else e) rfl
          exact ⟨_, .span low inString before best onward⟩
      · exact ⟨[], .done fun i low high => absurd (low.trans high) inside⟩

section Gmatch

theorem gmatchAux_eq (formed : accepted (cstr p) = true) {start : Nat} (inside : start ≤ src.length) :
    gmatchAux src p start =
      .ok ((firstMatch src (patternItems (cstr p)) (src.length - start) start).map fun span =>
        (answer false src (some span), if span.2.1 = span.1 then span.2.1 + 1 else span.2.1)) := by
  obtain ⟨parsed, formed⟩ := accepted_iff.mp formed
  rw [gmatchAux, if_neg (Nat.not_lt.mpr inside), searchFrom_eq parsed formed]
  cases found : firstMatch src (patternItems (cstr p)) (src.length - start) start with
  | none => rfl
  | some span =>
      obtain ⟨s, e, ms⟩ := span
      obtain ⟨_, _, finished⟩ := firstMatch_bounds formed (by omega) found
      dsimp only
      rw [pushCaptures_eq finished]
      rfl

theorem gmatchRun_of_spans (formed : accepted (cstr p) = true) {start : Nat}
    (matched : Spans src (patternItems (cstr p)) start spans) :
    GmatchRun src p start (spans.map fun span => answer false src (some span)) := by
  induction matched with
  | @done start absent =>
      apply GmatchRun.done
      by_cases inside : start ≤ src.length
      · rw [gmatchAux_eq formed inside]
        rcases firstMatch_cases src (patternItems (cstr p)) (src.length - start) start with
          ⟨none, _⟩ | ⟨s, e, ms, _, low, high, _, best⟩
        · rw [none, Option.map_none]
        · rw [absent s low (by omega)] at best
          cases best
      · rw [gmatchAux, if_pos (Nat.lt_of_not_le inside)]
  | @span start s e ms rest low inside absent best onward ih =>
      refine GmatchRun.call ?_ ih
      rw [gmatchAux_eq formed (low.trans inside)]
      rcases firstMatch_cases src (patternItems (cstr p)) (src.length - start) start with
        ⟨_, none⟩ | ⟨other, e', ms', found, low', high, before, best'⟩
      · rw [none s low (by omega)] at best
        cases best
      · have same : other = s := by
          rcases Nat.lt_trichotomy other s with sooner | same | later
          · rw [absent other low' sooner] at best'
            cases best'
          · exact same
          · rw [before s low later] at best
            cases best
        subst same
        rw [best] at best'
        cases best'
        rw [found]
        rfl

/-- The loop over `string.gmatch` comes to its end, and it meets every place where the pattern
matches, but those inside an earlier match. -/
theorem gmatch_complete (formed : accepted (cstr p) = true) (start : Nat) :
    ∃ spans : List Span, Successive src (patternItems (cstr p)) start spans ∧
      GmatchRun src p start (spans.map fun span => answer false src (some span)) := by
  have wellFormed := (accepted_iff.mp formed).2
  obtain ⟨spans, matched⟩ := @exists_spans src _ wellFormed start
  exact ⟨spans, matched.successive wellFormed, gmatchRun_of_spans formed matched⟩

theorem gmatch_complete_words :
    Successive (lit "a=1, b=2") (patternItems (cstr (lit "(%w)=(%w)"))) 0
        [(0, 3, [⟨0, .bytes 1⟩, ⟨2, .bytes 1⟩]), (5, 8, [⟨5, .bytes 1⟩, ⟨7, .bytes 1⟩])] ∧
      GmatchRun (lit "a=1, b=2") (lit "(%w)=(%w)") 0
        [[.string (lit "a"), .string (lit "1")], [.string (lit "b"), .string (lit "2")]] := by
  obtain ⟨spans, successive, run⟩ := @gmatch_complete (lit "a=1, b=2") (lit "(%w)=(%w)") (by decide +kernel) 0
  have formed : wellFormed (patternItems (cstr (lit "(%w)=(%w)"))) [] = true := by decide +kernel
  have found : Spans (lit "a=1, b=2") (patternItems (cstr (lit "(%w)=(%w)"))) 0
      [(0, 3, [⟨0, .bytes 1⟩, ⟨2, .bytes 1⟩]), (5, 8, [⟨5, .bytes 1⟩, ⟨7, .bytes 1⟩])] :=
    .span le_rfl (by decide) (by decide +kernel) (by decide +kernel)
      (.span (by decide) (by decide) (by decide +kernel) (by decide +kernel) (.done (by decide +kernel)))
  have same := successive.unique formed (found.successive formed)
  subst same
  exact ⟨successive, run⟩

end Gmatch

section Gsub

variable {σ : Type} {add : MatchState → Nat → Nat → EStateM Value σ Bytes} {maxS : Int}
  {woven : List (Span × Bytes)}

theorem slice_self (src : Bytes) (s : Nat) : slice src s s = [] := by
  rw [slice, Nat.sub_self, List.take_zero]

theorem slice_append_drop {e : Nat} (src : Bytes) (order : s ≤ e) : slice src s e ++ src.drop e = src.drop s := by
  rw [slice, ← Nat.add_sub_cancel' order, ← List.drop_drop, Nat.add_sub_cancel_left, List.take_append_drop]

theorem drop_eq_cons {c : UInt8} {left : Bytes} (split : src.drop s = c :: left) :
    src[s]? = some c ∧ src.drop (s + 1) = left := by
  rw [← List.head?_drop, ← List.tail_drop, split]
  exact ⟨rfl, rfl⟩

/-- A byte before all spans stays where it is. -/
theorem weave_cons {c : UInt8} (here : src[s]? = some c) (behind : ∀ entry ∈ woven, s + 1 ≤ entry.1.1) :
    weave src s woven = c :: weave src (s + 1) woven := by
  have start : src.drop s = c :: src.drop (s + 1) := by
    rw [List.drop_eq_getElem?_toList_append, here]
    rfl
  cases woven with
  | nil => rw [weave, weave, start]
  | cons entry rest =>
      obtain ⟨span, text⟩ := entry
      have order : s + 1 ≤ span.1 := behind (span, text) List.mem_cons_self
      have first : slice src s span.1 = c :: slice src (s + 1) span.1 := by
        rw [slice, start, show span.1 - s = (span.1 - (s + 1)) + 1 by omega, List.take_succ_cons, slice]
      rw [weave, weave, first, List.cons_append, List.cons_append]

/-- Texts that are the matches themselves give back the string. -/
theorem weave_slice (ordered : ∀ span ∈ woven.map Prod.fst, s ≤ span.1 ∧ span.1 ≤ span.2.1)
    (disjoint : (woven.map Prod.fst).Pairwise fun span later => span.1 < later.1 ∧ span.2.1 ≤ later.1)
    (same : ∀ entry ∈ woven, entry.2 = slice src entry.1.1 entry.1.2.1) : weave src s woven = src.drop s := by
  induction woven generalizing s with
  | nil => rfl
  | cons entry rest ih =>
      obtain ⟨span, text⟩ := entry
      obtain ⟨before, order⟩ := ordered span List.mem_cons_self
      obtain ⟨behind, disjointRest⟩ := List.pairwise_cons.mp disjoint
      have onward := @ih span.2.1
        (fun later member => ⟨(behind later member).2, (ordered later (List.mem_cons_of_mem _ member)).2⟩)
        disjointRest (fun later member => same later (List.mem_cons_of_mem _ member))
      have whole : text = slice src span.1 span.2.1 := same (span, text) List.mem_cons_self
      rw [weave, whole, onward, List.append_assoc, slice_append_drop src order, slice_append_drop src before]

/-- What is made of the answers need only be known for answers to these spans. -/
theorem addAll_congr {β : Type} {f g : List (Span × Bytes) → β}
    (same : ∀ woven, woven.map Prod.fst = spans → f woven = g woven) :
    f <$> addAll add spans = g <$> addAll add spans := by
  induction spans generalizing f g with
  | nil => rw [addAll, map_pure, map_pure, same [] rfl]
  | cons span rest ih =>
      simp only [addAll, map_bind, map_pure]
      refine bind_congr fun text => ?_
      have onward : ∀ woven, woven.map Prod.fst = rest → f ((span, text) :: woven) = g ((span, text) :: woven) :=
        fun woven answers => same _ (by rw [List.map_cons, answers])
      simpa only [map_eq_pure_bind] using ih onward

section Step

variable {anchor : Bool} {left b : Bytes} {n e : Nat} {ms : MatchState}

theorem gsubLoop_limit (limit : ¬ (n : Int) < maxS) :
    gsubLoop src p anchor maxS add left s n b = pure (b ++ left, n) := by
  rw [gsubLoop.eq_def, if_neg limit]

/-- How the loop goes on where the byte at its place is taken over. -/
def takeByte (src p : Bytes) (anchor : Bool) (maxS : Int) (add : MatchState → Nat → Nat → EStateM Value σ Bytes)
    (left : Bytes) (s n : Nat) (b : Bytes) : EStateM Value σ (Bytes × Nat) :=
  match left with
  | [] => pure (b, n)
  | c :: left =>
      if anchor then pure (b ++ [c] ++ left, n) else gsubLoop src p anchor maxS add left (s + 1) n (b ++ [c])

theorem gsubLoop_none (parsed : items p = .ok all) (formed : wellFormed all [] = true) (limit : (n : Int) < maxS)
    (absent : (outcomes src all s []).head? = none) :
    gsubLoop src p anchor maxS add left s n b = takeByte src p anchor maxS add left s n b := by
  rw [gsubLoop.eq_def, if_pos limit, @finds_matchAt src [] p all parsed formed s, absent]
  cases left <;> simp [takeByte, orError]

/-- The empty match: its answer, and the byte behind it is taken over. -/
theorem gsubLoop_empty (parsed : items p = .ok all) (formed : wellFormed all [] = true) (limit : (n : Int) < maxS)
    (best : (outcomes src all s []).head? = some (s, ms)) :
    gsubLoop src p anchor maxS add left s n b = (do
      let text ← add ms s s
      takeByte src p anchor maxS add left s (n + 1) (b ++ text)) := by
  rw [gsubLoop.eq_def, if_pos limit, @finds_matchAt src [] p all parsed formed s, best]
  cases left <;> simp [takeByte, orError]

/-- A match with bytes: its answer, and the loop goes on behind it. -/
theorem gsubLoop_some (parsed : items p = .ok all) (formed : wellFormed all [] = true) (limit : (n : Int) < maxS)
    (best : (outcomes src all s []).head? = some (e, ms)) (longer : s < e) (inside : e ≤ src.length) :
    gsubLoop src p anchor maxS add (src.drop s) s n b = (do
      let text ← add ms s e
      if anchor then return (b ++ text ++ src.drop e, n + 1)
      else gsubLoop src p anchor maxS add (src.drop e) e (n + 1) (b ++ text)) := by
  rw [gsubLoop.eq_def, if_pos limit, @finds_matchAt src [] p all parsed formed s, best]
  cases split : src.drop s with
  | nil =>
      rw [List.drop_eq_nil_iff] at split
      omega
  | cons c rest =>
      have skipped : rest.drop (e - s - 1) = src.drop e := by
        rw [← (drop_eq_cons split).2, List.drop_drop, show s + 1 + (e - s - 1) = e by omega]
      simp [orError, longer, skipped]

end Step

/-- What the loop makes of the answers to the matches that are left. -/
def replaced (src b : Bytes) (s n : Nat) (spans : List Span) (woven : List (Span × Bytes)) : Bytes × Nat :=
  (b ++ weave src s woven, n + spans.length)

section Replaced

variable {b : Bytes} {n : Nat}

/-- A byte before the matches goes to the buffer. -/
theorem replaced_byte {c : UInt8} (byte : src[s]? = some c) (behind : ∀ span ∈ spans, s + 1 ≤ span.1) :
    replaced src (b ++ [c]) (s + 1) n spans <$> addAll add spans = replaced src b s n spans <$> addAll add spans := by
  apply addAll_congr
  intro woven answers
  have further : ∀ entry ∈ woven, s + 1 ≤ entry.1.1 :=
    fun entry member => behind entry.1 (answers ▸ List.mem_map_of_mem member)
  rw [replaced, replaced, weave_cons byte further, List.append_assoc, List.singleton_append]

/-- The first match is asked for before the others. -/
theorem replaced_match {e : Nat} {ms : MatchState} :
    replaced src b s n ((s, e, ms) :: spans) <$> addAll add ((s, e, ms) :: spans) =
      (do
        let text ← add ms s e
        replaced src (b ++ text) e (n + 1) spans <$> addAll add spans) := by
  simp only [addAll, map_bind, map_pure]
  refine bind_congr fun text => ?_
  rw [map_eq_pure_bind]
  refine bind_congr fun woven => ?_
  rw [replaced, replaced, weave, slice_self, List.nil_append, List.append_assoc, List.length_cons,
    Nat.add_right_comm, Nat.add_assoc]

theorem replaced_end : replaced src b src.length n [] <$> addAll add [] = pure (b, n) := by
  rw [addAll, map_pure, replaced, weave, List.drop_length, List.append_nil, List.length_nil, Nat.add_zero]

end Replaced

/-- The byte at this place is before all matches that are left. -/
theorem takeByte_weave {n : Nat} {b : Bytes} (formed : wellFormed all [] = true) (inside : s ≤ src.length)
    (onward : Spans src all (s + 1) spans) (count : Nat)
    (goesOn : ∀ c, s < src.length → gsubLoop src p false maxS add (src.drop (s + 1)) (s + 1) n (b ++ [c]) =
      replaced src (b ++ [c]) (s + 1) n (spans.take count) <$> addAll add (spans.take count)) :
    takeByte src p false maxS add (src.drop s) s n b =
      replaced src b s n (spans.take count) <$> addAll add (spans.take count) := by
  cases split : src.drop s with
  | nil =>
      have ended : s = src.length := by
        rw [List.drop_eq_nil_iff] at split
        omega
      have none : spans = [] := onward.beyond (by omega)
      rw [none, List.take_nil, ended, replaced_end, takeByte]
  | cons c rest =>
      obtain ⟨byte, behind⟩ := drop_eq_cons split
      have within : s < src.length := (List.getElem?_eq_some_iff.mp byte).1
      have further : ∀ span ∈ spans.take count, s + 1 ≤ span.1 :=
        fun span member => (onward.span_bounds formed (List.mem_of_mem_take member)).1
      have whole := goesOn c within
      rw [behind, replaced_byte byte further] at whole
      exact whole

/-- The loop of `str_gsub` without an anchor. -/
theorem gsubLoop_weave (parsed : items p = .ok all) (formed : wellFormed all [] = true) (inside : s ≤ src.length)
    (matched : Spans src all s spans) (n : Nat) (b : Bytes) :
    gsubLoop src p false maxS add (src.drop s) s n b =
      replaced src b s n (spans.take (maxS - n).toNat) <$> addAll add (spans.take (maxS - n).toNat) := by
  generalize room : src.length - s = left
  induction left using Nat.strong_induction_on generalizing s spans n b with
  | h left ih =>
      by_cases limit : (n : Int) < maxS
      · cases best : (outcomes src all s []).head? with
        | none =>
            have onward := matched.later (List.head?_eq_none_iff.mp best)
            rw [gsubLoop_none parsed formed limit best]
            apply takeByte_weave formed inside onward
            intro c within
            exact ih _ (by omega) (by omega) onward n (b ++ [c]) rfl
        | some found =>
            obtain ⟨e, ms⟩ := found
            obtain ⟨after, bounded, _⟩ := outcome_bounds formed inside best
            have before := bounded.inside
            obtain ⟨others, rfl, onward⟩ := matched.here inside best
            have more : (maxS - n).toNat = (maxS - (n + 1 : Nat)).toNat + 1 := by omega
            rw [more, List.take_succ_cons, replaced_match]
            by_cases longer : s < e
            · rw [if_neg (by omega)] at onward
              rw [gsubLoop_some parsed formed limit best longer before]
              refine bind_congr fun text => ?_
              exact ih _ (by omega) before onward (n + 1) (b ++ text) rfl
            · have empty : e = s := by omega
              subst empty
              rw [if_pos rfl] at onward
              rw [gsubLoop_empty parsed formed limit best]
              refine bind_congr fun text => ?_
              apply takeByte_weave formed inside onward
              intro c within
              exact ih _ (by omega) (by omega) onward (n + 1) (b ++ text ++ [c]) rfl
      · have none : (maxS - n).toNat = 0 := by omega
        rw [gsubLoop_limit limit, none, List.take_zero, addAll, map_pure, replaced, weave, List.length_nil,
          Nat.add_zero]

/-- The match at the start, if there is one. -/
def anchoredSpans (src : Bytes) (all : List Item) : List Span :=
  ((outcomes src all 0 []).head?.map (0, ·)).toList

/-- An anchored pattern is tried once. -/
theorem gsubLoop_anchored (parsed : items p = .ok all) (formed : wellFormed all [] = true) (limit : 0 < maxS) :
    gsubLoop src p true maxS add src 0 0 [] =
      replaced src [] 0 0 (anchoredSpans src all) <$> addAll add (anchoredSpans src all) := by
  rw [anchoredSpans]
  cases best : (outcomes src all 0 []).head? with
  | none =>
      rw [gsubLoop_none parsed formed limit best]
      cases src <;> rfl
  | some found =>
      obtain ⟨e, ms⟩ := found
      have before := (outcome_bounds formed (Nat.zero_le src.length) best).2.1.inside
      rw [Option.map_some, Option.toList_some, replaced_match]
      by_cases longer : 0 < e
      · have tried := @gsubLoop_some src p all 0 σ add maxS true [] 0 e ms parsed formed limit best longer before
        rw [List.drop_zero] at tried
        rw [tried]
        rfl
      · have empty : e = 0 := by omega
        subst empty
        rw [gsubLoop_empty parsed formed limit best]
        refine bind_congr fun text => ?_
        cases src with
        | nil => exact (congrArg (fun whole => pure (whole, 1)) (List.append_nil text)).symm
        | cons c rest => simp [takeByte, addAll, replaced, weave]

/-- What `gsub` replaces: the successive matches, or only one at the start for an anchored pattern. -/
def GsubSpans (src p : Bytes) (spans : List Span) : Prop :=
  if p.head? = some 94 then spans = anchoredSpans src (patternItems (body p))
  else Successive src (patternItems (body p)) 0 spans

theorem anchoredSpans_length (src : Bytes) (all : List Item) : (anchoredSpans src all).length ≤ 1 :=
  Option.length_toList_le

theorem anchoredSpans_disjoint (src : Bytes) (all : List Item) :
    (anchoredSpans src all).Pairwise fun span later => span.1 < later.1 ∧ span.2.1 ≤ later.1 := by
  rw [anchoredSpans]
  cases (outcomes src all 0 []).head? <;> simp

theorem anchoredSpans_order (formed : wellFormed all [] = true) {span : Span} (member : span ∈ anchoredSpans src all) :
    0 ≤ span.1 ∧ span.1 ≤ span.2.1 := by
  rw [anchoredSpans, Option.mem_toList, Option.map_eq_some_iff] at member
  obtain ⟨found, best, rfl⟩ := member
  exact ⟨le_rfl, (outcome_bounds formed (Nat.zero_le src.length) best).1⟩

theorem gsubSpans_order (formed : accepted (body p) = true) (matched : GsubSpans src p spans) :
    (∀ span ∈ spans, 0 ≤ span.1 ∧ span.1 ≤ span.2.1) ∧
      spans.Pairwise fun span later => span.1 < later.1 ∧ span.2.1 ≤ later.1 := by
  obtain ⟨_, wellFormed⟩ := accepted_iff.mp formed
  by_cases anchored : p.head? = some 94
  · rw [GsubSpans, if_pos anchored] at matched
    subst matched
    exact ⟨fun _ member => anchoredSpans_order wellFormed member, anchoredSpans_disjoint src _⟩
  · rw [GsubSpans, if_neg anchored] at matched
    refine ⟨?_, matched.disjoint⟩
    intro span member
    exact ⟨Nat.zero_le _, (outcome_bounds wellFormed (matched.inside span member).2 (matched.preferred span member)).1⟩

theorem strGsub_replaced {number2str : LuaNumber → Bytes} {repl : Replacement σ}
    (formed : accepted (body (cstr p)) = true) :
    ∃ spans, GsubSpans src (cstr p) spans ∧
      strGsub number2str src p repl maxS =
        replaced src [] 0 0 (spans.take maxS.toNat) <$>
          addAll (addValue number2str src repl) (spans.take maxS.toNat) := by
  obtain ⟨parsed, wellFormed⟩ := accepted_iff.mp formed
  by_cases anchored : (cstr p).head? = some 94
  · have few := anchoredSpans_length src (patternItems (body (cstr p)))
    refine ⟨anchoredSpans src (patternItems (body (cstr p))), by rw [GsubSpans, if_pos anchored], ?_⟩
    rw [strGsub, decide_eq_true anchored]
    by_cases limit : 0 < maxS
    · rw [List.take_of_length_le (by omega)]
      exact gsubLoop_anchored parsed wellFormed limit
    · have none : maxS.toNat = 0 := by omega
      rw [none, List.take_zero, gsubLoop_limit (by omega)]
      rfl
  · obtain ⟨spans, matched⟩ := @exists_spans src _ wellFormed 0
    refine ⟨spans, ?_, ?_⟩
    · rw [GsubSpans, if_neg anchored]
      exact matched.successive wellFormed
    · have whole := @gsubLoop_weave src (body (cstr p)) _ spans 0 σ (addValue number2str src repl) maxS
        parsed wellFormed (Nat.zero_le _) matched 0 []
      rw [List.drop_zero, Int.natCast_zero, Int.sub_zero] at whole
      rw [strGsub, decide_eq_false anchored]
      exact whole

/-- `string.gsub` replaces the matches from left to right, as many as it may, by what `add_value`
makes of each, and leaves the rest of the string as it is.  An error of `add_value` is its own. -/
theorem strGsub_weave {number2str : LuaNumber → Bytes} {repl : Replacement σ}
    (formed : accepted (body (cstr p)) = true) :
    ∃ spans, GsubSpans src (cstr p) spans ∧
      strGsub number2str src p repl maxS =
        (do
          let woven ← addAll (addValue number2str src repl) (spans.take maxS.toNat)
          return (weave src 0 woven, (spans.take maxS.toNat).length)) ∧
      ∀ woven, woven.map Prod.fst = spans.take maxS.toNat →
        (∀ entry ∈ woven, entry.2 = slice src entry.1.1 entry.1.2.1) → weave src 0 woven = src := by
  obtain ⟨spans, matched, result⟩ := @strGsub_replaced src p σ maxS number2str repl formed
  obtain ⟨ordered, disjoint⟩ := gsubSpans_order formed matched
  refine ⟨spans, matched, ?_, ?_⟩
  · rw [result, map_eq_pure_bind]
    refine bind_congr fun woven => ?_
    rw [replaced, List.nil_append, Nat.zero_add]
  · intro woven answers same
    rw [weave_slice _ _ same, List.drop_zero]
    · rw [answers]
      exact fun span member => ordered span (List.mem_of_mem_take member)
    · rw [answers]
      exact disjoint.sublist (List.take_sublist ..)

theorem strGsub_weave_swapped :
    GsubSpans (lit "hello world") (cstr (lit "(%w+) (%w+)")) [(0, 11, [⟨0, .bytes 5⟩, ⟨6, .bytes 5⟩])] ∧
      (strGsub (fun _ => []) (lit "hello world") (lit "(%w+) (%w+)") (.news (lit "%2 %1")) 12 :
        EStateM Value Unit (Bytes × Nat)) = pure (lit "world hello", 1) := by
  obtain ⟨spans, matched, result, _⟩ := @strGsub_weave (lit "hello world") (lit "(%w+) (%w+)") Unit 12
    (fun _ => []) (.news (lit "%2 %1")) (by decide +kernel)
  have formed : wellFormed (patternItems (body (cstr (lit "(%w+) (%w+)")))) [] = true := by decide +kernel
  have found : Spans (lit "hello world") (patternItems (body (cstr (lit "(%w+) (%w+)")))) 0
      [(0, 11, [⟨0, .bytes 5⟩, ⟨6, .bytes 5⟩])] :=
    .span le_rfl (by decide) (by decide +kernel) (by decide +kernel) (.done (by decide +kernel))
  have same : spans = [(0, 11, [⟨0, .bytes 5⟩, ⟨6, .bytes 5⟩])] := by
    rw [GsubSpans, if_neg (by decide)] at matched
    exact matched.unique formed (found.successive formed)
  subst same
  exact ⟨matched, result.trans rfl⟩

end Gsub

end GameServer.Lua
