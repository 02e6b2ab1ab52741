import GameServer.Lua.Interning

namespace GameServer.Lua

open Transition StringTable

/-! Which strings outlive a collection. -/

/-- What the mark phase is to leave behind for a string that is in use. -/
def StringTable.Marked (g : StringTable) (address : Nat) : Prop :=
  ∃ ts ∈ g.strings, ts.address = address ∧ (ts.marked &&& whitebits = 0 ∨ ts.marked &&& fixedbit ≠ 0)

private theorem gray_marks : ∀ white ∈ whites, ∀ marked ∈ stringMarks,
    marked &&& whitebits = 0 → marked &&& ((white ^^^ whitebits) ^^^ whitebits) &&& whitebits = 0 := by
  decide +kernel

private theorem flipped_marks : ∀ white ∈ whites, ∀ marked ∈ stringMarks,
    marked &&& whitebits ≠ 0 → marked &&& (white ^^^ whitebits) &&& whitebits = 0 →
      marked &&& ((white ^^^ whitebits) ^^^ whitebits) &&& whitebits ≠ 0 := by
  decide +kernel

variable {g next : StringTable} {event : StringEvent} {address : Nat} {str : Bytes}

theorem strings_checkSizes (g : StringTable) :
    (checkSizes g).strings.Perm g.strings ∧ (checkSizes g).currentwhite = g.currentwhite := by
  unfold checkSizes
  split_ifs with large
  · have positive : 0 < g.size / 2 := by
      have more := large.2
      simp only [minstrtabsize] at more
      omega
    refine ⟨strings_luaSresize positive, ?_⟩
    unfold luaSresize
    split_ifs <;> rfl
  · exact ⟨List.Perm.refl _, rfl⟩

namespace StringTable.Safe

theorem setMarked (safe : g.Safe address str) {at_ : Nat} {marks : UInt8 → UInt8}
    (keeps : ∀ ts ∈ g.strings, ts.address = at_ → g.isdead ts = false ∨ ts.marked &&& fixedbit ≠ 0 →
      g.isdead { ts with marked := marks ts.marked } = false ∨ marks ts.marked &&& fixedbit ≠ 0) :
    (g.setMarked at_ marks).Safe address str := by
  obtain ⟨ts, member, here, same, alive⟩ := safe
  refine ⟨ts.remark at_ marks, ?_, ?_, ?_, ?_⟩
  · rw [strings_setMarked]
    exact List.mem_map_of_mem member
  · rwa [TString.remark_address]
  · rwa [TString.remark_bytes]
  · rw [TString.remark]
    split_ifs with changed
    · exact keeps ts member changed alive
    · exact alive

theorem of_perm (safe : g.Safe address str) {other : StringTable} (strings : ∀ ts ∈ g.strings, ts ∈ other.strings)
    (white : other.currentwhite = g.currentwhite) : other.Safe address str := by
  obtain ⟨ts, member, here, same, alive⟩ := safe
  refine ⟨ts, strings ts member, here, same, ?_⟩
  rwa [isdead, otherwhite, white]

theorem luaSnewlstr (valid : g.Valid) (safe : g.Safe address str) (other : Bytes) (new : Nat) :
    (luaSnewlstr g other new).1.Safe address str := by
  rcases valid.luaSnewlstr_cases other new with ⟨ts, member, same, found⟩ | ⟨absent, made⟩
  · rw [found]
    dsimp only
    split_ifs with dead
    · apply safe.setMarked
      intro it inside address alive
      left
      have same := valid.eq_of_address inside member address
      rw [same]
      exact isdead_eq_false.mpr (changewhite_marks _ valid.white _ (valid.marks ts member) (isdead_eq_true.mp dead)).2
    · exact safe
  · rw [made]
    obtain ⟨strings, white⟩ := @strings_newlstr g other (stringHash other) new valid.toStored
    apply safe.of_perm _ white
    intro ts member
    exact strings.mem_iff.mpr (List.mem_cons_of_mem _ member)

theorem sweepBucket (valid : g.Valid) (safe : g.Safe address str) (i : Nat) :
    (sweepBucket g i).Safe address str := by
  obtain ⟨ts, member, here, same, alive⟩ := safe
  have legal := valid.marks ts member
  have inBucket := valid.mem_bucket member
  have survives := (survives_iff valid.white legal).mpr alive
  by_cases swept : i = lmod ts.hash g.size
  · subst swept
    refine ⟨g.whiten ts, ?_, here, same, .inl (whiten_alive valid.white legal)⟩
    apply Buckets.mem_flatten_of_mem_getD
    rw [mem_sweepBucket, if_pos rfl]
    exact ⟨ts, inBucket, survives, rfl⟩
  · refine ⟨ts, ?_, here, same, alive⟩
    apply Buckets.mem_flatten_of_mem_getD
    rw [mem_sweepBucket, if_neg swept]
    exact inBucket

/-- Only the flip of the whites endangers a string, and then only one that was not marked. -/
theorem step (valid : g.Valid) (safe : g.Safe address str) (stepped : stringStep g event = some next)
    (marked : event = .atomic → g.Marked address) : next.Safe address str := by
  cases event with
  | newlstr other new =>
      simp only [stringStep, Option.ite_none_left_eq_some, Option.some.injEq] at stepped
      obtain ⟨fresh, rfl⟩ := stepped
      exact safe.luaSnewlstr valid other new
  | fix at_ =>
      cases stepped
      apply safe.setMarked
      intro ts member _ _
      exact .inr (luaSfix_marks _ valid.white _ (valid.marks ts member)).2.1
  | mark at_ =>
      simp only [stringStep, Option.ite_none_right_eq_some, Option.some.injEq] at stepped
      obtain ⟨propagating, rfl⟩ := stepped
      apply safe.setMarked
      intro ts member _ _
      left
      rw [isdead_eq_false]
      exact (white2gray_marks _ valid.white _ (valid.marks ts member)).2
  | markroot =>
      simp only [stringStep, Option.ite_none_right_eq_some, Option.some.injEq] at stepped
      obtain ⟨_, rfl⟩ := stepped
      exact safe
  | atomic =>
      simp only [stringStep, Option.ite_none_right_eq_some, Option.some.injEq] at stepped
      obtain ⟨propagating, rfl⟩ := stepped
      obtain ⟨ts, member, here, same, _⟩ := safe
      obtain ⟨it, memberToo, hereToo, kept⟩ := marked rfl
      have eq := valid.eq_of_address memberToo member (hereToo.trans here.symm)
      subst eq
      refine ⟨it, member, here, same, ?_⟩
      rcases kept with gray | fixed
      · left
        rw [isdead_eq_false]
        exact gray_marks _ valid.white _ (valid.marks it member) gray
      · exact .inr fixed
  | sweepstring =>
      simp only [stringStep, Option.ite_none_right_eq_some, Option.some.injEq] at stepped
      obtain ⟨sweeping, rfl⟩ := stepped
      split_ifs
      · exact safe.sweepBucket valid g.sweepstrgc
      · exact safe.sweepBucket valid g.sweepstrgc
  | endSweep =>
      simp only [stringStep, Option.ite_none_right_eq_some, Option.some.injEq] at stepped
      obtain ⟨sweeping, rfl⟩ := stepped
      obtain ⟨strings, white⟩ := strings_checkSizes g
      exact safe.of_perm (fun ts member => strings.mem_iff.mpr member) white
  | endFinalize =>
      simp only [stringStep, Option.ite_none_right_eq_some, Option.some.injEq] at stepped
      obtain ⟨_, rfl⟩ := stepped
      exact safe
  | abandon =>
      simp only [stringStep, Option.ite_none_right_eq_some, Option.some.injEq] at stepped
      obtain ⟨_, rfl⟩ := stepped
      exact safe

/-- A run keeps a string that it finds marked at every flip. -/
theorem run {events : List StringEvent} {later : StringTable} (valid : g.Valid) (safe : g.Safe address str)
    (ran : run stringStep g events = some later)
    (marked : ∀ early late middle, events = early ++ .atomic :: late →
      Transition.run stringStep g early = some middle → middle.Marked address) :
    later.Valid ∧ later.Safe address str := by
  apply @run_invariant_of _ _ stringStep g later events (fun state => state.Valid ∧ state.Safe address str)
    (fun state event => event = .atomic → state.Marked address) _ _ ⟨valid, safe⟩ ran
  · intro state event next now holds stepped
    exact ⟨holds.1.step stepped, holds.2.step holds.1 stepped now⟩
  · intro early late middle event split reached flip
    rw [flip] at split
    exact marked early late middle split reached

end StringTable.Safe

theorem run_valid {before : List StringEvent} (ran : run stringStep StringTable.opened before = some g) :
    g.Valid :=
  run_invariant (fun _ _ _ valid stepped => Valid.step valid stepped) Valid.opened ran

/-- What `luaS_newlstr` returns holds the bytes asked for and is not dead. -/
theorem luaSnewlstr_safe (valid : g.Valid) (str : Bytes) (address : Nat) :
    (luaSnewlstr g str address).1.Safe (luaSnewlstr g str address).2 str := by
  rcases valid.luaSnewlstr_cases str address with ⟨ts, member, same, found⟩ | ⟨absent, made⟩
  · rw [found]
    dsimp only
    split_ifs with dead
    · refine ⟨ts.remark ts.address changewhite, ?_, TString.remark_address ts, ?_, ?_⟩
      · rw [strings_setMarked]
        exact List.mem_map_of_mem member
      · rwa [TString.remark_bytes]
      · left
        rw [isdead_eq_true] at dead
        rw [TString.remark, if_pos rfl, isdead_eq_false]
        exact (changewhite_marks _ valid.white _ (valid.marks ts member) dead).2
    · exact ⟨ts, member, rfl, same, .inl (Bool.eq_false_iff.mpr dead)⟩
  · rw [made]
    obtain ⟨strings, white⟩ := @strings_newlstr g str (stringHash str) address valid.toStored
    refine ⟨_, strings.mem_iff.mpr List.mem_cons_self, rfl, rfl, .inl ?_⟩
    rw [isdead_eq_false, otherwhite, white]
    exact (new_marks _ valid.white).2

/-- The address `luaS_newlstr` returns tells whether the bytes are those of a string in the table. -/
theorem luaSnewlstr_address (stored : g.Stored) {ts : TString} (member : ts ∈ g.strings) (other : Bytes) {new : Nat}
    (fresh : new ∉ g.strings.map TString.address) :
    (luaSnewlstr g other new).2 = ts.address ↔ other = ts.bytes := by
  rcases stored.luaSnewlstr_cases other new with ⟨it, memberToo, same, found⟩ | ⟨absent, made⟩
  · rw [found, ← same]
    constructor
    · intro address
      rw [stored.eq_of_address memberToo member address]
    · intro bytes
      rw [stored.eq_of_bytes memberToo member bytes]
  · rw [made]
    constructor
    · intro address
      apply absurd _ fresh
      rw [show new = ts.address from address]
      exact List.mem_map_of_mem member
    · intro bytes
      apply absurd _ absent
      rw [bytes]
      exact List.mem_map_of_mem member

/-- Whatever the collector does in between, as long as it finds the string marked whenever it
flips the whites: the string stays what it was, and asking again for the same bytes, and for
these only, gives the same string. -/
theorem interned_again {before after : List StringEvent} {later : StringTable} {other : Bytes} {new : Nat}
    (ran : run stringStep StringTable.opened before = some g)
    (fresh : address ∉ g.strings.map TString.address)
    (ranOn : run stringStep (luaSnewlstr g str address).1 after = some later)
    (marked : ∀ early late middle, after = early ++ .atomic :: late →
      run stringStep (luaSnewlstr g str address).1 early = some middle →
      middle.Marked (luaSnewlstr g str address).2)
    (freshToo : new ∉ later.strings.map TString.address) :
    later.Safe (luaSnewlstr g str address).2 str ∧
      ((luaSnewlstr later other new).2 = (luaSnewlstr g str address).2 ↔ other = str) := by
  have valid := run_valid ran
  have safe := luaSnewlstr_safe valid str address
  obtain ⟨validLater, safeLater⟩ := safe.run (valid.luaSnewlstr fresh) ranOn marked
  refine ⟨safeLater, ?_⟩
  obtain ⟨ts, member, here, same, _⟩ := safeLater
  rw [← here, ← same]
  exact luaSnewlstr_address validLater.toStored member other freshToo

/-- Two strings, one of them marked, before the end of the mark phase. -/
def oneMarked : StringTable :=
  (run stringStep StringTable.opened [.newlstr [97] 1, .newlstr [98] 2, .markroot, .mark 1]).getD
    StringTable.opened

/-- The same two strings after the sweep. -/
def oneCollected : StringTable :=
  (run stringStep oneMarked (.atomic :: List.replicate 32 .sweepstring)).getD StringTable.opened

theorem interned_again_marked :
    oneCollected.Safe (luaSnewlstr StringTable.opened [97] 1).2 [97] ∧
      ((luaSnewlstr oneCollected [97] 3).2 = (luaSnewlstr StringTable.opened [97] 1).2 ↔
        ([97] : Bytes) = [97]) :=
  @interned_again StringTable.opened 1 [97] []
    ([.newlstr [98] 2, .markroot, .mark 1] ++ .atomic :: List.replicate 32 .sweepstring) oneCollected [97] 3
    (by decide +kernel) (by decide +kernel) (by decide +kernel)
    (by
      intro early late middle split reached
      have before : early = [.newlstr [98] 2, .markroot, .mark 1] := by
        rcases early with _ | ⟨_, _ | ⟨_, _ | ⟨_, _ | ⟨_, rest⟩⟩⟩⟩
        case cons.cons.cons.cons =>
          simp only [List.cons_append, List.nil_append, List.cons.injEq] at split
          obtain ⟨_, _, _, _, swept⟩ := split
          have flip : StringEvent.atomic ∈ List.replicate 32 StringEvent.sweepstring := by simp [swept]
          cases List.eq_of_mem_replicate flip
        all_goals simp_all
      subst before
      have gray : ∀ state ∈ run stringStep (luaSnewlstr StringTable.opened [97] 1).1
          [.newlstr [98] 2, .markroot, .mark 1], ∃ ts ∈ state.strings, ts.address = 1 ∧
            (ts.marked &&& whitebits = 0 ∨ ts.marked &&& fixedbit ≠ 0) := by
        decide +kernel
      exact gray middle reached)
    (by decide +kernel)

/-- No string but one at `address` has these bytes, and that one the sweep will take. -/
def StringTable.Doomed (g : StringTable) (address : Nat) (str : Bytes) : Prop :=
  ∀ ts ∈ g.strings, ts.bytes = str →
    ts.address = address ∧ g.isdead ts = true ∧ ts.marked &&& fixedbit = 0

namespace StringTable.Doomed

theorem setMarked (doomed : g.Doomed address str) {at_ : Nat} {marks : UInt8 → UInt8}
    (other : ∀ ts ∈ g.strings, ts.address = at_ → ts.bytes ≠ str) : (g.setMarked at_ marks).Doomed address str := by
  intro ts member same
  rw [strings_setMarked, List.mem_map] at member
  obtain ⟨old, here, rfl⟩ := member
  rw [TString.remark_bytes] at same
  rw [TString.remark]
  split_ifs with changed
  · exact absurd same (other old here changed)
  · exact doomed old here same

theorem of_perm (doomed : g.Doomed address str) {other : StringTable}
    (strings : ∀ ts ∈ other.strings, ts ∈ g.strings) (white : other.currentwhite = g.currentwhite) :
    other.Doomed address str := by
  intro ts member same
  rw [isdead, otherwhite, white]
  exact doomed ts (strings ts member) same

/-- Outside the sweep no string is dead. -/
theorem absent (valid : g.Valid) (doomed : g.Doomed address str) (done : g.gcstate ≠ .sweepstring) :
    str ∉ g.strings.map TString.bytes := by
  intro present
  obtain ⟨ts, member, same⟩ := List.mem_map.mp present
  exact done (valid.unswept _ ts (valid.mem_bucket member) (doomed ts member same).2.1).1

theorem of_absent (absent : str ∉ g.strings.map TString.bytes) : g.Doomed address str := by
  intro ts member same
  rw [← same] at absent
  exact absurd (List.mem_map_of_mem member) absent

theorem step (valid : g.Valid) (doomed : g.Doomed address str) (stepped : stringStep g event = some next)
    (unasked : ∀ new, event ≠ .newlstr str new)
    (unfixed : event = .fix address → ∀ ts ∈ g.strings, ts.address = address → ts.bytes ≠ str) :
    next.Doomed address str := by
  cases event with
  | newlstr other new =>
      simp only [stringStep, Option.ite_none_left_eq_some, Option.some.injEq] at stepped
      obtain ⟨fresh, rfl⟩ := stepped
      have differs : other ≠ str := by
        intro same
        exact unasked new (by rw [same])
      rcases valid.luaSnewlstr_cases other new with ⟨ts, member, same, found⟩ | ⟨absent, made⟩
      · rw [found]
        dsimp only
        split_ifs
        · apply doomed.setMarked
          intro it inside address
          rw [valid.eq_of_address inside member address, same]
          exact differs
        · exact doomed
      · rw [made]
        obtain ⟨strings, white⟩ := @strings_newlstr g other (stringHash other) new valid.toStored
        intro ts member same
        rw [isdead, otherwhite, white]
        rcases List.mem_cons.mp (strings.mem_iff.mp member) with rfl | old
        · exact absurd same differs
        · exact doomed ts old same
  | fix at_ =>
      cases stepped
      apply doomed.setMarked
      intro ts member here same
      have address := (doomed ts member same).1
      exact unfixed (by rw [← here, address]) ts member address same
  | mark at_ =>
      simp only [stringStep, Option.ite_none_right_eq_some, Option.some.injEq] at stepped
      obtain ⟨propagating, rfl⟩ := stepped
      apply doomed.setMarked
      intro ts member _ same
      have gone := doomed.absent valid (by simp [propagating])
      rw [← same] at gone
      exact gone (List.mem_map_of_mem member)
  | atomic =>
      simp only [stringStep, Option.ite_none_right_eq_some, Option.some.injEq] at stepped
      obtain ⟨propagating, rfl⟩ := stepped
      have gone := doomed.absent valid (by simp [propagating])
      exact of_absent gone
  | sweepstring =>
      simp only [stringStep, Option.ite_none_right_eq_some, Option.some.injEq] at stepped
      obtain ⟨sweeping, rfl⟩ := stepped
      have swept : (sweepBucket g g.sweepstrgc).Doomed address str := by
        intro ts member same
        obtain ⟨j, inside⟩ := Buckets.exists_mem_getD member
        rw [mem_sweepBucket] at inside
        split_ifs at inside
        · obtain ⟨old, here, survives, rfl⟩ := inside
          have inTable := Buckets.mem_flatten_of_mem_getD here
          obtain ⟨_, dead, loose⟩ := doomed old inTable same
          rcases (survives_iff valid.white (valid.marks old inTable)).mp survives with alive | fixed
          · exact absurd (alive.symm.trans dead) Bool.false_ne_true
          · exact absurd loose fixed
        · exact doomed ts (Buckets.mem_flatten_of_mem_getD inside) same
      split_ifs <;> exact swept
  | endSweep =>
      simp only [stringStep, Option.ite_none_right_eq_some, Option.some.injEq] at stepped
      obtain ⟨sweeping, rfl⟩ := stepped
      obtain ⟨strings, white⟩ := strings_checkSizes g
      exact doomed.of_perm (fun ts member => strings.mem_iff.mp member) white
  | markroot | endFinalize | abandon =>
      simp only [stringStep, Option.ite_none_right_eq_some, Option.some.injEq] at stepped
      obtain ⟨_, rfl⟩ := stepped
      exact doomed

end StringTable.Doomed

/-- A string that nothing marked before the flip, and that nobody fixes or asks for after it,
is no longer in the table when the sweep of the strings is at its end.  A later string in its
memory may well be fixed. -/
theorem unmarked_collected {before after : List StringEvent} {later : StringTable} {ts : TString}
    (ran : run stringStep StringTable.opened before = some g) (marking : g.gcstate = .propagate)
    (member : ts ∈ g.strings) (unmarked : ¬ g.Marked ts.address)
    (ranOn : run stringStep g (.atomic :: after) = some later)
    (unasked : ∀ new, .newlstr ts.bytes new ∉ after)
    (unfixed : ∀ early late middle, after = early ++ .fix ts.address :: late →
      run stringStep g (.atomic :: early) = some middle →
      ∀ it ∈ middle.strings, it.address = ts.address → it.bytes ≠ ts.bytes)
    (done : later.gcstate ≠ .sweepstring) :
    ts.bytes ∉ later.strings.map TString.bytes := by
  have valid := run_valid ran
  obtain ⟨flipped, flip, rest⟩ := run_cons_eq_some.mp ranOn
  have doomed : flipped.Doomed ts.address ts.bytes := by
    simp only [stringStep, Option.ite_none_right_eq_some, Option.some.injEq] at flip
    obtain ⟨_, rfl⟩ := flip
    intro it inside same
    rw [valid.eq_of_bytes inside member same]
    have alive : g.isdead ts = false := by
      by_contra dead
      have sweeping := (valid.unswept _ ts (valid.mem_bucket member) (by simpa using dead)).1
      simp [marking] at sweeping
    have colored : ts.marked &&& whitebits ≠ 0 := fun gray => unmarked ⟨ts, member, rfl, .inl gray⟩
    have loose : ts.marked &&& fixedbit = 0 := by
      by_contra fixed
      exact unmarked ⟨ts, member, rfl, .inr fixed⟩
    rw [isdead_eq_false] at alive
    refine ⟨rfl, ?_, loose⟩
    rw [isdead_eq_true]
    exact flipped_marks _ valid.white _ (valid.marks ts member) colored alive
  have swept : later.Valid ∧ later.Doomed ts.address ts.bytes := by
    apply @run_invariant_of _ _ stringStep flipped later after
      (fun state => state.Valid ∧ state.Doomed ts.address ts.bytes)
      (fun state event => (∀ new, event ≠ .newlstr ts.bytes new) ∧
        (event = .fix ts.address → ∀ it ∈ state.strings, it.address = ts.address → it.bytes ≠ ts.bytes))
      _ _ ⟨valid.step flip, doomed⟩ rest
    · intro state event next allowed holds stepped
      exact ⟨holds.1.step stepped, holds.2.step holds.1 stepped allowed.1 allowed.2⟩
    · intro early late middle event split reached
      constructor
      · intro new same
        apply unasked new
        rw [split, ← same]
        exact List.mem_append_right _ List.mem_cons_self
      · intro fixed
        rw [fixed] at split
        exact unfixed early late middle split (run_cons_eq_some.mpr ⟨flipped, flip, reached⟩)
  exact swept.2.absent swept.1 done

/-- What happens from the flip on: the sweep, and a fixed string in the memory of the one it freed. -/
def reusedAfter : List StringEvent :=
  List.replicate 32 .sweepstring ++ [.newlstr [99] 2, .fix 2]

def oneReused : StringTable :=
  (run stringStep oneMarked (.atomic :: reusedAfter)).getD StringTable.opened

theorem unmarked_collected_string : [98] ∉ oneReused.strings.map TString.bytes :=
  @unmarked_collected oneMarked [.newlstr [97] 1, .newlstr [98] 2, .markroot, .mark 1] reusedAfter oneReused
    { address := 2, bytes := [98], hash := stringHash [98], marked := 1 }
    (by decide +kernel) (by decide +kernel) (by decide +kernel)
    (by
      change ¬ ∃ ts ∈ oneMarked.strings, ts.address = 2 ∧
        (ts.marked &&& whitebits = 0 ∨ ts.marked &&& fixedbit ≠ 0)
      decide +kernel)
    (by decide +kernel)
    (by
      intro new
      simp [reusedAfter])
    (by
      intro early late middle split reached
      have place : reusedAfter[early.length]? = some (.fix 2) := by
        rw [split]
        simp
      have last : ∀ k < 34, reusedAfter[k]? = some (.fix 2) → k = 33 := by decide +kernel
      have before : early = reusedAfter.take 33 := by
        rw [← last early.length (List.getElem?_eq_some_iff.mp place).1 place, split, List.take_left]
      have other : ∀ state ∈ run stringStep oneMarked (.atomic :: reusedAfter.take 33),
          ∀ it ∈ state.strings, it.address = 2 → it.bytes ≠ [98] := by
        decide +kernel
      rw [before] at reached
      exact other middle reached)
    (by decide +kernel)

section Freeall

private theorem freeall_marks : ∀ marked ∈ stringMarks,
    (marked ^^^ whitebits) &&& ((whitebits ||| superfixedbit) ^^^ whitebits) = 0 := by
  decide +kernel

/-- The first lists of the loop of `luaC_freeall`. -/
theorem freeBuckets (stored : g.Stored) (white : g.currentwhite = whitebits ||| superfixedbit)
    (marks : ∀ ts ∈ g.strings, ts.marked ∈ stringMarks) (count : Nat) :
    ((List.range count).foldl sweepBucket g).Stored ∧
      ((List.range count).foldl sweepBucket g).currentwhite = g.currentwhite ∧
      ((List.range count).foldl sweepBucket g).size = g.size ∧
      ∀ j, ((List.range count).foldl sweepBucket g).buckets.getD j [] =
        if j < count then [] else g.buckets.getD j [] := by
  induction count with
  | zero => exact ⟨stored, rfl, rfl, fun j => by simp⟩
  | succ count ih =>
      obtain ⟨storedBefore, whiteBefore, size, buckets⟩ := ih
      rw [List.range_succ, List.foldl_append, List.foldl_cons, List.foldl_nil]
      refine ⟨storedBefore.sweepBucket count, whiteBefore, size_sweepBucket.trans size, ?_⟩
      intro j
      rw [sweepBucket_buckets, Buckets.getD_modify (by rfl), buckets j]
      by_cases here : count = j
      · subst here
        rw [if_pos rfl, if_neg (Nat.lt_irrefl count), if_pos (Nat.lt_succ_self count), List.map_eq_nil_iff,
          List.filter_eq_nil_iff]
        intro ts member
        have legal := marks ts (Buckets.mem_flatten_of_mem_getD member)
        rw [survives, otherwhite, whiteBefore, white]
        simp [freeall_marks _ legal]
      · rw [if_neg here]
        by_cases before : j < count
        · rw [if_pos before, if_pos (Nat.lt_succ_of_lt before)]
        · rw [if_neg before, if_neg (by omega)]

/-- `luaC_freeall` frees every string, so that `close_state` finds `strt.nuse` at zero. -/
theorem freeall_empty {before : List StringEvent} (ran : run stringStep StringTable.opened before = some g) :
    (luaCfreeall g).strings = [] ∧ (luaCfreeall g).nuse = 0 := by
  have valid := run_valid ran
  obtain ⟨stored, _, size, buckets⟩ := @freeBuckets
    { g with currentwhite := whitebits ||| superfixedbit } { valid.toStored with } rfl valid.marks g.size
  have empty : (luaCfreeall g).strings = [] := by
    rw [List.eq_nil_iff_forall_not_mem]
    intro ts member
    have inBucket := stored.mem_bucket member
    rw [buckets] at inBucket
    split_ifs at inBucket with inside
    · exact List.not_mem_nil inBucket
    · have bound := lmod_lt ts.hash stored.positive
      exact inside (Nat.lt_of_lt_of_eq bound size)
  refine ⟨empty, ?_⟩
  have counted : (luaCfreeall g).nuse = UInt32.ofNat (luaCfreeall g).strings.length := stored.counted
  rw [counted, empty]
  rfl

theorem freeall_empty_strings :
    (luaCfreeall oneMarked).strings = [] ∧ (luaCfreeall oneMarked).nuse = 0 :=
  @freeall_empty oneMarked [.newlstr [97] 1, .newlstr [98] 2, .markroot, .mark 1] (by decide +kernel)

end Freeall

end GameServer.Lua
