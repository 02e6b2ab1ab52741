import GameServer.Lua.StringTable

namespace GameServer.Lua

open Transition StringTable

/-! What holds of the string table in every state, between any two steps of the collector. -/

/-- The values `currentwhite` takes: one white bit and the fixed bit. -/
def whites : List UInt8 := [33, 34]

/-- The marks a string can carry: at most one white bit, with or without the fixed bit. -/
def stringMarks : List UInt8 := [0, 1, 2, 32, 33, 34]

/-- The table holds every string once, in the list of its hash, and counts them. -/
structure StringTable.Stored (g : StringTable) : Prop where
  positive : 0 < g.size
  placed : Buckets.Placed (fun ts => lmod ts.hash g.size) g.buckets
  hashed : ∀ ts ∈ g.strings, ts.hash = stringHash ts.bytes
  addresses : (g.strings.map TString.address).Nodup
  distinct : (g.strings.map TString.bytes).Nodup
  counted : g.nuse = UInt32.ofNat g.strings.length

structure StringTable.Valid (g : StringTable) : Prop extends g.Stored where
  white : g.currentwhite ∈ whites
  marks : ∀ ts ∈ g.strings, ts.marked ∈ stringMarks
  /-- A dead string is still to be met by the sweep. -/
  unswept : ∀ i, ∀ ts ∈ g.buckets.getD i [], g.isdead ts = true → g.gcstate = .sweepstring ∧ g.sweepstrgc ≤ i
  sweeping : g.gcstate = .sweepstring → g.sweepstrgc < g.size

/-- A string that the next sweep leaves alone. -/
def StringTable.Safe (g : StringTable) (address : Nat) (str : Bytes) : Prop :=
  ∃ ts ∈ g.strings, ts.address = address ∧ ts.bytes = str ∧
    (g.isdead ts = false ∨ ts.marked &&& fixedbit ≠ 0)

/-- The test of `sweeplist`. -/
def StringTable.survives (g : StringTable) (ts : TString) : Bool :=
  (ts.marked ^^^ whitebits) &&& g.otherwhite ≠ 0

def StringTable.whiten (g : StringTable) (ts : TString) : TString :=
  { ts with marked := makewhite g ts.marked }

section Marks

variable {g : StringTable} {ts : TString}

theorem changewhite_marks : ∀ white ∈ whites, ∀ marked ∈ stringMarks,
    marked &&& (white ^^^ whitebits) &&& whitebits ≠ 0 →
      changewhite marked ∈ stringMarks ∧ changewhite marked &&& (white ^^^ whitebits) &&& whitebits = 0 := by
  decide +kernel

theorem white2gray_marks : ∀ white ∈ whites, ∀ marked ∈ stringMarks,
    white2gray marked ∈ stringMarks ∧ white2gray marked &&& (white ^^^ whitebits) &&& whitebits = 0 := by
  decide +kernel

theorem luaSfix_marks : ∀ white ∈ whites, ∀ marked ∈ stringMarks,
    luaSfix marked ∈ stringMarks ∧ luaSfix marked &&& fixedbit ≠ 0 ∧
      luaSfix marked &&& (white ^^^ whitebits) &&& whitebits =
        marked &&& (white ^^^ whitebits) &&& whitebits := by
  decide +kernel

theorem makewhite_marks : ∀ white ∈ whites, ∀ marked ∈ stringMarks,
    (marked &&& ~~~(blackbit ||| whitebits)) ||| (white &&& whitebits) ∈ stringMarks ∧
      ((marked &&& ~~~(blackbit ||| whitebits)) ||| (white &&& whitebits)) &&& (white ^^^ whitebits) &&& whitebits = 0 := by
  decide +kernel

theorem survives_marks : ∀ white ∈ whites, ∀ marked ∈ stringMarks,
    ((marked ^^^ whitebits) &&& (white ^^^ whitebits) ≠ 0 ↔
      marked &&& (white ^^^ whitebits) &&& whitebits = 0 ∨ marked &&& fixedbit ≠ 0) := by
  decide +kernel

theorem flip_marks : ∀ white ∈ whites, white ^^^ whitebits ∈ whites := by
  decide +kernel

theorem new_marks : ∀ white ∈ whites, white &&& whitebits ∈ stringMarks ∧
    white &&& whitebits &&& (white ^^^ whitebits) &&& whitebits = 0 := by
  decide +kernel

theorem isdead_eq_true : g.isdead ts = true ↔ ts.marked &&& g.otherwhite &&& whitebits ≠ 0 := by
  rw [isdead, decide_eq_true_iff]

theorem isdead_eq_false : g.isdead ts = false ↔ ts.marked &&& g.otherwhite &&& whitebits = 0 := by
  rw [isdead, decide_eq_false_iff_not, not_not]

theorem survives_iff (white : g.currentwhite ∈ whites) (marks : ts.marked ∈ stringMarks) :
    g.survives ts = true ↔ g.isdead ts = false ∨ ts.marked &&& fixedbit ≠ 0 := by
  rw [survives, decide_eq_true_iff, isdead_eq_false]
  exact survives_marks _ white _ marks

theorem whiten_alive (white : g.currentwhite ∈ whites) (marks : ts.marked ∈ stringMarks) :
    g.isdead (g.whiten ts) = false :=
  isdead_eq_false.mpr (makewhite_marks _ white _ marks).2

end Marks

theorem sweeplist_eq (g : StringTable) (bucket : List TString) (nuse : UInt32) :
    sweeplist g bucket nuse =
      ((bucket.filter g.survives).map g.whiten, nuse - UInt32.ofNat (bucket.countP (!g.survives ·))) := by
  induction bucket generalizing nuse with
  | nil => simp [sweeplist]
  | cons curr rest ih =>
      by_cases kept : (curr.marked ^^^ whitebits) &&& g.otherwhite ≠ 0
      · have survives : g.survives curr = true := decide_eq_true kept
        rw [sweeplist, if_pos kept, ih]
        simp [survives, whiten]
      · have erased : g.survives curr = false := decide_eq_false kept
        rw [sweeplist, if_neg kept, ih]
        simp only [erased, List.filter_cons, List.countP_cons, Bool.not_false, if_true, Bool.false_eq_true,
          if_false, UInt32.ofNat_add, Prod.mk.injEq, true_and]
        grind

theorem lmod_lt (h : UInt32) {size : Nat} (positive : 0 < size) : lmod h size < size := by
  have below : lmod h size ≤ size - 1 := Nat.and_le_right
  omega

section Remark

variable {g : StringTable} {address i : Nat} {marks : UInt8 → UInt8} {ts : TString}

@[simp] theorem TString.remark_address (ts : TString) : (ts.remark address marks).address = ts.address := by
  rw [remark]
  split_ifs <;> rfl

@[simp] theorem TString.remark_bytes (ts : TString) : (ts.remark address marks).bytes = ts.bytes := by
  rw [remark]
  split_ifs <;> rfl

@[simp] theorem TString.remark_hash (ts : TString) : (ts.remark address marks).hash = ts.hash := by
  rw [remark]
  split_ifs <;> rfl

theorem strings_setMarked : (g.setMarked address marks).strings = g.strings.map (TString.remark address marks) := by
  rw [strings, setMarked, strings, List.map_flatten]

theorem mem_setMarked : ts ∈ (g.setMarked address marks).buckets.getD i [] ↔
    ∃ old ∈ g.buckets.getD i [], old.remark address marks = ts := by
  rw [setMarked, List.getD_eq_getElem?_getD, List.getElem?_map, List.getD_eq_getElem?_getD]
  cases g.buckets[i]? <;> simp

theorem size_setMarked : (g.setMarked address marks).size = g.size :=
  List.length_map ..

end Remark

section ChainEntry

variable {g : StringTable} {ts other : TString} {i : Nat}

theorem chainEntry_buckets :
    (g.chainEntry ts).buckets = Buckets.insert (fun ts => lmod ts.hash g.size) g.buckets ts := rfl

theorem size_chainEntry : (g.chainEntry ts).size = g.size := by
  rw [StringTable.size, chainEntry_buckets, Buckets.length_insert, StringTable.size]

theorem strings_chainEntry (positive : 0 < g.size) : (g.chainEntry ts).strings.Perm (ts :: g.strings) := by
  rw [StringTable.strings, chainEntry_buckets]
  apply Buckets.flatten_insert
  exact lmod_lt ts.hash positive

theorem mem_chainEntry (member : other ∈ (g.chainEntry ts).buckets.getD i []) :
    other = ts ∨ other ∈ g.buckets.getD i [] := by
  rw [chainEntry_buckets] at member
  rcases Buckets.mem_getD_insert member with ⟨same, _⟩ | old
  · exact .inl same
  · exact .inr old

end ChainEntry

section SweepBucket

variable {g : StringTable} {ts : TString} {i j : Nat}

theorem sweepBucket_buckets :
    (sweepBucket g i).buckets =
      g.buckets.modify i fun bucket => (bucket.filter g.survives).map g.whiten := by
  apply List.ext_getElem?
  intro j
  rw [sweepBucket, List.getElem?_set, List.getElem?_modify, sweeplist_eq, List.getD_eq_getElem?_getD]
  by_cases here : i = j
  · subst here
    by_cases inside : i < g.buckets.length <;> simp [inside]
  · simp [here]

theorem mem_sweepBucket :
    ts ∈ (sweepBucket g i).buckets.getD j [] ↔
      if i = j then ∃ old ∈ g.buckets.getD i [], g.survives old = true ∧ g.whiten old = ts
      else ts ∈ g.buckets.getD j [] := by
  rw [sweepBucket_buckets, Buckets.getD_modify (by rfl)]
  by_cases here : i = j
  · subst here
    simp [and_assoc]
  · simp [here]

theorem size_sweepBucket : (sweepBucket g i).size = g.size :=
  List.length_set ..

theorem mem_strings_sweepBucket (member : ts ∈ (sweepBucket g i).strings) :
    ∃ old ∈ g.strings, ts = old ∨ ts = g.whiten old := by
  obtain ⟨j, inside⟩ := Buckets.exists_mem_getD member
  rw [mem_sweepBucket] at inside
  split_ifs at inside
  · obtain ⟨old, here, survives, rfl⟩ := inside
    exact ⟨old, Buckets.mem_flatten_of_mem_getD here, .inr rfl⟩
  · exact ⟨ts, Buckets.mem_flatten_of_mem_getD inside, .inl rfl⟩

theorem strings_sweepBucket {κ : Type} {key : TString → κ} (same : ∀ ts, key (g.whiten ts) = key ts) :
    ((sweepBucket g i).strings.map key).Sublist (g.strings.map key) := by
  rw [StringTable.strings, sweepBucket_buckets]
  apply Buckets.flatten_modify_sublist
  intro bucket
  rw [List.map_map, show key ∘ g.whiten = key from funext same]
  exact List.filter_sublist.map key

end SweepBucket

namespace StringTable.Stored

variable {g : StringTable} {ts other : TString} {address : Nat} {str : Bytes}

theorem mem_bucket (stored : g.Stored) (member : ts ∈ g.strings) :
    ts ∈ g.buckets.getD (lmod ts.hash g.size) [] :=
  stored.placed.mem_getD member

theorem eq_of_address (stored : g.Stored) (member : ts ∈ g.strings) (memberToo : other ∈ g.strings)
    (same : ts.address = other.address) : ts = other :=
  List.inj_on_of_nodup_map stored.addresses member memberToo same

theorem eq_of_bytes (stored : g.Stored) (member : ts ∈ g.strings) (memberToo : other ∈ g.strings)
    (same : ts.bytes = other.bytes) : ts = other :=
  List.inj_on_of_nodup_map stored.distinct member memberToo same

/-- The lookup of `luaS_newlstr` only goes through one list, but misses no string. -/
theorem find_eq_none (stored : g.Stored)
    (absent : (g.buckets.getD (lmod (stringHash str) g.size) []).find? (fun ts => ts.bytes = str) = none) :
    str ∉ g.strings.map TString.bytes := by
  intro present
  obtain ⟨ts, member, same⟩ := List.mem_map.mp present
  have here := stored.mem_bucket member
  rw [stored.hashed ts member, same] at here
  have differs := List.find?_eq_none.mp absent ts here
  simp [same] at differs

theorem luaSnewlstr_cases (stored : g.Stored) (str : Bytes) (address : Nat) :
    (∃ ts ∈ g.strings, ts.bytes = str ∧
      luaSnewlstr g str address =
        (if g.isdead ts then g.setMarked ts.address changewhite else g, ts.address)) ∨
    (str ∉ g.strings.map TString.bytes ∧
      luaSnewlstr g str address = (newlstr g str (stringHash str) address, address)) := by
  unfold luaSnewlstr
  dsimp only
  split
  case h_1 ts found =>
    have same : ts.bytes = str := by simpa using List.find?_some found
    exact .inl ⟨ts, Buckets.mem_flatten_of_mem_getD (List.mem_of_find?_eq_some found), same, rfl⟩
  case h_2 absent => exact .inr ⟨stored.find_eq_none absent, rfl⟩

theorem setMarked (stored : g.Stored) (marks : UInt8 → UInt8) : (g.setMarked address marks).Stored := by
  constructor
  case positive => rw [size_setMarked]; exact stored.positive
  case placed =>
    intro i ts inside
    obtain ⟨old, here, rfl⟩ := mem_setMarked.mp inside
    dsimp only
    rw [size_setMarked, TString.remark_hash]
    exact stored.placed i old here
  case hashed =>
    intro ts inside
    rw [strings_setMarked, List.mem_map] at inside
    obtain ⟨old, here, rfl⟩ := inside
    rw [TString.remark_hash, TString.remark_bytes]
    exact stored.hashed old here
  case addresses =>
    rw [strings_setMarked, List.map_map, show TString.address ∘ _ = TString.address from funext TString.remark_address]
    exact stored.addresses
  case distinct =>
    rw [strings_setMarked, List.map_map, show TString.bytes ∘ _ = TString.bytes from funext TString.remark_bytes]
    exact stored.distinct
  case counted =>
    rw [strings_setMarked, List.length_map]
    exact stored.counted

theorem chainEntry (stored : g.Stored) (hashed : ts.hash = stringHash ts.bytes)
    (fresh : ts.address ∉ g.strings.map TString.address) (absent : ts.bytes ∉ g.strings.map TString.bytes) :
    (g.chainEntry ts).Stored := by
  have strings := @strings_chainEntry g ts stored.positive
  constructor
  case positive => rw [size_chainEntry]; exact stored.positive
  case placed =>
    rw [size_chainEntry]
    exact stored.placed.insert ts
  case hashed =>
    intro other member
    rcases List.mem_cons.mp (strings.mem_iff.mp member) with rfl | old
    · exact hashed
    · exact stored.hashed other old
  case addresses =>
    rw [(strings.map _).nodup_iff, List.map_cons, List.nodup_cons]
    exact ⟨fresh, stored.addresses⟩
  case distinct =>
    rw [(strings.map _).nodup_iff, List.map_cons, List.nodup_cons]
    exact ⟨absent, stored.distinct⟩
  case counted =>
    rw [strings.length_eq, List.length_cons, UInt32.ofNat_add, ← stored.counted]
    rfl

theorem sweepBucket (stored : g.Stored) (i : Nat) : (sweepBucket g i).Stored := by
  constructor
  case positive => rw [size_sweepBucket]; exact stored.positive
  case placed =>
    intro j ts inside
    rw [size_sweepBucket]
    rw [mem_sweepBucket] at inside
    split_ifs at inside with here
    · obtain ⟨old, member, survives, rfl⟩ := inside
      rw [← here]
      exact stored.placed i old member
    · exact stored.placed j ts inside
  case hashed =>
    intro ts member
    obtain ⟨old, here, rfl | rfl⟩ := mem_strings_sweepBucket member
    · exact stored.hashed _ here
    · exact stored.hashed old here
  case addresses => exact stored.addresses.sublist (strings_sweepBucket fun _ => rfl)
  case distinct => exact stored.distinct.sublist (strings_sweepBucket fun _ => rfl)
  case counted =>
    -- what the list loses is what `nuse` loses
    have lengths := @Buckets.length_flatten_modify _ g.buckets
      (fun bucket => (bucket.filter g.survives).map g.whiten) rfl i
    rw [← sweepBucket_buckets, List.length_map] at lengths
    have split : (g.buckets.getD i []).length =
        (g.buckets.getD i []).countP g.survives + (g.buckets.getD i []).countP (!g.survives ·) := by
      simpa using @List.length_eq_countP_add_countP _ g.survives (g.buckets.getD i [])
    rw [← List.countP_eq_length_filter] at lengths
    have nuse : (Lua.sweepBucket g i).nuse =
        g.nuse - UInt32.ofNat ((g.buckets.getD i []).countP (!g.survives ·)) := by
      rw [Lua.sweepBucket, sweeplist_eq]
    have total : g.strings.length =
        (Lua.sweepBucket g i).strings.length + (g.buckets.getD i []).countP (!g.survives ·) := by
      rw [StringTable.strings, StringTable.strings]
      omega
    rw [nuse, stored.counted, total, UInt32.ofNat_add]
    grind

end StringTable.Stored

theorem strings_luaSresize {g : StringTable} {newsize : Nat} (positive : 0 < newsize) :
    (luaSresize g newsize).strings.Perm g.strings := by
  unfold luaSresize
  split_ifs
  · exact List.Perm.refl _
  · exact Buckets.flatten_rehash (fun ts => lmod_lt ts.hash positive) g.buckets

theorem luaSresize_stored {g : StringTable} {newsize : Nat} (stored : g.Stored) (positive : 0 < newsize) :
    (luaSresize g newsize).Stored := by
  have strings := @strings_luaSresize g newsize positive
  unfold luaSresize at strings ⊢
  split_ifs at strings ⊢
  · exact stored
  · have inside : ∀ ts : TString, lmod ts.hash newsize < newsize := fun ts => lmod_lt ts.hash positive
    have size := Buckets.length_rehash inside g.buckets
    constructor
    case positive => rwa [StringTable.size, size]
    case placed =>
      rw [StringTable.size, size]
      exact Buckets.rehash_placed inside g.buckets
    case hashed => exact fun ts member => stored.hashed ts (strings.mem_iff.mp member)
    case addresses => exact (strings.map _).nodup_iff.mpr stored.addresses
    case distinct => exact (strings.map _).nodup_iff.mpr stored.distinct
    case counted =>
      rw [strings.length_eq]
      exact stored.counted

/-- `newlstr` adds the string to what is there, whether the table grows or not. -/
theorem strings_newlstr {g : StringTable} {str : Bytes} {h : UInt32} {address : Nat} (stored : g.Stored) :
    (newlstr g str h address).strings.Perm
        ({ address := address, bytes := str, hash := h, marked := g.luaCwhite } :: g.strings) ∧
      (newlstr g str h address).currentwhite = g.currentwhite := by
  have chained := @strings_chainEntry g
    { address := address, bytes := str, hash := h, marked := g.luaCwhite } stored.positive
  unfold newlstr
  dsimp only
  split_ifs
  · have positive : 0 < g.size * 2 := Nat.mul_pos stored.positive (by omega)
    rw [size_chainEntry]
    refine ⟨(strings_luaSresize positive).trans chained, ?_⟩
    unfold luaSresize
    split_ifs <;> rfl
  · exact ⟨chained, rfl⟩

namespace StringTable.Valid

variable {g : StringTable} {ts other : TString} {address : Nat} {str : Bytes}

theorem setMarked (valid : g.Valid) {marks : UInt8 → UInt8}
    (legal : ∀ ts ∈ g.strings, ts.address = address → marks ts.marked ∈ stringMarks)
    (unkilled : ∀ ts ∈ g.strings, ts.address = address →
      g.isdead { ts with marked := marks ts.marked } = true → g.isdead ts = true) :
    (g.setMarked address marks).Valid where
  toStored := valid.toStored.setMarked marks
  white := valid.white
  marks := by
    intro ts inside
    rw [strings_setMarked, List.mem_map] at inside
    obtain ⟨old, here, rfl⟩ := inside
    rw [TString.remark]
    split_ifs with at_
    · exact legal old here at_
    · exact valid.marks old here
  unswept := by
    intro i ts inside dead
    obtain ⟨old, here, rfl⟩ := mem_setMarked.mp inside
    apply valid.unswept i old here
    rw [TString.remark] at dead
    split_ifs at dead with at_
    · exact unkilled old (Buckets.mem_flatten_of_mem_getD here) at_ dead
    · exact dead
  sweeping := by
    rw [size_setMarked]
    exact valid.sweeping

theorem resize (valid : g.Valid) {newsize : Nat} (positive : 0 < newsize) : (luaSresize g newsize).Valid := by
  have stored := luaSresize_stored valid.toStored positive
  have strings := @strings_luaSresize g newsize positive
  unfold luaSresize at stored strings ⊢
  split_ifs at stored strings ⊢ with sweeping
  · exact valid
  · refine ⟨stored, valid.white, fun ts member => valid.marks ts (strings.mem_iff.mp member), ?_,
      fun now => absurd now sweeping⟩
    intro i ts member dead
    have old := strings.mem_iff.mp (Buckets.mem_flatten_of_mem_getD member)
    exact absurd (valid.unswept _ ts (valid.mem_bucket old) dead).1 sweeping

theorem chainEntry (valid : g.Valid) (hashed : ts.hash = stringHash ts.bytes)
    (marked : ts.marked = g.luaCwhite) (fresh : ts.address ∉ g.strings.map TString.address)
    (absent : ts.bytes ∉ g.strings.map TString.bytes) : (g.chainEntry ts).Valid where
  toStored := valid.toStored.chainEntry hashed fresh absent
  white := valid.white
  marks := by
    intro other member
    rcases List.mem_cons.mp ((strings_chainEntry valid.positive).mem_iff.mp member) with rfl | old
    · rw [marked]
      exact (new_marks _ valid.white).1
    · exact valid.marks other old
  unswept := by
    intro i other member dead
    rcases mem_chainEntry member with rfl | old
    · rw [isdead_eq_true, marked] at dead
      exact absurd (new_marks _ valid.white).2 dead
    · exact valid.unswept i other old dead
  sweeping := by
    rw [size_chainEntry]
    exact valid.sweeping

theorem luaSnewlstr (valid : g.Valid) (fresh : address ∉ g.strings.map TString.address) :
    (luaSnewlstr g str address).1.Valid := by
  rcases valid.luaSnewlstr_cases str address with ⟨ts, member, same, found⟩ | ⟨absent, made⟩
  · rw [found]
    dsimp only
    split_ifs with dead
    · -- the marks of a dead string lose one white bit and get the other
      have same : ∀ other ∈ g.strings, other.address = ts.address → other = ts :=
        fun other inside address => valid.eq_of_address inside member address
      obtain ⟨legal, alive⟩ :=
        changewhite_marks _ valid.white _ (valid.marks ts member) (isdead_eq_true.mp dead)
      apply valid.setMarked
      · intro other inside address
        rwa [same other inside address]
      · intro other inside address deadAfter
        rw [same other inside address, isdead_eq_true] at deadAfter
        exact absurd alive deadAfter
    · exact valid
  · rw [made]
    have chained := @chainEntry g
      { address := address, bytes := str, hash := stringHash str, marked := g.luaCwhite }
      valid rfl rfl fresh absent
    unfold newlstr
    dsimp only
    split_ifs
    · exact chained.resize (Nat.mul_pos chained.positive (by omega))
    · exact chained

theorem sweepstring (valid : g.Valid) {gcstate : GCState}
    (goesOn : gcstate = .sweepstring ∧ g.sweepstrgc + 1 < g.size ∨ gcstate ≠ .sweepstring ∧ g.size ≤ g.sweepstrgc + 1) :
    { sweepBucket g g.sweepstrgc with sweepstrgc := g.sweepstrgc + 1, gcstate := gcstate }.Valid where
  toStored := { valid.toStored.sweepBucket g.sweepstrgc with }
  white := valid.white
  marks := by
    intro ts member
    obtain ⟨old, here, rfl | rfl⟩ := mem_strings_sweepBucket member
    · exact valid.marks _ here
    · exact (makewhite_marks _ valid.white _ (valid.marks old here)).1
  unswept := by
    intro i ts inside dead
    have inBucket := mem_sweepBucket.mp inside
    split_ifs at inBucket with here
    · obtain ⟨old, member, survives, rfl⟩ := inBucket
      have alive := whiten_alive valid.white (valid.marks old (Buckets.mem_flatten_of_mem_getD member))
      exact absurd (alive.symm.trans dead) Bool.false_ne_true
    · have later := (valid.unswept i ts inBucket dead).2
      have within : i < g.size := by
        rw [← valid.placed i ts inBucket]
        exact lmod_lt _ valid.positive
      rcases goesOn with ⟨now, more⟩ | ⟨now, last⟩
      · exact ⟨now, Nat.lt_of_le_of_ne later here⟩
      · omega
  sweeping := by
    intro now
    rcases goesOn with ⟨_, more⟩ | ⟨ended, _⟩
    · exact Nat.lt_of_lt_of_eq more (@size_sweepBucket g g.sweepstrgc).symm
    · exact absurd now ended

theorem setState (valid : g.Valid) (resting : g.gcstate ≠ .sweepstring) {gcstate : GCState}
    (restingToo : gcstate ≠ .sweepstring) : { g with gcstate := gcstate }.Valid where
  toStored := { valid.toStored with }
  white := valid.white
  marks := valid.marks
  unswept := fun i ts member dead => absurd (valid.unswept i ts member dead).1 resting
  sweeping := fun now => absurd now restingToo

theorem step (valid : g.Valid) {event : StringEvent} {next : StringTable}
    (stepped : stringStep g event = some next) : next.Valid := by
  cases event with
  | newlstr str address =>
      simp only [stringStep, Option.ite_none_left_eq_some, Option.some.injEq] at stepped
      obtain ⟨fresh, rfl⟩ := stepped
      exact valid.luaSnewlstr fresh
  | fix address =>
      cases stepped
      have fixed := fun ts member => luaSfix_marks _ valid.white _ (valid.marks ts member)
      apply valid.setMarked
      · exact fun ts member _ => (fixed ts member).1
      · intro ts member _ dead
        rw [isdead_eq_true] at dead ⊢
        intro alive
        exact dead ((fixed ts member).2.2.trans alive)
  | mark address =>
      simp only [stringStep, Option.ite_none_right_eq_some, Option.some.injEq] at stepped
      obtain ⟨propagating, rfl⟩ := stepped
      have gray := fun ts member => white2gray_marks _ valid.white _ (valid.marks ts member)
      apply valid.setMarked
      · exact fun ts member _ => (gray ts member).1
      · intro ts member _ dead
        rw [isdead_eq_true] at dead
        exact absurd (gray ts member).2 dead
  | markroot =>
      simp only [stringStep, Option.ite_none_right_eq_some, Option.some.injEq] at stepped
      obtain ⟨started, rfl⟩ := stepped
      exact valid.setState (by rcases started with now | now <;> simp [now]) (by simp)
  | atomic =>
      simp only [stringStep, Option.ite_none_right_eq_some, Option.some.injEq] at stepped
      obtain ⟨propagating, rfl⟩ := stepped
      refine ⟨{ valid.toStored with }, flip_marks _ valid.white, valid.marks, ?_, fun _ => valid.positive⟩
      exact fun i ts member dead => ⟨rfl, Nat.zero_le i⟩
  | sweepstring =>
      simp only [stringStep, Option.ite_none_right_eq_some, Option.some.injEq] at stepped
      obtain ⟨sweeping, rfl⟩ := stepped
      have size := @size_sweepBucket g g.sweepstrgc
      split_ifs with last
      · exact valid.sweepstring (.inr ⟨by simp, Nat.le_trans size.ge last⟩)
      · have swept := @sweepstring g valid .sweepstring
          (.inl ⟨rfl, Nat.lt_of_lt_of_eq (Nat.lt_of_not_le last) size⟩)
        rwa [← sweeping] at swept
  | endSweep =>
      simp only [stringStep, Option.ite_none_right_eq_some, Option.some.injEq] at stepped
      obtain ⟨sweeping, rfl⟩ := stepped
      have checked : (checkSizes g).Valid ∧ (checkSizes g).gcstate = .sweep := by
        unfold checkSizes
        split_ifs with crowded
        · refine ⟨valid.resize ?_, by simp [luaSresize, sweeping]⟩
          have large := crowded.2
          simp only [minstrtabsize] at large
          omega
        · exact ⟨valid, sweeping⟩
      exact checked.1.setState (by simp [checked.2]) (by simp)
  | endFinalize =>
      simp only [stringStep, Option.ite_none_right_eq_some, Option.some.injEq] at stepped
      obtain ⟨finalizing, rfl⟩ := stepped
      exact valid.setState (by simp [finalizing]) (by simp)
  | abandon =>
      simp only [stringStep, Option.ite_none_right_eq_some, Option.some.injEq] at stepped
      obtain ⟨marking, rfl⟩ := stepped
      refine ⟨{ valid.toStored with }, valid.white, valid.marks, ?_, fun _ => valid.positive⟩
      exact fun i ts member dead => ⟨rfl, Nat.zero_le i⟩

theorem opened : StringTable.opened.Valid := by
  have strings : StringTable.opened.strings = [] := by decide +kernel
  have none : ∀ {i ts}, ts ∉ StringTable.opened.buckets.getD i [] := by
    intro i ts member
    have inside := Buckets.mem_flatten_of_mem_getD member
    rw [show StringTable.opened.buckets.flatten = [] from strings] at inside
    exact List.not_mem_nil inside
  refine ⟨⟨by decide +kernel, fun _ _ member => absurd member none, ?_, ?_, ?_, by decide +kernel⟩, by decide, ?_,
    fun _ _ member => absurd member none, by decide +kernel⟩ <;> simp [strings]

end StringTable.Valid

end GameServer.Lua
