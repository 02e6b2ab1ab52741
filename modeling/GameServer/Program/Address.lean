import GameServer.Program.Completion

namespace GameServer

open Lua LuaM

/-! Where a request goes: the address the check lets through, beside the addresses that
need no name resolution, and the port. -/

/-! ## IPv4 addresses -/

def decimalValue (part : Bytes) : Nat :=
  part.foldl (fun value digit => 10 * value + (digit.toNat - 48)) 0

/-- A decimal number from 0 to 255. -/
def IsOctet (part : Bytes) : Prop :=
  part ≠ [] ∧ (∀ c ∈ part, 48 ≤ c ∧ c ≤ 57) ∧ decimalValue part ≤ 255

/-- Four such numbers, separated by single dots. -/
def IsIpv4 (text : Bytes) : Prop :=
  (text.splitOn 46).length = 4 ∧ ∀ part ∈ text.splitOn 46, IsOctet part

instance (part : Bytes) : Decidable (IsOctet part) :=
  have : Decidable (∀ c ∈ part, 48 ≤ c ∧ c ≤ 57) := List.decidableBAll _ part
  inferInstanceAs (Decidable (_ ∧ _ ∧ _))

instance (text : Bytes) : Decidable (IsIpv4 text) :=
  inferInstanceAs (Decidable (_ ∧ _))

example : IsIpv4 (lit "220.181.112.143") ∧ ¬ IsIpv4 (lit "1.2.3") ∧ ¬ IsIpv4 (lit "1..2.3") := by
  decide

theorem IsIpv4.ne_nil {text : Bytes} (isAddress : IsIpv4 text) : text ≠ [] := by
  intro same
  subst same
  exact absurd isAddress.1 (by decide)

theorem mem_intercalate {c separator : UInt8} {parts : List Bytes}
    (member : c ∈ [separator].intercalate parts) : c = separator ∨ ∃ part ∈ parts, c ∈ part := by
  induction parts with
  | nil => simp [List.intercalate_nil] at member
  | cons part rest induction =>
      cases rest with
      | nil =>
          rw [List.intercalate_singleton] at member
          exact .inr ⟨part, List.mem_cons_self, member⟩
      | cons next rest =>
          rw [List.intercalate_cons_cons, List.append_assoc, List.mem_append, List.mem_append] at member
          rcases member with here | between | later
          · exact .inr ⟨part, List.mem_cons_self, here⟩
          · exact .inl (by simpa using between)
          · rcases induction later with same | ⟨other, among, member⟩
            · exact .inl same
            · exact .inr ⟨other, List.mem_cons_of_mem _ among, member⟩

theorem IsIpv4.isIpChar {text : Bytes} (isAddress : IsIpv4 text) {c : UInt8} (member : c ∈ text) :
    isIpChar c = true := by
  rw [← @List.intercalate_splitOn _ text _ _ 46] at member
  rcases mem_intercalate member with rfl | ⟨part, partMember, member⟩
  · decide
  · have digit := (isAddress.2 part partMember).2.1 c member
    simp [GameServer.isIpChar, digit]

/-! ## The check -/

theorem sizeToInt_of_small {size : Nat} (small : size < 2147483648) : sizeToInt size = size := by
  unfold sizeToInt
  rw [Int.bmod_def]
  push_cast
  split_ifs <;> omega

theorem sizeToInt_of_large {size : Nat} (large : 2147483648 ≤ size) (fits : size < 4294967296) :
    sizeToInt size < 0 := by
  unfold sizeToInt
  rw [Int.bmod_def]
  push_cast
  split_ifs <;> omega

theorem isIpText_iff {text : Bytes} (fits : text.length < 4294967296) :
    isIpText text = true ↔
      text ≠ [] ∧ text.length < 2147483648 ∧ ∀ c ∈ text, isIpChar c = true := by
  by_cases small : text.length < 2147483648
  · have positive : (1 : Int) ≤ text.length ↔ text ≠ [] := by
      rw [← List.length_pos_iff]
      omega
    simp [isIpText, sizeToInt_of_small small, positive, small]
  · have negative := sizeToInt_of_large (by omega) fits
    simp [isIpText_of_short (by omega : sizeToInt text.length < 1), small]

/-- The check answers 1 for the addresses that need no resolution and for nothing else, so
that `http.get` and `http.post` refuse the others before libevent sees them. -/
structure ChecksAddress (ip : Bytes) : Prop where
  exact (state : LuaState Server) :
    ∃ after, isIp (some ip) state = .ok (decide (IsIpv4 (cstr ip))) after
  guards (rt : Runtime Server) (command : Command) (allocation : Allocation) (network : Network)
    (arguments : List Value) (passed : List (Sink × CharPtr)) (world : World Server) :
    argumentText rt.toPlatform arguments 0 = some ip →
    (∃ stack passed', luaHttpRequest rt command allocation network ⟨arguments.reverse, passed, world⟩ =
      .ok 1 ⟨.boolean false :: stack, passed', world⟩) ∨
    (IsIpv4 (cstr ip) ∧ ∃ (read : HttpArguments) (before : LuaState Server), read.ip = some ip ∧
      luaHttpRequest rt command allocation network ⟨arguments.reverse, passed, world⟩ =
        sendRequest rt command allocation network read before)

theorem checksAddress_iff (ip : Bytes) :
    ChecksAddress ip ↔ (isIpText (cstr ip) = true ↔ IsIpv4 (cstr ip)) := by
  constructor
  · intro checks
    obtain ⟨after, answered⟩ := checks.exact ⟨[], [], .start (.ofTables [])⟩
    rw [isIp_some] at answered
    injection answered with same
    rw [same, decide_eq_true_iff]
  · intro same
    constructor
    · intro state
      have answer : decide (IsIpv4 (cstr ip)) = isIpText (cstr ip) := by
        rw [Bool.eq_iff_iff, decide_eq_true_iff, same]
      rw [isIp_some, answer]
      exact ⟨_, rfl⟩
    · intro rt command allocation network arguments passed world given
      rw [luaHttpRequest, bind_apply]
      by_cases short : arguments.length < 3
      · rw [httpArguments_short rt short]
        exact .inl ⟨_, _, rfl⟩
      obtain ⟨stack, applied⟩ := httpArguments_apply rt (Nat.le_of_not_lt short) given passed world
      rw [applied, Outcome.ok_bind]
      cases found : accepted rt.toPlatform arguments ip _ with
      | none => exact .inl ⟨_, _, rfl⟩
      | some read =>
          have isAddress : isIpText (cstr ip) = true := accepted_isAddress _ found
          obtain ⟨table, function, rfl, -⟩ := accepted_eq_some _ found
          exact .inr ⟨same.mp isAddress, _, _, rfl, rfl⟩

/-- The test looks at single characters: of the strings of digits and dots it takes all,
as long as their length is a positive `int`. -/
theorem isIp_checksAddress_iff (ip : Bytes) (fits : (cstr ip).length < 4294967296) :
    ChecksAddress ip ↔
      cstr ip = [] ∨ (∃ c ∈ cstr ip, isIpChar c = false) ∨
        (IsIpv4 (cstr ip) ↔ (cstr ip).length < 2147483648) := by
  rw [checksAddress_iff, isIpText_iff fits]
  by_cases empty : cstr ip = []
  · have noAddress : ¬ IsIpv4 (cstr ip) := fun isAddress => isAddress.ne_nil empty
    exact iff_of_true ⟨fun passed => absurd empty passed.1, fun isAddress => absurd isAddress noAddress⟩
      (.inl empty)
  by_cases other : ∃ c ∈ cstr ip, isIpChar c = false
  · obtain ⟨c, member, isOther⟩ := other
    have noAddress : ¬ IsIpv4 (cstr ip) := by
      intro isAddress
      rw [isAddress.isIpChar member] at isOther
      cases isOther
    refine iff_of_true ⟨?_, fun isAddress => absurd isAddress noAddress⟩
      (.inr (.inl ⟨c, member, isOther⟩))
    intro passed
    rw [passed.2.2 c member] at isOther
    cases isOther
  · have characters : ∀ c ∈ cstr ip, isIpChar c = true := by simpa using other
    have passes : (cstr ip ≠ [] ∧ (cstr ip).length < 2147483648 ∧ ∀ c ∈ cstr ip, isIpChar c = true) ↔
        (cstr ip).length < 2147483648 :=
      ⟨fun passed => passed.2.1, fun small => ⟨empty, small, characters⟩⟩
    rw [passes, or_iff_right empty, or_iff_right other]
    exact Iff.comm

theorem isIp_checksAddress_loopback : ChecksAddress (lit "127.0.0.1") :=
  (isIp_checksAddress_iff (lit "127.0.0.1") (by decide)).mpr (.inr (.inr (by decide)))

/-- `999.1.1.1` gets past the check. -/
theorem isIp_checksAddress_counterexample : ¬ ChecksAddress (lit "999.1.1.1") := by
  intro checks
  obtain ⟨after, answered⟩ := checks.exact ⟨[], [], .start (.ofTables [])⟩
  rw [isIp_some] at answered
  injection answered with same
  exact absurd same (by decide)

/-! ## The port -/

theorem LuaNumber.toInt_finite {port : Int}
    (inRange : -2147483648 ≤ port ∧ port ≤ 2147483647) :
    (LuaNumber.finite port).toInt = port := by
  simp [LuaNumber.toInt, inRange]

theorem intToUshort_eq_iff {port : Int} :
    (intToUshort port : Int) = port ↔ 0 ≤ port ∧ port ≤ 65535 := by
  unfold intToUshort
  omega

/-- The request goes to the port that was asked for, or is not made. -/
def RequestsPort (port : Int) (before : Ledger Connection) (called : Outcome Server Nat) : Prop :=
  ∃ after, called = .ok 1 after ∧
    ((after.stack.head? = some (.boolean false) ∧ after.world.host.connections = before) ∨
      ∃ connection : Connection, connection.port = port ∧
        after.world.host.connections = before.acquire connection)

theorem httpRequestNew_accepted {arg : Nat} {ip uri : Bytes} (callback : Response → Nat → EngineM Unit)
    (command : Command) (port : Int) (state : LuaState Server) :
    ∃ after, httpRequestNew ⟨true, true, .accepted⟩ (some ip) port callback arg command (some uri)
        state = .ok (some state.world.host.requests.length) after ∧
      after.stack = state.stack ∧
      after.world.host.connections =
        state.world.host.connections.acquire ⟨cstr ip, intToUshort port⟩ := by
  have alive := @Ledger.live?_acquire_self _ state.world.host.requests ⟨arg⟩
  simp only [httpRequestNew, evhttpConnectionBaseNew, evhttpRequestNew, evhttpMakeRequest,
    evhttpRequest, bind_apply, read_some, Outcome.ok_bind, if_true, getHost_apply, setHost_apply,
    pure_apply, alive]
  exact ⟨_, rfl, rfl, rfl⟩

theorem luaHttpRequest_port_iff (rt : Runtime Server) (command : Command) (arguments : Arguments)
    (allocation : Allocation) {port : Int} {ip uri table function : Bytes}
    (inRange : -2147483648 ≤ port ∧ port ≤ 2147483647)
    (portNumber : argumentNumber rt.toPlatform arguments.values 1 = .finite port)
    (isAddress : isIpText (cstr ip) = true)
    (ipText : argumentText rt.toPlatform arguments.values 0 = some ip)
    (uriText : argumentText rt.toPlatform arguments.values 2 = some uri)
    (tableText : argumentText rt.toPlatform arguments.values 3 = some table)
    (functionText : argumentText rt.toPlatform arguments.values 4 = some function)
    (world : World Server) :
    RequestsPort port world.host.connections
        (luaHttpRequest rt command allocation ⟨true, true, .accepted⟩
          ⟨arguments.values.reverse, [], world⟩) ↔
      allocation.complete = false ∨ (0 ≤ port ∧ port ≤ 65535) := by
  obtain ⟨stack, called⟩ := luaHttpRequest_apply rt command allocation ⟨true, true, .accepted⟩
    isAddress ipText uriText tableText functionText world
  rw [portNumber, LuaNumber.toInt_finite inRange] at called
  rw [called, sendRequest, bind_apply]
  rcases newCallbackInfo_apply allocation (arguments.argumentText_fits _ _ tableText)
      (arguments.argumentText_fits _ _ functionText) stack [(.strlen, some ip)] world with
    ⟨complete, made⟩ | ⟨incomplete, -, made⟩ | ⟨incomplete, memory, made⟩
  case inr.inl =>
    rw [made]
    exact iff_of_true ⟨_, rfl, .inl ⟨rfl, rfl⟩⟩ (.inl incomplete)
  case inr.inr =>
    rw [made]
    exact iff_of_true ⟨_, rfl, .inl ⟨rfl, rfl⟩⟩ (.inl incomplete)
  obtain ⟨after, sent, -, opened⟩ := @httpRequestNew_accepted world.host.pools.length ip uri
    (httpRequestCb rt) command port ⟨stack, [(.strlen, some ip)] ++ [(.strncpy, some table)] ++ [(.strncpy, some function)],
      withCallback world table function allocation.junk⟩
  simp only [made, Outcome.ok_bind, bind_apply, sent]
  rw [complete, ← intToUshort_eq_iff]
  constructor
  · intro reaches
    obtain ⟨reached, answered, outcome⟩ := reaches
    cases answered
    rcases outcome with ⟨refused, -⟩ | ⟨connection, same, acquired⟩
    · cases refused
    · change after.world.host.connections = _ at acquired
      rw [opened] at acquired
      rw [← Ledger.acquire_inj acquired] at same
      exact .inr same
  · intro holds
    rcases holds with impossible | same
    · cases impossible
    · exact ⟨_, rfl, .inr ⟨_, same, opened⟩⟩

/-- `http.get("1.2.3.4", port, "/", "t", "f")`. -/
def getFrom (port : Rat) : Arguments where
  values := [.string (lit "1.2.3.4"), .number (.finite port), .string (lit "/"), .string (lit "t"),
    .string (lit "f")]
  fits bytes member := by
    simp only [List.mem_cons, Value.string.injEq, reduceCtorEq, List.not_mem_nil, false_or,
      or_false] at member
    rcases member with rfl | rfl | rfl | rfl <;> decide

theorem luaHttpRequest_port_eighty :
    RequestsPort 80 [] (luaHttpRequest default .get ⟨true, true, true, true, 0⟩ ⟨true, true, .accepted⟩
      ⟨(getFrom 80).values.reverse, [], .start (.ofTables [])⟩) :=
  (luaHttpRequest_port_iff default .get (getFrom 80) ⟨true, true, true, true, 0⟩
    (by decide) rfl (by decide) rfl rfl rfl rfl (.start (.ofTables []))).mpr (.inr (by decide))

/-- Port 65616 becomes port 80. -/
theorem luaHttpRequest_port_counterexample :
    ¬ RequestsPort 65616 [] (luaHttpRequest default .get ⟨true, true, true, true, 0⟩
      ⟨true, true, .accepted⟩ ⟨(getFrom 65616).values.reverse, [], .start (.ofTables [])⟩) := by
  intro reaches
  obtain ⟨after, called, outcome⟩ := reaches
  cases called
  rcases outcome with ⟨refused, -⟩ | ⟨connection, same, acquired⟩
  · cases refused
  · change Ledger.acquire [] ⟨lit "1.2.3.4", 80⟩ = Ledger.acquire [] connection at acquired
    rw [← Ledger.acquire_inj acquired] at same
    exact absurd same (by decide)

end GameServer
