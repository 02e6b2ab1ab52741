import GameServer.Program.Echo
import GameServer.Transition
import Mathlib.Data.List.Infix

namespace GameServer

open Transition

/-! `test_server.c`: every connection is greeted and then gets back what it sends; a timer
reports how much that was. -/

/-- A `bufferevent` of an accepted connection; which one in the order of the accepted ones it
serves is history. -/
structure Conversation where
  fd : Descriptor
  peer : Nat
  input : Bytes := []
  output : Bytes := []
deriving DecidableEq

/-- The other end of an accepted connection: what it sent, as far as it was read here, and
what was written to it. -/
structure Peer where
  sent : Bytes := []
  got : Bytes := []
deriving DecidableEq

/-- The bufferevents in memory by their address, `total_size`, what `log_print` and `perror`
printed, the timer events in memory and those of them that are pending; the peers are history. -/
structure TestServer where
  bufferevents : Nat → Option Conversation := fun _ => none
  totalSize : UInt32 := 0
  printed : List LogCall := []
  errors : List String := []
  timers : Nat := 0
  pendingTimers : Nat := 0
  peers : List Peer := []

inductive TestServerEvent where
  /-- A connection is accepted; the allocator gives the address. -/
  | accept (fd : Descriptor) (bev : Nat)
  /-- Bytes arrive and are read into the input buffer, for which the read callback is called. -/
  | read (bev : Nat) (bytes : Bytes)
  /-- The socket takes bytes from the front of the output buffer. -/
  | write (bev : Nat) (count : Nat)
  | event (bev : Nat) (events : EventFlags)
  | timeout

/-- The text of the greeting. -/
def greetingWord : Bytes := lit "zhejiushidiyicideceshi"

/-- The greeting, and then everything the peer sent. -/
def Peer.due (peer : Peer) : Bytes :=
  (List.replicate 100 greetingWord).flatten ++ peer.sent

/-- The loop of `accept_conn_cb`. -/
def greet : Nat → Bytes → Bytes
  | 0, output => output
  | left + 1, output => greet left (output ++ greetingWord)

/-- What `timeout_cb` prints for a `total_size`. -/
def sizeReport (total : UInt32) : LogCall :=
  let diff := total / 1024
  if diff ≤ 1024 then
    ⟨" total %d kb, %d kb/s", [.int (sizeToInt diff.toNat), .int (sizeToInt (diff / 5).toNat)]⟩
  else
    let diff := diff / 1024
    ⟨" total %d mb, %d mb/s", [.int (sizeToInt diff.toNat), .int (sizeToInt (diff / 5).toNat)]⟩

namespace TestServer

variable {state finish : TestServer} {events : List TestServerEvent}

def setBufferevent (bev : Nat) (found : Option Conversation) (state : TestServer) : TestServer :=
  { state with bufferevents := Function.update state.bufferevents bev found }

/-- `evtimer_new` and `evtimer_add`. -/
def addTimer (state : TestServer) : TestServer :=
  { state with timers := state.timers + 1, pendingTimers := state.pendingTimers + 1 }

def acceptConnCb (fd : Descriptor) (bev : Nat) (state : TestServer) : TestServer :=
  { state.setBufferevent bev (some { fd, peer := state.peers.length, output := greet 100 [] }) with
    peers := state.peers ++ [{}] }

/-- `echo_read_cb`, with the bytes libevent has put into the input buffer. -/
def echoReadCb (bev : Nat) (found : Conversation) (state : TestServer) : TestServer :=
  { state.setBufferevent bev (some { found with input := [], output := found.output ++ found.input }) with
    totalSize := state.totalSize + UInt32.ofNat found.input.length }

def echoEventCb (bev : Nat) (events : EventFlags) (state : TestServer) : TestServer :=
  let state :=
    if events &&& bevEventError ≠ 0 then { state with errors := state.errors ++ ["Error from bufferevent"] }
    else state
  if events &&& (bevEventEof ||| bevEventError) ≠ 0 then state.setBufferevent bev none else state

/-- `timeout_cb`.  The timer that fired is no longer pending, and nothing frees it. -/
def timeoutCb (state : TestServer) : TestServer :=
  addTimer { state with
    totalSize := 0
    printed := state.printed ++ [sizeReport state.totalSize]
    pendingTimers := state.pendingTimers - 1 }

/-- `init_test_server` up to the event loop. -/
def init : TestServer := addTimer {}

/-- What libevent does: it calls back for bufferevents that were not freed and for timers that
are pending, and a new bufferevent is in unused memory. -/
def step (state : TestServer) : TestServerEvent → Option TestServer
  | .accept fd bev => if (state.bufferevents bev).isNone then some (state.acceptConnCb fd bev) else none
  | .read bev bytes =>
      (state.bufferevents bev).map fun found =>
        echoReadCb bev { found with input := found.input ++ bytes }
          { state with
            peers := state.peers.modify found.peer fun peer => { peer with sent := peer.sent ++ bytes } }
  | .write bev count =>
      (state.bufferevents bev).map fun found =>
        setBufferevent bev (some { found with output := found.output.drop count })
          { state with
            peers := state.peers.modify found.peer fun peer =>
              { peer with got := peer.got ++ found.output.take count } }
  | .event bev events => (state.bufferevents bev).map fun _ => state.echoEventCb bev events
  | .timeout => if 0 < state.pendingTimers then some state.timeoutCb else none

theorem acceptConnCb_bufferevents (fd : Descriptor) (bev : Nat) :
    (state.acceptConnCb fd bev).bufferevents = Function.update state.bufferevents bev
      (some { fd, peer := state.peers.length, output := greet 100 [] }) := rfl

theorem acceptConnCb_peers (fd : Descriptor) (bev : Nat) :
    (state.acceptConnCb fd bev).peers = state.peers ++ [({} : Peer)] := rfl

/-- `echo_event_cb` frees the bufferevent or leaves all as they are. -/
theorem echoEventCb_live {bev place : Nat} {events : EventFlags} {found : Conversation}
    (live : (state.echoEventCb bev events).bufferevents place = some found) :
    state.bufferevents place = some found := by
  have freed : ∀ {bufferevents : Nat → Option Conversation},
      Function.update bufferevents bev none place = some found → bufferevents place = some found := by
    intro bufferevents left
    by_cases here : place = bev
    · subst here
      rw [Function.update_self] at left
      cases left
    · rwa [Function.update_of_ne here] at left
  unfold echoEventCb at live
  split_ifs at live
  · exact freed live
  · exact live
  · exact freed live
  · exact live

theorem echoEventCb_rest (bev : Nat) (events : EventFlags) :
    ∃ bufferevents errors, state.echoEventCb bev events = { state with bufferevents, errors } := by
  unfold echoEventCb
  split_ifs <;> exact ⟨_, _, rfl⟩

/-! ## What comes back -/

theorem greet_eq (left : Nat) (output : Bytes) :
    greet left output = output ++ (List.replicate left greetingWord).flatten := by
  induction left generalizing output with
  | zero => simp [greet]
  | succ left ih => rw [greet, ih, List.append_assoc, List.replicate_succ, List.flatten_cons]

theorem greet_nil (left : Nat) : [] ++ greet left [] = (List.replicate left greetingWord).flatten ++ [] := by
  rw [greet_eq, List.nil_append, List.nil_append, List.append_nil]

/-- A new peer is due the greeting. -/
theorem greet_due : ({} : Peer).got ++ greet 100 [] = ({} : Peer).due :=
  greet_nil 100

/-- What waits in a connection is what its peer is still to get, nobody got anything else, and
no two connections have the same peer. -/
structure Echoes (state : TestServer) : Prop where
  waiting : ∀ bev found, state.bufferevents bev = some found →
    ∃ peer, state.peers[found.peer]? = some peer ∧ found.input = [] ∧ peer.got ++ found.output = peer.due
  gotten : ∀ peer ∈ state.peers, peer.got <+: peer.due
  apart : ∀ bev other found otherFound, state.bufferevents bev = some found →
    state.bufferevents other = some otherFound → found.peer = otherFound.peer → bev = other

namespace Echoes

variable {after : TestServer} {bev : Nat} {found next : Conversation} {change : Peer → Peer}

theorem nothing : Echoes init where
  waiting _ _ live := by cases live
  gotten _ member := by cases member
  apart _ _ _ _ live := by cases live

/-- A connection and its peer change together. -/
theorem exchange (echoes : Echoes state) (live : state.bufferevents bev = some found)
    (bufferevents : after.bufferevents = Function.update state.bufferevents bev (some next))
    (peers : after.peers = state.peers.modify found.peer change) (same : next.peer = found.peer)
    (input : next.input = [])
    (kept : ∀ peer, peer.got ++ found.output = peer.due → (change peer).got ++ next.output = (change peer).due) :
    Echoes after where
  waiting other conversation there := by
    rw [bufferevents] at there
    rw [peers]
    by_cases here : other = bev
    · subst here
      rw [Function.update_self, Option.some.injEq] at there
      subst there
      obtain ⟨peer, served, -, waits⟩ := echoes.waiting other found live
      refine ⟨change peer, ?_, input, kept peer waits⟩
      rw [same, List.getElem?_modify_eq, served]
      rfl
    · rw [Function.update_of_ne here] at there
      obtain ⟨peer, served, empty, waits⟩ := echoes.waiting other conversation there
      refine ⟨peer, ?_, empty, waits⟩
      have different : found.peer ≠ conversation.peer := by
        intro equal
        exact here (echoes.apart other bev conversation found there live equal.symm)
      rw [List.getElem?_modify_ne _ _ different, served]
  gotten peer member := by
    rw [peers] at member
    obtain ⟨index, bound, rfl⟩ := List.mem_iff_getElem.mp member
    rw [List.length_modify] at bound
    rw [List.getElem_modify]
    split_ifs with here
    · obtain ⟨before, served, -, waits⟩ := echoes.waiting bev found live
      have this : before = state.peers[index] := by
        rw [here, List.getElem?_eq_getElem bound, Option.some.injEq] at served
        exact served.symm
      rw [← this]
      exact ⟨next.output, kept before waits⟩
    · exact echoes.gotten _ (List.getElem_mem bound)
  apart one other conversation otherConversation there otherThere equal := by
    have old : ∀ place found', after.bufferevents place = some found' →
        ∃ before, state.bufferevents place = some before ∧ before.peer = found'.peer := by
      intro place found' placed
      rw [bufferevents] at placed
      by_cases here : place = bev
      · subst here
        rw [Function.update_self, Option.some.injEq] at placed
        exact ⟨found, live, by rw [← placed, same]⟩
      · rw [Function.update_of_ne here] at placed
        exact ⟨found', placed, rfl⟩
    obtain ⟨before, was, peer⟩ := old one conversation there
    obtain ⟨otherBefore, otherWas, otherPeer⟩ := old other otherConversation otherThere
    exact echoes.apart one other before otherBefore was otherWas (peer.trans (equal.trans otherPeer.symm))

theorem accept (echoes : Echoes state) (fd : Descriptor) (bev : Nat) : Echoes (state.acceptConnCb fd bev) := by
  have inside : ∀ place found, state.bufferevents place = some found → found.peer < state.peers.length := by
    intro place found live
    obtain ⟨peer, served, -⟩ := echoes.waiting place found live
    exact (List.getElem?_eq_some_iff.mp served).1
  have cases_ : ∀ place found, (state.acceptConnCb fd bev).bufferevents place = some found →
      (place = bev ∧ found = { fd, peer := state.peers.length, output := greet 100 [] }) ∨
        state.bufferevents place = some found := by
    intro place found live
    by_cases here : place = bev
    · subst here
      rw [acceptConnCb_bufferevents, Function.update_self, Option.some.injEq] at live
      exact .inl ⟨rfl, live.symm⟩
    · rw [acceptConnCb_bufferevents, Function.update_of_ne here] at live
      exact .inr live
  refine ⟨?_, ?_, ?_⟩
  · intro place found live
    rcases cases_ place found live with ⟨-, rfl⟩ | old
    · refine ⟨{}, by simp [acceptConnCb], rfl, ?_⟩
      exact greet_due
    · obtain ⟨peer, served, waits⟩ := echoes.waiting place found old
      exact ⟨peer, by rw [acceptConnCb_peers, List.getElem?_append_left (inside place found old), served], waits⟩
  · intro peer member
    rcases List.mem_append.mp member with old | new
    · exact echoes.gotten peer old
    · rw [List.mem_singleton.mp new]
      exact List.nil_prefix
  · intro place other found otherFound live otherLive same
    rcases cases_ place found live with ⟨rfl, rfl⟩ | old <;>
      rcases cases_ other otherFound otherLive with ⟨rfl, rfl⟩ | otherOld
    · rfl
    · exact absurd same (inside other otherFound otherOld).ne'
    · exact absurd same (inside place found old).ne
    · exact echoes.apart place other found otherFound old otherOld same

/-- Connections may go. -/
theorem closed (echoes : Echoes state) (peers : after.peers = state.peers)
    (fewer : ∀ place found, after.bufferevents place = some found → state.bufferevents place = some found) :
    Echoes after where
  waiting place found live := by
    rw [peers]
    exact echoes.waiting place found (fewer place found live)
  gotten := by
    rw [peers]
    exact echoes.gotten
  apart place other found otherFound live otherLive :=
    echoes.apart place other found otherFound (fewer place found live) (fewer other otherFound otherLive)

theorem step (echoes : Echoes state) {event : TestServerEvent} (stepped : state.step event = some after) :
    Echoes after := by
  cases event with
  | accept fd bev =>
      simp only [TestServer.step, Option.ite_none_right_eq_some, Option.some.injEq] at stepped
      rw [← stepped.2]
      exact echoes.accept fd bev
  | read bev bytes =>
      obtain ⟨found, live, rfl⟩ := Option.map_eq_some_iff.mp stepped
      have empty : found.input = [] := by
        obtain ⟨-, -, empty, -⟩ := echoes.waiting bev found live
        exact empty
      refine echoes.exchange live rfl rfl rfl rfl fun peer waits => ?_
      rw [Peer.due, ← List.append_assoc, ← List.append_assoc, waits, empty]
      simp [Peer.due]
  | write bev count =>
      obtain ⟨found, live, rfl⟩ := Option.map_eq_some_iff.mp stepped
      obtain ⟨-, -, empty, -⟩ := echoes.waiting bev found live
      refine echoes.exchange live rfl rfl rfl empty fun peer waits => ?_
      rw [List.append_assoc, List.take_append_drop]
      exact waits
  | event bev events =>
      obtain ⟨found, live, rfl⟩ := Option.map_eq_some_iff.mp stepped
      obtain ⟨bufferevents, errors, freed⟩ := @echoEventCb_rest state bev events
      exact echoes.closed (by rw [freed]) fun _ _ => echoEventCb_live
  | timeout =>
      simp only [TestServer.step, Option.ite_none_right_eq_some, Option.some.injEq] at stepped
      rw [← stepped.2]
      exact echoes.closed rfl fun _ _ live => live

end Echoes

/-- A connection that is closed before all of it was written, and one in the same memory. -/
def twoConversations : List TestServerEvent :=
  [.accept 5 16, .read 16 (lit "ni"), .write 16 2201, .timeout, .event 16 bevEventEof, .accept 5 16,
    .read 16 (lit "hao"), .write 16 7, .timeout]

private theorem twoConversations_run : ∃ finish, run TestServer.step init twoConversations = some finish :=
  Option.isSome_iff_exists.mp (by decide +kernel)

/-- The bytes received between the timeouts, and since the last one. -/
structure Traffic where
  reported : List Nat := []
  current : Nat := 0

def Traffic.extend (traffic : Traffic) : TestServerEvent → Traffic
  | .read _ bytes => { traffic with current := traffic.current + bytes.length }
  | .timeout => { reported := traffic.reported ++ [traffic.current] }
  | _ => traffic

/-- The report of so many bytes. -/
def trafficReport (bytes : Nat) : LogCall :=
  let size := bytes % 4294967296
  if size / 1024 ≤ 1024 then
    ⟨" total %d kb, %d kb/s", [.int (size / 1024 : Nat), .int (size / 1024 / 5 : Nat)]⟩
  else ⟨" total %d mb, %d mb/s", [.int (size / 1024 / 1024 : Nat), .int (size / 1024 / 1024 / 5 : Nat)]⟩

theorem sizeToInt_of_lt {size : Nat} (small : size < 2147483648) : sizeToInt size = size := by
  unfold sizeToInt
  exact Int.bmod_eq_of_le (by omega) (by omega)

theorem sizeReport_ofNat (bytes : Nat) : sizeReport (UInt32.ofNat bytes) = trafficReport bytes := by
  have toNat : (UInt32.ofNat bytes).toNat = bytes % 4294967296 := UInt32.toNat_ofNat'
  have kb : (UInt32.ofNat bytes / 1024).toNat = bytes % 4294967296 / 1024 := by
    rw [UInt32.toNat_div, toNat]
    rfl
  have few : UInt32.ofNat bytes / 1024 ≤ 1024 ↔ bytes % 4294967296 / 1024 ≤ 1024 := by
    rw [UInt32.le_iff_toNat_le, kb]
    rfl
  have below : bytes % 4294967296 < 4294967296 := Nat.mod_lt _ (by omega)
  unfold sizeReport trafficReport
  dsimp only
  by_cases small : bytes % 4294967296 / 1024 ≤ 1024
  · rw [if_pos (few.mpr small), if_pos small]
    have rate : (UInt32.ofNat bytes / 1024 / 5).toNat = bytes % 4294967296 / 1024 / 5 := by
      rw [UInt32.toNat_div, kb]
      rfl
    rw [kb, rate, sizeToInt_of_lt (by omega), sizeToInt_of_lt (by omega)]
  · rw [if_neg (fun large => small (few.mp large)), if_neg small]
    have mb : (UInt32.ofNat bytes / 1024 / 1024).toNat = bytes % 4294967296 / 1024 / 1024 := by
      rw [UInt32.toNat_div, kb]
      rfl
    have rate : (UInt32.ofNat bytes / 1024 / 1024 / 5).toNat = bytes % 4294967296 / 1024 / 1024 / 5 := by
      rw [UInt32.toNat_div, mb]
      rfl
    rw [mb, rate, sizeToInt_of_lt (by omega), sizeToInt_of_lt (by omega)]

/-- The counter is that of the traffic since the last report; one timer is pending. -/
structure Counts (state : TestServer) (traffic : Traffic) : Prop where
  echoes : Echoes state
  total : state.totalSize = UInt32.ofNat traffic.current
  printed : state.printed = traffic.reported.map trafficReport
  timers : state.timers = traffic.reported.length + 1
  pending : state.pendingTimers = 1

theorem Counts.step {after : TestServer} {traffic : Traffic} (counts : Counts state traffic)
    {event : TestServerEvent} (stepped : state.step event = some after) :
    Counts after (traffic.extend event) := by
  have echoes := counts.echoes.step stepped
  cases event with
  | accept fd bev =>
      simp only [TestServer.step, Option.ite_none_right_eq_some, Option.some.injEq] at stepped
      obtain ⟨-, rfl⟩ := stepped
      exact ⟨echoes, counts.total, counts.printed, counts.timers, counts.pending⟩
  | read bev bytes =>
      obtain ⟨found, live, rfl⟩ := Option.map_eq_some_iff.mp stepped
      obtain ⟨-, -, empty, -⟩ := counts.echoes.waiting bev found live
      refine ⟨echoes, ?_, counts.printed, counts.timers, counts.pending⟩
      change state.totalSize + UInt32.ofNat (found.input ++ bytes).length =
        UInt32.ofNat (traffic.current + bytes.length)
      rw [counts.total, empty, List.nil_append, UInt32.ofNat_add]
  | write bev count =>
      obtain ⟨found, live, rfl⟩ := Option.map_eq_some_iff.mp stepped
      exact ⟨echoes, counts.total, counts.printed, counts.timers, counts.pending⟩
  | event bev events =>
      obtain ⟨found, live, rfl⟩ := Option.map_eq_some_iff.mp stepped
      obtain ⟨bufferevents, errors, freed⟩ := @echoEventCb_rest state bev events
      refine ⟨echoes, ?_, ?_, ?_, ?_⟩
      all_goals rw [freed]
      exacts [counts.total, counts.printed, counts.timers, counts.pending]
  | timeout =>
      simp only [TestServer.step, Option.ite_none_right_eq_some, Option.some.injEq] at stepped
      obtain ⟨-, rfl⟩ := stepped
      refine ⟨echoes, rfl, ?_, ?_, ?_⟩
      · change state.printed ++ [sizeReport state.totalSize] = (traffic.reported ++ [traffic.current]).map trafficReport
        rw [counts.printed, counts.total, sizeReport_ofNat, List.map_append, List.map_singleton]
      · change state.timers + 1 = (traffic.reported ++ [traffic.current]).length + 1
        rw [counts.timers, List.length_append, List.length_singleton]
      · change state.pendingTimers - 1 + 1 = 1
        rw [counts.pending]

/-- Every report is that of the bytes all connections together received since the report before,
as far as a `size_t` counts them.  One timer is pending at any time, and each that fired stays
in memory. -/
theorem run_reports (ran : run TestServer.step init events = some finish) :
    finish.printed = (events.foldl Traffic.extend {}).reported.map trafficReport ∧
      finish.pendingTimers = 1 ∧ finish.timers = (events.foldl Traffic.extend {}).reported.length + 1 := by
  have counts : Counts finish (events.foldl Traffic.extend {}) :=
    run_simulates (fun _ _ _ _ counts stepped => counts.step stepped)
      ⟨Echoes.nothing, rfl, rfl, rfl, rfl⟩ ran
  exact ⟨counts.printed, counts.pending, counts.timers⟩

theorem run_reports_two : ∃ finish, run TestServer.step init twoConversations = some finish ∧
    finish.printed = [trafficReport 2, trafficReport 3] ∧ finish.pendingTimers = 1 ∧ finish.timers = 3 :=
  twoConversations_run.imp fun _ ran => ⟨ran, run_reports ran⟩

end TestServer

end GameServer
