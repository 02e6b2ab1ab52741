import GameServer.Program.Callback
import GameServer.Program.Framing

namespace GameServer

open Lua LuaM

/-! What the engine holds in APR and libevent, and who holds it, over whole runs. -/

/-- What a run may meet: an error that leaves a callback libevent ran early, a request
libevent rejects, a request that completes. -/
structure Slips where
  raises : Prop
  rejects : Prop
  completes : Prop

/-- What the C functions that are still running hold. -/
structure Held where
  pools : List Nat
  requests : List Nat
  connections : List Nat

/-- The names as C reads them back. -/
def CallbackNames.seen (names : CallbackNames) : CallbackNames :=
  ⟨names.pool, cstr names.table, cstr names.function⟩

/-- The pool is alive and holds the record of the names it was asked for. -/
def Filled (server : Server) (pool : Nat) : Prop :=
  ∃ table function junk, server.pools.live? pool = some (callbackMemory pool table function junk) ∧
    ⟨pool, table, function⟩ ∈ server.asked

/-- The accounts of the engine: everything not released yet is held by a running function
or by a pending request, but for what the slips of the run account for. -/
structure Accounted (slips : Slips) (held : Held) (server : Server) : Prop where
  pools : server.pools.Owns slips.raises False (held.pools ++ server.pending.map Pending.arg)
  requests : server.requests.Owns True slips.rejects
    (held.requests ++ server.pending.map Pending.request)
  connections : server.connections.Owns slips.completes False
    (held.connections ++ server.pending.map Pending.connection)
  filled : ∀ pool ∈ held.pools ++ server.pending.map Pending.arg, Filled server pool
  addressed : ∀ pending ∈ server.pending, server.requests.live? pending.request = some ⟨pending.arg⟩
  distinct : (server.asked.map CallbackNames.pool).Nodup
  made : ∀ names ∈ server.asked, names.pool < server.pools.length
  read : ∀ names ∈ server.read, names ∈ server.asked.map CallbackNames.seen

namespace Accounted

variable {slips : Slips} {pools requests connections : List Nat} {held : Held} {server : Server}

theorem start : Accounted slips ⟨[], [], []⟩ Server.start where
  pools := .nil
  requests := .nil
  connections := .nil
  filled := nofun
  addressed := nofun
  distinct := List.nodup_nil
  made := nofun
  read := nofun

theorem silent (held : Held) : Silent (Accounted slips held) :=
  fun _ _ _ _ accounted => ⟨accounted.pools, accounted.requests, accounted.connections,
    accounted.filled, accounted.addressed, accounted.distinct, accounted.made, accounted.read⟩

theorem reply (accounted : Accounted slips held server) (replies : List Reply) :
    Accounted slips held { server with replies } :=
  ⟨accounted.pools, accounted.requests, accounted.connections, accounted.filled,
    accounted.addressed, accounted.distinct, accounted.made, accounted.read⟩

/-! ### Pools -/

theorem ask (accounted : Accounted slips ⟨pools, requests, connections⟩ server)
    (table function : Bytes) (junk : UInt8) :
    Accounted slips ⟨server.pools.length :: pools, requests, connections⟩ { server with
      pools := server.pools.acquire (callbackMemory server.pools.length table function junk)
      asked := server.asked ++ [⟨server.pools.length, table, function⟩] } where
  pools := accounted.pools.acquire _
  requests := accounted.requests
  connections := accounted.connections
  filled := by
    intro pool member
    rcases List.mem_cons.mp member with rfl | old
    · exact ⟨table, function, junk, Ledger.live?_acquire_self _, by simp⟩
    · obtain ⟨oldTable, oldFunction, oldJunk, live, asked⟩ := accounted.filled pool old
      refine ⟨oldTable, oldFunction, oldJunk, ?_, List.mem_append_left _ asked⟩
      exact (Ledger.live?_acquire_of_lt _ (accounted.pools.lt_length old)).trans live
  addressed := accounted.addressed
  distinct := by
    rw [List.map_append, List.nodup_append]
    refine ⟨accounted.distinct, List.nodup_singleton _, ?_⟩
    intro old member new new_mem same
    subst same
    obtain ⟨names, asked, rfl⟩ := List.mem_map.mp member
    have older := accounted.made names asked
    simp only [List.map_cons, List.map_nil, List.mem_singleton] at new_mem
    omega
  made := by
    intro names member
    rw [Ledger.length_acquire]
    rcases List.mem_append.mp member with old | new
    · exact Nat.lt_succ_of_lt (accounted.made names old)
    · rw [List.mem_singleton.mp new]
      exact Nat.lt_succ_self _
  read := by
    intro names member
    rw [List.map_append]
    exact List.mem_append_left _ (accounted.read names member)

theorem giveUp (accounted : Accounted slips held server) (memory : Pool) :
    Accounted slips held { server with
      pools := (server.pools.acquire memory).release server.pools.length } where
  pools := accounted.pools.discard memory
  requests := accounted.requests
  connections := accounted.connections
  filled := by
    intro pool member
    obtain ⟨table, function, junk, live, asked⟩ := accounted.filled pool member
    have older := accounted.pools.lt_length member
    refine ⟨table, function, junk, ?_, asked⟩
    rw [Ledger.live?_release_of_ne (by omega), Ledger.live?_acquire_of_lt _ older]
    exact live
  addressed := accounted.addressed
  distinct := accounted.distinct
  made := by
    intro names member
    rw [Ledger.length_release, Ledger.length_acquire]
    exact Nat.lt_succ_of_lt (accounted.made names member)
  read := accounted.read

theorem freePool {pool : Nat} (accounted : Accounted slips ⟨pool :: pools, requests, connections⟩ server) :
    Accounted slips ⟨pools, requests, connections⟩
      { server with pools := server.pools.release pool } where
  pools := accounted.pools.release
  requests := accounted.requests
  connections := accounted.connections
  filled := by
    intro other member
    have outside := (List.nodup_cons.mp accounted.pools.nodup).1
    have different : other ≠ pool := fun same => outside (same ▸ member)
    obtain ⟨table, function, junk, live, asked⟩ :=
      accounted.filled other (List.mem_cons_of_mem _ member)
    exact ⟨table, function, junk, (Ledger.live?_release_of_ne different).trans live, asked⟩
  addressed := accounted.addressed
  distinct := accounted.distinct
  made := by simpa only [Ledger.length_release] using accounted.made
  read := accounted.read

theorem losePool {pool : Nat} (accounted : Accounted slips ⟨pool :: pools, requests, connections⟩ server)
    (raises : slips.raises) : Accounted slips ⟨pools, requests, connections⟩ server :=
  { accounted with
    pools := accounted.pools.forget raises
    filled := fun other member => accounted.filled other (List.mem_cons_of_mem _ member) }

theorem readNames (accounted : Accounted slips held server) {names : CallbackNames}
    (asked : names ∈ server.asked) :
    Accounted slips held { server with read := server.read ++ [names.seen] } :=
  { accounted with
    read := by
      intro seen member
      rcases List.mem_append.mp member with old | new
      · exact accounted.read seen old
      · rw [List.mem_singleton.mp new]
        exact List.mem_map_of_mem asked }

/-! ### Connections -/

theorem connect (accounted : Accounted slips ⟨pools, requests, connections⟩ server)
    (connection : Connection) :
    Accounted slips ⟨pools, requests, server.connections.length :: connections⟩
      { server with connections := server.connections.acquire connection } :=
  { accounted with connections := accounted.connections.acquire connection }

theorem disconnect {connection : Nat}
    (accounted : Accounted slips ⟨pools, requests, connection :: connections⟩ server) :
    Accounted slips ⟨pools, requests, connections⟩
      { server with connections := server.connections.release connection } :=
  { accounted with connections := accounted.connections.release }

theorem loseConnection {connection : Nat}
    (accounted : Accounted slips ⟨pools, requests, connection :: connections⟩ server)
    (completes : slips.completes) : Accounted slips ⟨pools, requests, connections⟩ server :=
  { accounted with connections := accounted.connections.forget completes }

/-! ### Requests -/

theorem request (accounted : Accounted slips ⟨pools, requests, connections⟩ server)
    (object : OutgoingRequest) :
    Accounted slips ⟨pools, server.requests.length :: requests, connections⟩
      { server with requests := server.requests.acquire object } :=
  { accounted with
    requests := accounted.requests.acquire object
    addressed := by
      intro pending member
      have older := accounted.requests.lt_length
        (List.mem_append_right requests (List.mem_map_of_mem member))
      exact (Ledger.live?_acquire_of_lt object older).trans (accounted.addressed pending member) }

theorem freeRequest {request : Nat}
    (accounted : Accounted slips ⟨pools, request :: requests, connections⟩ server) :
    Accounted slips ⟨pools, requests, connections⟩
      { server with requests := server.requests.release request } :=
  { accounted with
    requests := accounted.requests.release
    addressed := by
      intro pending member
      have outside := (List.nodup_cons.mp accounted.requests.nodup).1
      have different : pending.request ≠ request := fun same =>
        outside (List.mem_append_right _ (same ▸ List.mem_map_of_mem member))
      exact (Ledger.live?_release_of_ne different).trans (accounted.addressed pending member) }

theorem loseRequest {request : Nat}
    (accounted : Accounted slips ⟨pools, request :: requests, connections⟩ server) :
    Accounted slips ⟨pools, requests, connections⟩ server :=
  { accounted with requests := accounted.requests.forget trivial }

/-- libevent and the engine both free a request. -/
theorem freeRequestTwice {request : Nat}
    (accounted : Accounted slips ⟨pools, request :: requests, connections⟩ server)
    (rejects : slips.rejects) : Accounted slips ⟨pools, requests, connections⟩
      { server with requests := (server.requests.release request).release request } := by
  have inside := accounted.requests.lt_length (List.mem_cons_self ..)
  have freed := accounted.freeRequest
  refine { freed with requests := freed.requests.releaseAgain rejects ?_, addressed := ?_ }
  · rw [Ledger.releases_release inside, if_pos rfl]
    exact Nat.succ_pos _
  · intro pending member
    have live := freed.addressed pending member
    have different : pending.request ≠ request := by
      intro same
      subst same
      have outside := (List.nodup_cons.mp accounted.requests.nodup).1
      exact outside (List.mem_append_right _ (List.mem_map_of_mem member))
    exact (Ledger.live?_release_of_ne different).trans live

/-! ### Pending requests -/

theorem perm_handOver (item : Nat) (items rest : List Nat) :
    (item :: items ++ rest).Perm (items ++ (rest ++ [item])) := by
  rw [← List.append_assoc]
  exact (List.perm_append_singleton item (items ++ rest)).symm

theorem accept {arg request connection : Nat} (command : Command) (uri : Bytes)
    (accounted : Accounted slips ⟨arg :: pools, request :: requests, connection :: connections⟩ server)
    (alive : server.requests.live? request = some ⟨arg⟩) :
    Accounted slips ⟨pools, requests, connections⟩ { server with
      pending := server.pending ++ [⟨request, connection, arg, command, uri⟩] } where
  pools := by
    rw [List.map_append]
    exact accounted.pools.perm (perm_handOver _ _ _)
  requests := by
    rw [List.map_append]
    exact accounted.requests.perm (perm_handOver _ _ _)
  connections := by
    rw [List.map_append]
    exact accounted.connections.perm (perm_handOver _ _ _)
  filled := by
    intro pool member
    rw [List.map_append] at member
    exact accounted.filled pool ((perm_handOver _ _ _).mem_iff.mpr member)
  addressed := by
    intro pending member
    rcases List.mem_append.mp member with old | new
    · exact accounted.addressed pending old
    · rw [List.mem_singleton.mp new]
      exact alive
  distinct := accounted.distinct
  made := accounted.made
  read := accounted.read

theorem perm_take {pending : List Pending} {position : Nat} {taken : Pending}
    (found : pending[position]? = some taken) (field : Pending → Nat) (items : List Nat) :
    (items ++ pending.map field).Perm
      (field taken :: items ++ (pending.eraseIdx position).map field) := by
  obtain ⟨inside, rfl⟩ := List.getElem?_eq_some_iff.mp found
  have reordered := (List.getElem_cons_eraseIdx_perm inside).map field
  exact ((reordered.symm.append_left items).trans List.perm_middle)

theorem take {position : Nat} {taken : Pending} (found : server.pending[position]? = some taken)
    (accounted : Accounted slips ⟨pools, requests, connections⟩ server) :
    Accounted slips
      ⟨taken.arg :: pools, taken.request :: requests, taken.connection :: connections⟩
      { server with pending := server.pending.eraseIdx position } where
  pools := accounted.pools.perm (perm_take found _ _)
  requests := accounted.requests.perm (perm_take found _ _)
  connections := accounted.connections.perm (perm_take found _ _)
  filled := fun pool member => accounted.filled pool ((perm_take found _ _).mem_iff.mpr member)
  addressed := fun pending member => accounted.addressed pending (List.mem_of_mem_eraseIdx member)
  distinct := accounted.distinct
  made := accounted.made
  read := accounted.read

end Accounted

end GameServer
