import GameServer.Program.NetManager
import Mathlib.Logic.Function.Basic

namespace GameServer

/-! `echo.c`: the connections it registers beside those that are alive. -/

/-- `net_manager.c` as a map from descriptors to connections. -/
structure Registry (Con : Type) where
  Table : Type
  init : Table
  add : Descriptor → Con → Table → Table
  del : Descriptor → Table → Table
  get : Descriptor → Table → Option Con
  get_init (fd : Descriptor) : get fd init = none
  get_add (fd other : Descriptor) (con : Con) (table : Table) :
    get other (add fd con table) = if other = fd then some con else get other table
  get_del (fd other : Descriptor) (table : Table) :
    get other (del fd table) = if other = fd then none else get other table

/-- Connections held in a function, for examples. -/
def Registry.ofFunction (Con : Type) : Registry Con where
  Table := Descriptor → Option Con
  init _ := none
  add fd con table := Function.update table fd (some con)
  del fd table := Function.update table fd none
  get fd table := table fd
  get_init _ := rfl
  get_add fd other con table := Function.update_apply table fd (some con) other
  get_del fd other table := Function.update_apply table fd none other

/-- `short events`. -/
abbrev EventFlags := BitVec 16

def bevEventEof : EventFlags := 0x10

def bevEventError : EventFlags := 0x20

/-- A `bufferevent` on a socket. -/
structure Bufferevent where
  fd : Descriptor

/-- The registry, the bufferevents in memory by their address, the open descriptors and
what `perror` printed. -/
structure Echo (registry : Registry Nat) where
  clients : registry.Table
  bufferevents : Nat → Option Bufferevent
  opened : Descriptor → Bool
  errors : List String

variable {registry : Registry Nat}

/-- The system opens a descriptor and `bufferevent_socket_new` puts it into a bufferevent
at `bev`. -/
def buffereventNew (bev : Nat) (object : Bufferevent) (state : Echo registry) : Echo registry :=
  { state with
    bufferevents := Function.update state.bufferevents bev (some object)
    opened := Function.update state.opened object.fd true }

/-- `bufferevent_free` of a bufferevent that closes its descriptor. -/
def buffereventFree (bev : Nat) (object : Bufferevent) (state : Echo registry) : Echo registry :=
  { state with
    bufferevents := Function.update state.bufferevents bev none
    opened := Function.update state.opened object.fd false }

def Echo.netAddConnect (fd : Descriptor) (con : Nat) (state : Echo registry) : Echo registry :=
  { state with clients := registry.add fd con state.clients }

def Echo.netDelConnect (fd : Descriptor) (state : Echo registry) : Echo registry :=
  { state with clients := registry.del fd state.clients }

def perror (message : String) (state : Echo registry) : Echo registry :=
  { state with errors := state.errors ++ [message] }

/-- `echo_event_cb`; `none` is the use of a bufferevent that was freed. -/
def echoEventCb (bev : Nat) (events : EventFlags) (state : Echo registry) : Option (Echo registry) :=
  let state := if events &&& bevEventError ≠ 0 then perror "Error from bufferevent" state else state
  if events &&& (bevEventEof ||| bevEventError) ≠ 0 then do
    let object ← state.bufferevents bev
    return buffereventFree bev object (state.netDelConnect object.fd)
  else some state

/-- `accept_conn_cb`, with what `bufferevent_socket_new` returns; `none` is the use of a
NULL it returned. -/
def acceptConnCb (fd : Descriptor) (made : Option Nat) (state : Echo registry) :
    Option (Echo registry) := do
  let bev ← made
  return (buffereventNew bev ⟨fd⟩ state).netAddConnect fd bev

/-- `init_echo` up to the event loop, with the connection `event_connect` made. -/
def initEcho (registry : Registry Nat) (con : Nat) (fd : Descriptor) : Echo registry :=
  buffereventNew con ⟨fd⟩ ⟨registry.init, fun _ => none, fun _ => false, []⟩

/-! ## Runs -/

/-- A callback the event loop makes. -/
inductive EchoCall where
  | accept (fd : Descriptor) (made : Option Nat)
  | event (bev : Nat) (events : EventFlags)

namespace EchoCall

def run (call : EchoCall) (state : Echo registry) : Option (Echo registry) :=
  match call with
  | .accept fd made => acceptConnCb fd made state
  | .event bev events => echoEventCb bev events state

/-- A descriptor that is handed out is not open, a new bufferevent is in unused memory,
and events happen on bufferevents that were not freed. -/
def Admissible (call : EchoCall) (state : Echo registry) : Prop :=
  match call with
  | .accept fd made =>
      state.opened fd = false ∧ ∀ bev, made = some bev → state.bufferevents bev = none
  | .event bev _ => (state.bufferevents bev).isSome

/-- Memory for a new bufferevent was there. -/
def allocated : EchoCall → Bool
  | .accept _ made => made.isSome
  | .event _ _ => true

end EchoCall

def runEcho : List EchoCall → Echo registry → Option (Echo registry)
  | [], state => some state
  | call :: rest, state => (call.run state).bind (runEcho rest)

/-- Every call of the run is admissible in the state it is made in. -/
def AdmissibleRun : List EchoCall → Echo registry → Prop
  | [], _ => True
  | call :: rest, state =>
      call.Admissible state ∧ ∀ after, call.run state = some after → AdmissibleRun rest after

/-- The descriptor of a connection that was accepted into this bufferevent and not closed since,
in a history with the latest call first. -/
def stillAccepted (bev : Nat) : List EchoCall → Option Descriptor
  | [] => none
  | .accept fd made :: earlier => if made = some bev then some fd else stillAccepted bev earlier
  | .event other events :: earlier =>
      if other = bev ∧ events &&& (bevEventEof ||| bevEventError) ≠ 0 then none
      else stillAccepted bev earlier

theorem accept_mem_of_stillAccepted {bev : Nat} {fd : Descriptor} {history : List EchoCall}
    (accepted : stillAccepted bev history = some fd) : .accept fd (some bev) ∈ history := by
  fun_induction stillAccepted bev history with
  | case1 => cases accepted
  | case2 fd' earlier =>
      cases accepted
      exact List.mem_cons_self ..
  | case3 fd' made earlier different ih => exact List.mem_cons_of_mem _ (ih accepted)
  | case4 => cases accepted
  | case5 other events earlier open_ ih => exact List.mem_cons_of_mem _ (ih accepted)

/-! ## The registry -/

/-- After these calls, the latest first, the registered connections are those still accepted;
they are alive, and what else is alive was never accepted.  Live bufferevents have open
descriptors, no two of them the same. -/
structure Tracks (history : List EchoCall) (state : Echo registry) : Prop where
  registered : ∀ fd bev, registry.get fd state.clients = some bev ↔ stillAccepted bev history = some fd
  alive : ∀ bev fd, stillAccepted bev history = some fd → state.bufferevents bev = some ⟨fd⟩
  foreign : ∀ bev object, state.bufferevents bev = some object → stillAccepted bev history = none →
    ∀ fd, .accept fd (some bev) ∉ history
  opened : ∀ bev object, state.bufferevents bev = some object → state.opened object.fd = true
  apart : ∀ bev other object otherObject, state.bufferevents bev = some object →
    state.bufferevents other = some otherObject → object.fd = otherObject.fd → bev = other

section Objects

variable {bev other : Nat} {object found : Bufferevent} {state : Echo registry}

theorem bufferevents_new_iff :
    (buffereventNew bev object state).bufferevents other = some found ↔
      (other = bev ∧ object = found) ∨ (other ≠ bev ∧ state.bufferevents other = some found) := by
  by_cases same : other = bev <;> simp [buffereventNew, same]

theorem bufferevents_free_iff :
    (buffereventFree bev object state).bufferevents other = some found ↔
      other ≠ bev ∧ state.bufferevents other = some found := by
  by_cases same : other = bev <;> simp [buffereventFree, same]

theorem opened_new (fd : Descriptor) : (buffereventNew bev object state).opened fd =
    if fd = object.fd then true else state.opened fd := by
  simp [buffereventNew, Function.update_apply]

theorem opened_free (fd : Descriptor) : (buffereventFree bev object state).opened fd =
    if fd = object.fd then false else state.opened fd := by
  simp [buffereventFree, Function.update_apply]

/-- A live bufferevent is freed and its descriptor unregistered, or nothing but a message
comes of the event. -/
theorem echoEventCb_apply (events : EventFlags) (live : state.bufferevents bev = some object) :
    ∃ errors, echoEventCb bev events state =
      if events &&& (bevEventEof ||| bevEventError) ≠ 0 then
        some (buffereventFree bev object (Echo.netDelConnect object.fd { state with errors }))
      else some { state with errors } := by
  unfold echoEventCb
  by_cases error : events &&& bevEventError ≠ 0
  · exact ⟨state.errors ++ ["Error from bufferevent"], by
      simp only [if_pos error, perror, live]
      rfl⟩
  · exact ⟨state.errors, by
      simp only [if_neg error, live]
      rfl⟩

end Objects

namespace Tracks

variable {state : Echo registry} {history : List EchoCall} {bev : Nat} {object : Bufferevent}

theorem opened_of_new (tracks : Tracks history state) {connection : Nat} {found : Bufferevent}
    (live : (buffereventNew bev object state).bufferevents connection = some found) :
    (buffereventNew bev object state).opened found.fd = true := by
  rw [opened_new]
  rcases bufferevents_new_iff.mp live with ⟨-, rfl⟩ | ⟨-, live⟩
  · exact if_pos rfl
  · rw [tracks.opened connection found live, ite_self]

theorem apart_of_new (tracks : Tracks history state) (closed : state.opened object.fd = false)
    {connection other : Nat} {found otherFound : Bufferevent}
    (live : (buffereventNew bev object state).bufferevents connection = some found)
    (otherLive : (buffereventNew bev object state).bufferevents other = some otherFound)
    (same : found.fd = otherFound.fd) : connection = other := by
  rcases bufferevents_new_iff.mp live with ⟨here, rfl⟩ | ⟨-, old⟩
  · rcases bufferevents_new_iff.mp otherLive with ⟨otherHere, -⟩ | ⟨-, otherOld⟩
    · exact here.trans otherHere.symm
    · rw [same, tracks.opened other otherFound otherOld] at closed
      cases closed
  · rcases bufferevents_new_iff.mp otherLive with ⟨-, rfl⟩ | ⟨-, otherOld⟩
    · rw [← same, tracks.opened connection found old] at closed
      cases closed
    · exact tracks.apart connection other found otherFound old otherOld same

theorem nothing (registry : Registry Nat) :
    Tracks [] (⟨registry.init, fun _ => none, fun _ => false, []⟩ : Echo registry) where
  registered fd bev := by
    rw [registry.get_init]
    exact iff_of_false nofun nofun
  alive := nofun
  foreign := nofun
  opened := nofun
  apart := nofun

theorem init (registry : Registry Nat) (con : Nat) (fd : Descriptor) :
    Tracks [] (initEcho registry con fd) where
  registered := (nothing registry).registered
  alive := nofun
  foreign _ _ _ _ _ := List.not_mem_nil
  opened _ _ live := (nothing registry).opened_of_new live
  apart _ _ _ _ live otherLive same := (nothing registry).apart_of_new rfl live otherLive same

/-- What is not in memory is not accepted any more. -/
theorem not_stillAccepted (tracks : Tracks history state) (unused : state.bufferevents bev = none) :
    stillAccepted bev history = none := by
  cases accepted : stillAccepted bev history with
  | none => rfl
  | some fd =>
      rw [tracks.alive bev fd accepted] at unused
      cases unused

theorem accept (tracks : Tracks history state) {fd : Descriptor} (closed : state.opened fd = false)
    (unused : state.bufferevents bev = none) :
    Tracks (.accept fd (some bev) :: history)
      ((buffereventNew bev ⟨fd⟩ state).netAddConnect fd bev) where
  registered other connection := by
    change registry.get other (registry.add fd bev state.clients) = some connection ↔ _
    rw [registry.get_add, stillAccepted]
    by_cases same : other = fd <;> by_cases here : bev = connection
    · simp [same, here]
    · -- the descriptor was closed, so no other connection is accepted under it
      have gone : stillAccepted connection history ≠ some fd := fun accepted => by
        rw [tracks.opened connection _ (tracks.alive connection fd accepted)] at closed
        cases closed
      simp [same, here, gone]
    · have gone := tracks.not_stillAccepted unused
      rw [here] at gone
      have unregistered : registry.get other state.clients ≠ some connection := fun found => by
        rw [(tracks.registered other connection).mp found] at gone
        cases gone
      simp [same, here, unregistered, Ne.symm same]
    · simp [same, here, tracks.registered]
  alive connection other accepted := by
    change (buffereventNew bev ⟨fd⟩ state).bufferevents connection = _
    rw [bufferevents_new_iff]
    rw [stillAccepted] at accepted
    split at accepted
    · rename_i same
      cases accepted
      cases same
      exact .inl ⟨rfl, rfl⟩
    · rename_i different
      exact .inr ⟨fun same => different (same ▸ rfl), tracks.alive connection other accepted⟩
  foreign connection found live foreign other := by
    rw [stillAccepted] at foreign
    split at foreign
    · cases foreign
    · rename_i different
      rcases bufferevents_new_iff.mp live with ⟨same, -⟩ | ⟨-, old⟩
      · exact absurd (same ▸ rfl) different
      · intro member
        rcases List.mem_cons.mp member with same | earlier
        · cases same
          exact different rfl
        · exact tracks.foreign connection found old foreign other earlier
  opened _ _ live := tracks.opened_of_new live
  apart _ _ _ _ live otherLive same := tracks.apart_of_new closed live otherLive same

theorem free (tracks : Tracks history state) (live : state.bufferevents bev = some object)
    {events : EventFlags} (closes : events &&& (bevEventEof ||| bevEventError) ≠ 0) :
    Tracks (.event bev events :: history)
      (buffereventFree bev object (state.netDelConnect object.fd)) where
  registered fd connection := by
    change registry.get fd (registry.del object.fd state.clients) = some connection ↔ _
    rw [registry.get_del, stillAccepted]
    by_cases here : bev = connection
    · have unregistered : fd ≠ object.fd → registry.get fd state.clients ≠ some connection := by
        intro different found
        have accepted := tracks.alive connection fd ((tracks.registered fd connection).mp found)
        rw [← here, live] at accepted
        cases accepted
        exact different rfl
      by_cases same : fd = object.fd <;> simp_all
    · by_cases same : fd = object.fd
      · -- no other connection has this descriptor
        have gone : stillAccepted connection history ≠ some fd := fun accepted =>
          here (tracks.apart bev connection object ⟨fd⟩ live (tracks.alive connection fd accepted) same.symm)
        simp [here, same ▸ gone, same]
      · simp [here, same, tracks.registered]
  alive connection fd accepted := by
    rw [bufferevents_free_iff]
    rw [stillAccepted] at accepted
    split at accepted
    · cases accepted
    · rename_i remains
      exact ⟨fun same => remains ⟨same.symm, closes⟩, tracks.alive connection fd accepted⟩
  foreign connection found remaining foreign fd member := by
    obtain ⟨different, old⟩ := bufferevents_free_iff.mp remaining
    rw [stillAccepted, if_neg fun both => different both.1.symm] at foreign
    rcases List.mem_cons.mp member with same | earlier
    · cases same
    · exact tracks.foreign connection found old foreign fd earlier
  opened connection found remaining := by
    obtain ⟨different, remaining⟩ := bufferevents_free_iff.mp remaining
    have otherFd : found.fd ≠ object.fd :=
      fun same => different (tracks.apart connection bev found object remaining live same)
    rw [opened_free, if_neg otherFd]
    exact tracks.opened connection found remaining
  apart connection other found otherFound remaining otherRemaining same := by
    obtain ⟨-, remaining⟩ := bufferevents_free_iff.mp remaining
    obtain ⟨-, otherRemaining⟩ := bufferevents_free_iff.mp otherRemaining
    exact tracks.apart connection other found otherFound remaining otherRemaining same

theorem report (tracks : Tracks history state) (errors : List String) :
    Tracks history { state with errors } :=
  ⟨tracks.registered, tracks.alive, tracks.foreign, tracks.opened, tracks.apart⟩

/-- An event that closes nothing changes nothing. -/
theorem stays (tracks : Tracks history state) {events : EventFlags}
    (stays : ¬ events &&& (bevEventEof ||| bevEventError) ≠ 0) :
    Tracks (.event bev events :: history) state := by
  have same (connection : Nat) :
      stillAccepted connection (.event bev events :: history) = stillAccepted connection history := by
    rw [stillAccepted, if_neg fun both => stays both.2]
  refine ⟨fun fd connection => ?_, fun connection fd accepted => ?_, ?_, tracks.opened, tracks.apart⟩
  · rw [same]
    exact tracks.registered fd connection
  · rw [same] at accepted
    exact tracks.alive connection fd accepted
  · intro connection found live foreign fd member
    rw [same] at foreign
    rcases List.mem_cons.mp member with here | earlier
    · cases here
    · exact tracks.foreign connection found live foreign fd earlier

theorem event (tracks : Tracks history state) (events : EventFlags)
    (live : (state.bufferevents bev).isSome) :
    ∃ after, echoEventCb bev events state = some after ∧ Tracks (.event bev events :: history) after := by
  obtain ⟨object, live⟩ := Option.isSome_iff_exists.mp live
  obtain ⟨errors, called⟩ := echoEventCb_apply events live
  rw [called]
  split
  · rename_i closes
    exact ⟨_, rfl, (tracks.report errors).free live closes⟩
  · rename_i stays
    exact ⟨_, rfl, (tracks.report errors).stays stays⟩

/-- Every call carries the invariant on, unless there is no memory for a bufferevent. -/
theorem step (tracks : Tracks history state) {call : EchoCall} (admissible : call.Admissible state)
    (allocated : call.allocated = true) :
    ∃ after, call.run state = some after ∧ Tracks (call :: history) after := by
  cases call with
  | accept fd made =>
      obtain ⟨bev, rfl⟩ := Option.isSome_iff_exists.mp allocated
      exact ⟨_, rfl, tracks.accept admissible.1 (admissible.2 bev rfl)⟩
  | event bev events => exact tracks.event events admissible

/-- The registered connections are the live ones that were accepted. -/
theorem registered_iff (tracks : Tracks history state) (fd : Descriptor) (connection : Nat) :
    registry.get fd state.clients = some connection ↔
      state.bufferevents connection = some ⟨fd⟩ ∧ .accept fd (some connection) ∈ history := by
  rw [tracks.registered]
  constructor
  · intro accepted
    exact ⟨tracks.alive connection fd accepted, accept_mem_of_stillAccepted accepted⟩
  · intro live
    obtain ⟨live, member⟩ := live
    cases accepted : stillAccepted connection history with
    | none => exact absurd member (tracks.foreign connection ⟨fd⟩ live accepted fd)
    | some other =>
        rw [tracks.alive connection other accepted] at live
        cases live
        rfl

theorem others (tracks : Tracks history state) {events : EventFlags} {after : Echo registry}
    (live : (state.bufferevents bev).isSome) (called : echoEventCb bev events state = some after)
    {fd : Descriptor} {other : Nat} (different : other ≠ bev)
    (registered : registry.get fd state.clients = some other) :
    registry.get fd after.clients = some other := by
  obtain ⟨reached, ran, tracksAfter⟩ := tracks.event events live
  rw [ran] at called
  cases called
  rw [tracksAfter.registered, stillAccepted, if_neg fun both => different both.1.symm]
  exact (tracks.registered fd other).mp registered

theorem run (tracks : Tracks history state) {calls : List EchoCall}
    (admissible : AdmissibleRun calls state) :
    ((∀ call ∈ calls, call.allocated = true) → (runEcho calls state).isSome) ∧
      ∀ after, runEcho calls state = some after → Tracks (calls.reverse ++ history) after := by
  induction calls generalizing state history with
  | nil =>
      refine ⟨fun _ => rfl, fun after ran => ?_⟩
      cases ran
      exact tracks
  | cons call rest ih =>
      obtain ⟨possible, later⟩ := admissible
      cases allocated : call.allocated with
      | true =>
          obtain ⟨next, ran, tracksNext⟩ := tracks.step possible allocated
          obtain ⟨reaches, tracksAfter⟩ := ih tracksNext (later next ran)
          simp only [runEcho, ran, Option.bind_some, List.forall_mem_cons, List.reverse_cons,
            List.append_assoc, List.singleton_append]
          exact ⟨fun all => reaches all.2, tracksAfter⟩
      | false =>
          have stops : call.run state = none := by
            cases call with
            | accept fd made =>
                cases made with
                | none => rfl
                | some bev => cases allocated
            | event bev events => cases allocated
          simp [runEcho, stops, allocated]

end Tracks

/-- For every run of the event loop, from the connection `init_echo` makes: the registry
holds the live bufferevents of accepted connections under their descriptors, which are those
not closed since they were accepted, and closing one unregisters no other. -/
theorem runEcho_tracks (registry : Registry Nat) (con : Nat) (conFd : Descriptor)
    (calls : List EchoCall) (admissible : AdmissibleRun calls (initEcho registry con conFd)) :
    ((∀ call ∈ calls, call.allocated = true) →
      (runEcho calls (initEcho registry con conFd)).isSome) ∧
    ∀ state, runEcho calls (initEcho registry con conFd) = some state →
      (∀ fd bev, registry.get fd state.clients = some bev ↔
        state.bufferevents bev = some ⟨fd⟩ ∧ .accept fd (some bev) ∈ calls) ∧
      (∀ fd bev, registry.get fd state.clients = some bev ↔
        stillAccepted bev calls.reverse = some fd) ∧
      ∀ bev events after, (state.bufferevents bev).isSome → echoEventCb bev events state = some after →
        ∀ fd other, other ≠ bev → registry.get fd state.clients = some other →
          registry.get fd after.clients = some other := by
  obtain ⟨reaches, tracks⟩ := (Tracks.init registry con conFd).run admissible
  simp only [List.append_nil] at tracks
  refine ⟨reaches, fun state ran => ⟨?_, (tracks state ran).registered, ?_⟩⟩
  · intro fd bev
    rw [(tracks state ran).registered_iff, List.mem_reverse]
  · intro bev events after live called fd other different registered
    exact (tracks state ran).others live called different registered

/-- A connection is closed by the other side; its descriptor and its memory are used again,
and then the connection of `init_echo` fails.  Only the second connection is registered. -/
theorem runEcho_tracks_reused :
    ∃ state, runEcho [.accept 4 (some 1), .event 1 0x11, .accept 4 (some 1), .event 0 0x21]
        (initEcho (Registry.ofFunction Nat) 0 3) = some state ∧
      state.clients 4 = some 1 ∧ state.clients 3 = none := by
  obtain ⟨reaches, tracks⟩ := runEcho_tracks (Registry.ofFunction Nat) 0 3
    [.accept 4 (some 1), .event 1 0x11, .accept 4 (some 1), .event 0 0x21] (by
      refine ⟨⟨rfl, ?_⟩, ?_⟩
      · intro bev made
        cases made
        rfl
      · intro accepted ran
        cases ran
        refine ⟨rfl, ?_⟩
        intro closed ran
        cases ran
        refine ⟨⟨rfl, ?_⟩, ?_⟩
        · intro bev made
          cases made
          rfl
        · intro reused ran
          cases ran
          refine ⟨rfl, ?_⟩
          intro failed ran
          trivial)
  obtain ⟨state, ran⟩ := Option.isSome_iff_exists.mp (reaches (by decide))
  obtain ⟨-, registered, -⟩ := tracks state ran
  refine ⟨state, ran, (registered 4 1).mpr (by decide), ?_⟩
  cases found : state.clients 3 with
  | none => rfl
  | some bev =>
      have accepted := accept_mem_of_stillAccepted ((registered 3 bev).mp found)
      simp at accepted

end GameServer
