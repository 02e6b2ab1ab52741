import GameServer.AprHash
import GameServer.Server

namespace GameServer

/-! `net_manager.c`.  Its table is given the address of a parameter as the key, so what
it refers to is stack memory of calls that have returned. -/

abbrev Descriptor := BitVec 32

/-- The bytes of a descriptor in memory. -/
def descriptorBytes (fd : Descriptor) : Bytes :=
  [.ofNat fd.toNat, .ofNat (fd.toNat / 256), .ofNat (fd.toNat / 65536),
    .ofNat (fd.toNat / 16777216)]

theorem descriptorBytes_injective : Function.Injective descriptorBytes := by
  intro fd other same
  simp only [descriptorBytes, List.cons.injEq, ← UInt8.toNat_inj, UInt8.toNat_ofNat',
    Nat.reducePow, and_true] at same
  have bounded := fd.isLt
  have otherBounded := other.isLt
  apply BitVec.eq_of_toNat_eq
  omega

def descriptorSize : Nat := 4

variable {Con : Type} (apr : AprHash Con)

/-- The static `clients_con`, and what the module logged. -/
structure NetManager where
  clients : apr.Table
  log : List LogCall

def initNetManager : NetManager apr :=
  ⟨apr.make, []⟩

variable {apr}

/-- `net_add_connect`, entered with its parameter `fd` at the address `slot`. -/
def netAddConnect (memory : Memory) (slot : Nat) (fd : Descriptor) (con : Option Con)
    (manager : NetManager apr) : NetManager apr :=
  let memory := memory.write slot (descriptorBytes fd)
  { clients := apr.set manager.clients memory slot descriptorSize con
    log := manager.log ++ [⟨"new a con %d", [.int fd.toInt]⟩] }

def netDelConnect (memory : Memory) (slot : Nat) (fd : Descriptor) (manager : NetManager apr) :
    NetManager apr :=
  let memory := memory.write slot (descriptorBytes fd)
  { clients := apr.set manager.clients memory slot descriptorSize none
    log := manager.log ++ [⟨"close a con %d", [.int fd.toInt]⟩] }

def netGetConnect (memory : Memory) (slot : Nat) (fd : Descriptor) (manager : NetManager apr) :
    Option Con :=
  let memory := memory.write slot (descriptorBytes fd)
  apr.get manager.clients memory slot descriptorSize

/-! ## Runs -/

inductive NetOperation (Con : Type) where
  | add (fd : Descriptor) (con : Con)
  | del (fd : Descriptor)
  | get (fd : Descriptor)

def NetOperation.fd : NetOperation Con → Descriptor
  | .add fd _ => fd
  | .del fd => fd
  | .get fd => fd

/-- One call: what the memory holds when it is made, and where its parameter lies. -/
structure NetCall (Con : Type) where
  operation : NetOperation Con
  memory : Memory
  slot : Nat

namespace NetCall

/-- Memory during the call. -/
def entered (call : NetCall Con) : Memory :=
  call.memory.write call.slot (descriptorBytes call.operation.fd)

def run (call : NetCall Con) (manager : NetManager apr) : NetManager apr :=
  match call.operation with
  | .add fd con => netAddConnect call.memory call.slot fd (some con) manager
  | .del fd => netDelConnect call.memory call.slot fd manager
  | .get _ => manager

/-- The parameters that may serve as keys after the call: those of the calls that added
a descriptor that was not deleted since. -/
def keys (call : NetCall Con) (before : List (Nat × Descriptor)) : List (Nat × Descriptor) :=
  match call.operation with
  | .add fd _ => (call.slot, fd) :: before
  | .del fd => before.filter fun key => key.2 ≠ fd
  | .get _ => before

end NetCall

def runNetCalls (calls : List (NetCall Con)) (manager : NetManager apr) : NetManager apr :=
  calls.foldl (fun manager call => call.run manager) manager

/-- During every call the parameters that serve as keys hold the descriptors they held
when they were added. -/
def Undisturbed : List (Nat × Descriptor) → List (NetCall Con) → Prop
  | _, [] => True
  | keys, call :: rest =>
      (∀ key ∈ keys, call.entered.read key.1 descriptorSize = descriptorBytes key.2) ∧
      Undisturbed (call.keys keys) rest

/-- The connection of the last `add` of a descriptor without a later `del` of it, in a
history with the latest operation first. -/
def lastAdded (fd : Descriptor) : List (NetOperation Con) → Option Con
  | [] => none
  | .add other con :: earlier => if other = fd then some con else lastAdded fd earlier
  | .del other :: earlier => if other = fd then none else lastAdded fd earlier
  | .get _ :: earlier => lastAdded fd earlier

/-- The table holds the history, and refers only to parameters among the keys. -/
structure Remembers (manager : NetManager apr) (history : List (NetOperation Con))
    (keys : List (Nat × Descriptor)) (contents : Contents Con) : Prop where
  represents : apr.Represents manager.clients contents
  answers : ∀ fd, (contents (descriptorBytes fd)).map Prod.snd = lastAdded fd history
  refers : ∀ bytes key con, contents bytes = some (key, con) →
    ∃ fd, bytes = descriptorBytes fd ∧ (key, fd) ∈ keys

namespace Remembers

variable {manager : NetManager apr} {history : List (NetOperation Con)}
  {keys : List (Nat × Descriptor)} {contents : Contents Con}

theorem init : Remembers (initNetManager apr) [] [] fun _ => none where
  represents := apr.represents_make
  answers := fun _ => rfl
  refers := nofun

theorem intact (remembers : Remembers manager history keys contents) {memory : Memory}
    (undisturbed : ∀ key ∈ keys, memory.read key.1 descriptorSize = descriptorBytes key.2) :
    Intact memory contents := by
  intro bytes key con found
  obtain ⟨fd, rfl, member⟩ := remembers.refers bytes key con found
  exact undisturbed (key, fd) member

theorem read_entered (memory : Memory) (slot : Nat) (fd : Descriptor) :
    (memory.write slot (descriptorBytes fd)).read slot descriptorSize = descriptorBytes fd :=
  Memory.read_write memory slot (descriptorBytes fd)

theorem get (remembers : Remembers manager history keys contents) {memory : Memory} {slot : Nat}
    {fd : Descriptor}
    (undisturbed : ∀ key ∈ keys, (memory.write slot (descriptorBytes fd)).read key.1 descriptorSize =
      descriptorBytes key.2) :
    netGetConnect memory slot fd manager = lastAdded fd history := by
  rw [← remembers.answers fd]
  refine (apr.get_eq remembers.represents (remembers.intact undisturbed) slot descriptorSize).trans ?_
  rw [read_entered]

theorem add (remembers : Remembers manager history keys contents) {memory : Memory} {slot : Nat}
    {fd : Descriptor} (con : Con)
    (undisturbed : ∀ key ∈ keys, (memory.write slot (descriptorBytes fd)).read key.1 descriptorSize =
      descriptorBytes key.2) :
    ∃ next, Remembers (netAddConnect memory slot fd (some con) manager) (.add fd con :: history)
      ((slot, fd) :: keys) next := by
  obtain ⟨reference, origin, represents⟩ := apr.represents_store remembers.represents
    (remembers.intact undisturbed) slot descriptorSize con
  rw [read_entered] at origin represents
  refine ⟨_, represents, fun other => ?_, fun bytes key value found => ?_⟩
  · by_cases same : fd = other
    · subst same
      simp [lastAdded]
    · have apart : descriptorBytes other ≠ descriptorBytes fd :=
        fun equal => same (descriptorBytes_injective equal).symm
      rw [Function.update_of_ne apart, remembers.answers, lastAdded, if_neg same]
  · by_cases same : bytes = descriptorBytes fd
    · subst same
      rw [Function.update_self] at found
      cases found
      refine ⟨fd, rfl, ?_⟩
      rcases origin with rfl | ⟨old, kept⟩
      · exact List.mem_cons_self ..
      · obtain ⟨other, equal, member⟩ := remembers.refers _ _ _ kept
        rw [descriptorBytes_injective equal]
        exact List.mem_cons_of_mem _ member
    · rw [Function.update_of_ne same] at found
      obtain ⟨other, equal, member⟩ := remembers.refers _ _ _ found
      exact ⟨other, equal, List.mem_cons_of_mem _ member⟩

theorem del (remembers : Remembers manager history keys contents) {memory : Memory} {slot : Nat}
    {fd : Descriptor}
    (undisturbed : ∀ key ∈ keys, (memory.write slot (descriptorBytes fd)).read key.1 descriptorSize =
      descriptorBytes key.2) :
    ∃ next, Remembers (netDelConnect memory slot fd manager) (.del fd :: history)
      (keys.filter fun key => key.2 ≠ fd) next := by
  have represents := apr.represents_delete remembers.represents (remembers.intact undisturbed) slot
    descriptorSize
  rw [read_entered] at represents
  refine ⟨_, represents, fun other => ?_, fun bytes key value found => ?_⟩
  · by_cases same : fd = other
    · subst same
      simp [lastAdded]
    · have apart : descriptorBytes other ≠ descriptorBytes fd :=
        fun equal => same (descriptorBytes_injective equal).symm
      rw [Function.update_of_ne apart, remembers.answers, lastAdded, if_neg same]
  · by_cases same : bytes = descriptorBytes fd
    · subst same
      rw [Function.update_self] at found
      cases found
    · rw [Function.update_of_ne same] at found
      obtain ⟨other, rfl, member⟩ := remembers.refers _ _ _ found
      have apart : other ≠ fd := fun equal => same (congrArg descriptorBytes equal)
      exact ⟨other, rfl, List.mem_filter.mpr ⟨member, by simpa using apart⟩⟩

theorem step (remembers : Remembers manager history keys contents) (call : NetCall Con)
    (undisturbed : ∀ key ∈ keys, call.entered.read key.1 descriptorSize = descriptorBytes key.2) :
    ∃ next, Remembers (call.run manager) (call.operation :: history) (call.keys keys) next := by
  obtain ⟨operation, memory, slot⟩ := call
  cases operation with
  | add fd con => exact remembers.add con undisturbed
  | del fd => exact remembers.del undisturbed
  | get fd => exact ⟨contents, remembers.represents, remembers.answers, remembers.refers⟩

theorem run_get (remembers : Remembers manager history keys contents) (before : List (NetCall Con))
    {memory : Memory} {slot : Nat} {fd : Descriptor} {after : List (NetCall Con)}
    (undisturbed : Undisturbed keys (before ++ ⟨.get fd, memory, slot⟩ :: after)) :
    netGetConnect memory slot fd (runNetCalls before manager) =
      lastAdded fd ((before.map NetCall.operation).reverse ++ history) := by
  induction before generalizing manager history keys contents with
  | nil => exact remembers.get undisturbed.1
  | cons call rest ih =>
      obtain ⟨next, remembersNext⟩ := remembers.step call undisturbed.1
      simpa [runNetCalls] using ih remembersNext undisturbed.2

end Remembers

/-- In a run that leaves the parameters that serve as keys alone, every lookup returns
the connection added last for its descriptor and not deleted since. -/
theorem netGetConnect_lastAdded (apr : AprHash Con) (before after : List (NetCall Con))
    (memory : Memory) (slot : Nat) (fd : Descriptor)
    (undisturbed : Undisturbed [] (before ++ ⟨.get fd, memory, slot⟩ :: after)) :
    netGetConnect memory slot fd (runNetCalls before (initNetManager apr)) =
      lastAdded fd (before.map NetCall.operation).reverse := by
  simpa using Remembers.init.run_get before undisturbed

/-- Two descriptors added with their parameters in different places. -/
theorem netGetConnect_lastAdded_two :
    netGetConnect (Memory.write (fun _ => 0) 0 [3, 0, 0, 0, 4, 0, 0, 0]) 8 3
      (runNetCalls [⟨.add 3 "first", fun _ => 0, 0⟩, ⟨.add 4 "second", Memory.write (fun _ => 0) 0 [3], 4⟩]
        (initNetManager (AprHash.byReference String))) = some "first" :=
  netGetConnect_lastAdded (AprHash.byReference String)
    [⟨.add 3 "first", fun _ => 0, 0⟩, ⟨.add 4 "second", Memory.write (fun _ => 0) 0 [3], 4⟩] []
    (Memory.write (fun _ => 0) 0 [3, 0, 0, 0, 4, 0, 0, 0]) 8 3
    (by simp only [Undisturbed, List.cons_append, List.nil_append]; decide)

/-- Other calls reuse the stack where the descriptor was. -/
theorem netGetConnect_lastAdded_counterexample :
    netGetConnect (fun _ => 0) 4 3
      (runNetCalls [⟨.add 3 "first", fun _ => 0, 0⟩] (initNetManager (AprHash.byReference String))) ≠
        lastAdded 3 [.add 3 "first"] := by
  decide

end GameServer
