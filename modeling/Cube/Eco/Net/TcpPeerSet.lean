import Cube.Eco.Net.TcpPeerLife
import Cube.Eco.Net.TcpServer
import Cube.Lib.Run

/-! # The peers of a server

`TcpPeerSet`: the accepted peers of a server by their connection id. The cleaning ticks go
through all of them and remove those that they close; a peer that is closed with a notice is
removed by the server's `on_close`.
-/

namespace Cube.Eco.Net

open TcpPeer (Impl)

structure TcpPeerSet where
  maxConnSize : UInt32
  peerMap : AList fun _ : ConnectionId => Impl

namespace TcpPeerSet

/-- The constructor. -/
def make (maxConnSize : UInt32) : TcpPeerSet := ⟨maxConnSize, ∅⟩

/-- A walk over the peers that changes or removes each of them. -/
def visit (change : ConnectionId → Impl → Option Impl) (set : TcpPeerSet) : TcpPeerSet :=
  { set with
    peerMap := ⟨set.peerMap.entries.filterMap
      fun entry => (change entry.1 entry.2).map fun peer => ⟨entry.1, peer⟩, by
        apply List.Nodup.sublist _ set.peerMap.nodupKeys
        induction set.peerMap.entries with
        | nil => exact List.Sublist.refl []
        | cons entry entries ih =>
            rw [List.filterMap_cons]
            cases change entry.1 entry.2 with
            | none => exact ih.cons entry.1
            | some peer => exact ih.cons_cons entry.1⟩ }

/-- `add`: false when the set is full. -/
def add (set : TcpPeerSet) (id : ConnectionId) (peer : Impl) : Bool × TcpPeerSet :=
  if set.peerMap.keys.length > set.maxConnSize.toNat then (false, set)
  else (true, { set with peerMap := set.peerMap.insert id peer })

def erase (set : TcpPeerSet) (id : ConnectionId) : TcpPeerSet :=
  { set with peerMap := set.peerMap.erase id }

def cleanDeadPeer : TcpPeerSet → TcpPeerSet :=
  visit fun _ peer => if peer.state.peerLive then some peer.cleanDead else none

def cleanInactivePeer : TcpPeerSet → TcpPeerSet :=
  visit fun _ peer => if peer.state.peerActive then some peer.cleanInactive else none

theorem lookup_visit (change : ConnectionId → Impl → Option Impl) (set : TcpPeerSet)
    (id : ConnectionId) :
    (set.visit change).peerMap.lookup id = (set.peerMap.lookup id).bind (change id) := by
  apply Option.ext
  intro peer
  rw [← Option.mem_def, AList.mem_lookup_iff, Option.bind_eq_some_iff]
  constructor
  · intro member
    obtain ⟨⟨key, before⟩, inside, changed⟩ := List.mem_filterMap.mp member
    obtain ⟨after, became, same⟩ := Option.map_eq_some_iff.mp changed
    cases same
    exact ⟨before, AList.mem_lookup_iff.mpr inside, became⟩
  · rintro ⟨before, inside, became⟩
    refine List.mem_filterMap.mpr ⟨⟨id, before⟩, AList.mem_lookup_iff.mp inside, ?_⟩
    exact Option.map_eq_some_iff.mpr ⟨peer, became, rfl⟩

end TcpPeerSet

end Cube.Eco.Net

/-! # The connection limit

`add` refuses a peer when the set holds more than `m_max_conn_size` peers, so a set that holds
exactly that many takes one more.
-/

namespace Cube.Eco.Net

open TcpPeer (Impl)

namespace TcpPeerSet

/-- `clear`. -/
def clear (set : TcpPeerSet) : TcpPeerSet := { set with peerMap := ∅ }

/-- `m_peer_map.size()`. -/
def size (set : TcpPeerSet) : Nat := set.peerMap.keys.length

/-- The calls on a set of peers, and what the peers become in between. -/
inductive Call where
  | add (id : ConnectionId) (peer : Impl)
  | erase (id : ConnectionId)
  | cleanDeadPeer
  | cleanInactivePeer
  | clear
  | peers (change : ConnectionId → Impl → Impl)

def turn (set : TcpPeerSet) : Call → TcpPeerSet
  | .add id peer => (set.add id peer).2
  | .erase id => set.erase id
  | .cleanDeadPeer => set.cleanDeadPeer
  | .cleanInactivePeer => set.cleanInactivePeer
  | .clear => set.clear
  | .peers change => set.visit fun id peer => some (change id peer)

/-- No more peers than the server supports. -/
def Limited (set : TcpPeerSet) : Prop := set.size ≤ set.maxConnSize.toNat

/-- An `add` that returns false changes nothing. -/
def FailsUnchanged (set : TcpPeerSet) (call : Call) : Prop :=
  ∀ id peer, call = .add id peer → (set.add id peer).1 = false → set.turn call = set

/-- No new peer is added while the set holds exactly as many as it may. -/
def HasRoom (set : TcpPeerSet) (call : Call) : Prop :=
  ∀ id peer, call = .add id peer → id ∉ set.peerMap → set.size ≠ set.maxConnSize.toNat

variable {set : TcpPeerSet}

/-! ## Sizes -/

theorem size_insert_of_mem {id : ConnectionId} (present : id ∈ set.peerMap) (peer : Impl) :
    (set.peerMap.insert id peer).keys.length = set.size := by
  have member : id ∈ set.peerMap.keys := AList.mem_keys.mp present
  rw [AList.keys_insert, List.length_cons, List.length_erase_of_mem member]
  exact Nat.sub_add_cancel (List.length_pos_of_mem member)

theorem size_insert_of_not_mem {id : ConnectionId} (absent : id ∉ set.peerMap) (peer : Impl) :
    (set.peerMap.insert id peer).keys.length = set.size + 1 := by
  have missing : id ∉ set.peerMap.keys := fun member => absent (AList.mem_keys.mpr member)
  rw [AList.keys_insert, List.length_cons, List.erase_of_not_mem missing]
  rfl

theorem size_erase_le (set : TcpPeerSet) (id : ConnectionId) : (set.erase id).size ≤ set.size := by
  rw [size, erase, AList.keys_erase]
  exact List.length_erase_le

theorem size_visit_le (change : ConnectionId → Impl → Option Impl) (set : TcpPeerSet) :
    (set.visit change).size ≤ set.size := by
  change (List.map Sigma.fst _).length ≤ (List.map Sigma.fst _).length
  rw [List.length_map, List.length_map]
  exact List.length_filterMap_le ..

/-- What `add` does to the size. -/
theorem size_add (set : TcpPeerSet) (id : ConnectionId) (peer : Impl) :
    (set.add id peer).2.size =
      if id ∉ set.peerMap ∧ set.size ≤ set.maxConnSize.toNat then set.size + 1 else set.size := by
  unfold add
  by_cases full : set.peerMap.keys.length > set.maxConnSize.toNat
  · rw [if_pos full, if_neg fun new => Nat.not_lt_of_le new.2 full]
  · rw [if_neg full]
    by_cases present : id ∈ set.peerMap
    · rw [if_neg fun new => new.1 present]
      exact size_insert_of_mem present peer
    · rw [if_pos ⟨present, Nat.le_of_not_lt full⟩]
      exact size_insert_of_not_mem present peer

/-- Only an `add` makes a set larger. -/
theorem size_turn_le (call : Call) (other : ∀ id peer, call ≠ .add id peer) :
    (set.turn call).size ≤ set.size := by
  cases call with
  | add id peer => exact (other id peer rfl).elim
  | erase id => exact size_erase_le set id
  | cleanDeadPeer => exact size_visit_le _ set
  | cleanInactivePeer => exact size_visit_le _ set
  | clear => exact Nat.zero_le _
  | peers change => exact size_visit_le _ set

theorem turn_maxConnSize (set : TcpPeerSet) (call : Call) :
    (set.turn call).maxConnSize = set.maxConnSize := by
  cases call with
  | add id peer =>
      change (set.add id peer).2.maxConnSize = _
      unfold add
      split <;> rfl
  | _ => rfl

/-! ## Runs -/

theorem failsUnchanged (set : TcpPeerSet) (call : Call) : FailsUnchanged set call := by
  rintro id peer rfl failed
  change (set.add id peer).2 = set
  unfold add at failed ⊢
  split at failed
  next full => rw [if_pos full]
  next => cases failed

/-- A call keeps the limit exactly when it does not add a new peer to a full set. -/
theorem limited_turn_iff (limited : Limited set) (call : Call) :
    Limited (set.turn call) ↔ HasRoom set call := by
  rw [Limited, turn_maxConnSize]
  by_cases adds : ∃ id peer, call = .add id peer
  · obtain ⟨id, peer, rfl⟩ := adds
    change (set.add id peer).2.size ≤ _ ↔ _
    rw [size_add]
    constructor
    · rintro below _ _ ⟨⟩ absent full
      rw [if_pos ⟨absent, limited⟩, full] at below
      exact Nat.not_succ_le_self _ below
    · intro room
      split
      next new => exact Nat.lt_of_le_of_ne new.2 (room id peer rfl new.1)
      next => exact limited
  · refine iff_of_true ?_ fun id peer same => (adds ⟨id, peer, same⟩).elim
    exact (size_turn_le call fun id peer same => adds ⟨id, peer, same⟩).trans limited

theorem limited_make (maxConnSize : UInt32) : Limited (make maxConnSize) := Nat.zero_le _

/-- **The connection limit.** Along a sequence of calls, the set never holds more peers than it
may and a failed `add` changes nothing, exactly when no new peer is ever added to a set that is
full. -/
theorem connection_limit_iff (maxConnSize : UInt32) (calls : List Call) :
    Run.Always turn Limited FailsUnchanged (make maxConnSize) calls ↔
      Run.Steps turn HasRoom (make maxConnSize) calls := by
  apply Run.always_iff_steps Limited
  · exact fun _ => id
  · exact fun set call limited room =>
      ⟨failsUnchanged set call, (limited_turn_iff limited call).mpr room⟩
  · exact fun set call limited noRoom kept => noRoom ((limited_turn_iff limited call).mp kept.2)
  · exact limited_make maxConnSize

/-- A server that supports one connection, and two that are accepted. -/
theorem limit_exceeded :
    ¬ Run.Always turn Limited FailsUnchanged (make 1) [.add 1 Impl.made, .add 2 Impl.made] := by
  intro always
  exact absurd always.final (by decide : ¬ 2 ≤ 1)

/-- A set that is one peer above its limit takes no other one. -/
theorem size_turn_le_succ (call : Call) (near : set.size ≤ set.maxConnSize.toNat + 1) :
    (set.turn call).size ≤ set.maxConnSize.toNat + 1 := by
  by_cases adds : ∃ id peer, call = .add id peer
  · obtain ⟨id, peer, rfl⟩ := adds
    change (set.add id peer).2.size ≤ _
    rw [size_add]
    split
    next new => exact Nat.succ_le_succ new.2
    next => exact near
  · exact (size_turn_le call fun id peer same => adds ⟨id, peer, same⟩).trans near

/-- **One too many.** No sequence of calls leaves more than one peer above the limit. -/
theorem size_le_succ (maxConnSize : UInt32) (calls : List Call) :
    (Run.final turn (make maxConnSize) calls).size ≤ maxConnSize.toNat + 1 := by
  have start : (make maxConnSize).maxConnSize = maxConnSize ∧
      (make maxConnSize).size ≤ maxConnSize.toNat + 1 := ⟨rfl, Nat.zero_le _⟩
  have kept (set : TcpPeerSet) (call : Call)
      (near : set.maxConnSize = maxConnSize ∧ set.size ≤ maxConnSize.toNat + 1) :
      (set.turn call).maxConnSize = maxConnSize ∧
        (set.turn call).size ≤ maxConnSize.toNat + 1 := by
    obtain ⟨rfl, small⟩ := near
    exact ⟨turn_maxConnSize set call, size_turn_le_succ call small⟩
  exact (Run.final_of_kept _ kept start calls).2

end TcpPeerSet

end Cube.Eco.Net
