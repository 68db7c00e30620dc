import Cube.Eco.Net.TcpServer
import Mathlib.Data.List.Perm.Subperm
import Mathlib.Data.List.Range

/-! # Isolation of server sessions

A session is removed together with its id under one connection. As long as every session is
erased under a connection that owns it, an id belongs to one connection or is free, and no
connection disturbs the sessions of another; the first session erased under another
connection leaves its id both owned and free.
-/

namespace Cube.Eco.Net

namespace TcpServer

variable {D : Type}

/-- The ids that can be used again are distinct, name no session and belong to no
connection. -/
structure Separate (server : TcpServer D) : Prop where
  nodup : server.leftSessionIds.Nodup
  unnamed : ∀ id ∈ server.leftSessionIds, id ∉ server.sessionMap
  unowned : ∀ id ∈ server.leftSessionIds, ∀ conn, id ∉ server.sessionsOf conn

/-- A call leaves the others alone: a session that is added gets an id that is not in use,
and the sessions of other connections stay theirs, as they are stored. -/
structure Isolated (server : TcpServer D) (call : Call D) : Prop where
  fresh : ∀ conn newSess id session, call = .addSession conn newSess →
    (server.addSession conn newSess).1 = some (id, session) → id ∉ server.sessionMap
  kept : ∀ conn id, id ∈ server.sessionsOf conn → conn ≠ call.connection →
    id ∈ (server.step call).sessionsOf conn ∧
      (server.step call).sessionMap.lookup id = server.sessionMap.lookup id

/-- A session that exists is erased under a connection that owns it. -/
def ErasedByOwner (server : TcpServer D) : Call D → Prop
  | .eraseSession sessId connId =>
      sessId ∈ server.sessionMap → sessId ∈ server.sessionsOf connId
  | _ => True

/-- The ids issued so far are those in use and those to be used again, and each id in use
belongs to exactly one connection. -/
structure Consistent (server : TcpServer D) : Prop where
  nodup : server.leftSessionIds.Nodup
  unnamed : ∀ id ∈ server.leftSessionIds, id ∉ server.sessionMap
  issued : ∀ id : SessionId, (id ∈ server.leftSessionIds ∨ id ∈ server.sessionMap) ↔
    0 < id.toNat ∧ id.toNat ≤ server.lastSessionId.toNat
  named : ∀ conn id, id ∈ server.sessionsOf conn → id ∈ server.sessionMap
  owned : ∀ id ∈ server.sessionMap, ∃ conn, id ∈ server.sessionsOf conn
  single : ∀ conn other id, id ∈ server.sessionsOf conn → id ∈ server.sessionsOf other →
    conn = other

theorem consistent_start (sessionMode : Bool) (maxSessionSize : UInt32) :
    (start sessionMode maxSessionSize : TcpServer D).Consistent := by
  have none (conn : ConnectionId) (id : SessionId) :
      id ∉ (start sessionMode maxSessionSize : TcpServer D).sessionsOf conn := by
    rw [sessionsOf, start, AList.lookup_empty, Option.getD_none]
    exact OrderedSet.not_mem_empty id
  have unnamed (id : SessionId) :
      id ∉ (start sessionMode maxSessionSize : TcpServer D).sessionMap := AList.notMem_empty id
  exact
    { nodup := .nil
      unnamed := fun _ member => absurd member List.not_mem_nil
      issued := fun id => iff_of_false
        (fun used => used.elim List.not_mem_nil (unnamed id))
        (fun range => Nat.not_lt_of_le range.2 range.1)
      named := fun conn id member => (none conn id member).elim
      owned := fun id member => (unnamed id member).elim
      single := fun conn _ id member => (none conn id member).elim }

namespace Consistent

variable {server : TcpServer D}

theorem separate (consistent : server.Consistent) : server.Separate where
  nodup := consistent.nodup
  unnamed := consistent.unnamed
  unowned := fun id left conn member =>
    consistent.unnamed id left (consistent.named conn id member)

/-- Without an id to use again there are as many sessions as ids issued. -/
theorem last_le_size (consistent : server.Consistent) (empty : server.leftSessionIds = []) :
    server.lastSessionId.toNat ≤ server.sessionMap.keys.length := by
  let ids := (List.range' 1 server.lastSessionId.toNat).map UInt32.ofNat
  have bound := server.lastSessionId.toNat_lt
  have value {number : Nat} (member : number ∈ List.range' 1 server.lastSessionId.toNat) :
      0 < number ∧ number ≤ server.lastSessionId.toNat ∧
        (UInt32.ofNat number).toNat = number := by
    obtain ⟨low, high⟩ := List.mem_range'_1.mp member
    rw [UInt32.toNat_ofNat']
    omega
  have distinct : ids.Nodup := by
    refine List.Nodup.map_on (fun first firstIn second secondIn same => ?_) List.nodup_range'
    rw [← (value firstIn).2.2, same, (value secondIn).2.2]
  have used : ids ⊆ server.sessionMap.keys := by
    intro id member
    obtain ⟨number, inRange, rfl⟩ := List.mem_map.mp member
    obtain ⟨positive, below, exact_value⟩ := value inRange
    have known := (consistent.issued (UInt32.ofNat number)).mpr
      (by rw [exact_value]; exact ⟨positive, below⟩)
    rw [empty] at known
    exact AList.mem_keys.mp (known.resolve_left List.not_mem_nil)
  have counted := (List.Nodup.subperm distinct used).length_le
  rwa [List.length_map, List.length_range'] at counted

/-- **The next id is free**, and taking it accounts for it. -/
theorem nextSessionId_spec (consistent : server.Consistent)
    (room : server.sessionMap.keys.length < server.maxSessionSize.toNat)
    {sessId : SessionId} {taken : TcpServer D}
    (next : server.nextSessionId = (sessId, taken)) :
    sessId ∉ server.sessionMap ∧ taken.sessionMap = server.sessionMap ∧
      taken.connSession = server.connSession ∧ taken.leftSessionIds.Nodup ∧
      sessId ∉ taken.leftSessionIds ∧ (∀ id ∈ taken.leftSessionIds, id ∉ server.sessionMap) ∧
      ∀ id : SessionId, (id ∈ taken.leftSessionIds ∨ id = sessId ∨ id ∈ server.sessionMap) ↔
        0 < id.toNat ∧ id.toNat ≤ taken.lastSessionId.toNat := by
  have issued := consistent.issued
  have nodup := consistent.nodup
  have unnamed := consistent.unnamed
  unfold nextSessionId at next
  cases left : server.leftSessionIds with
  | cons first rest =>
      rw [left] at next nodup unnamed issued
      cases next
      obtain ⟨notLater, restNodup⟩ := List.nodup_cons.mp nodup
      refine ⟨unnamed sessId List.mem_cons_self, rfl, rfl, restNodup, notLater,
        fun id member => unnamed id (List.mem_cons_of_mem _ member), fun id => ?_⟩
      rw [← issued id, List.mem_cons, or_left_comm, or_assoc]
  | nil =>
      rw [left] at next issued
      cases next
      have size := consistent.last_le_size left
      have bound := server.maxSessionSize.toNat_lt
      have one : (1 : UInt32).toNat = 1 := rfl
      have last : (server.lastSessionId + 1).toNat = server.lastSessionId.toNat + 1 := by
        rw [UInt32.toNat_add, one]
        omega
      have used (id : SessionId) : id ∈ server.sessionMap ↔
          0 < id.toNat ∧ id.toNat ≤ server.lastSessionId.toNat :=
        (or_iff_right List.not_mem_nil).symm.trans (issued id)
      refine ⟨fun stored => ?_, rfl, rfl, .nil, List.not_mem_nil, nofun, fun id => ?_⟩
      · have known := ((used _).mp stored).2
        omega
      · change (id ∈ [] ∨ id = server.lastSessionId + 1 ∨ id ∈ server.sessionMap) ↔
          0 < id.toNat ∧ id.toNat ≤ (server.lastSessionId + 1).toNat
        rw [or_iff_right List.not_mem_nil, used, ← UInt32.toNat_inj, last]
        omega

/-- A session can be added when its id is free and enters all structures at once. -/
theorem of_addition (consistent : server.Consistent) {after : TcpServer D} {sessId : SessionId}
    {conn : ConnectionId} (free : sessId ∉ server.sessionMap)
    (nodup : after.leftSessionIds.Nodup) (notLeft : sessId ∉ after.leftSessionIds)
    (unnamed : ∀ id ∈ after.leftSessionIds, id ∉ server.sessionMap)
    (issued : ∀ id : SessionId,
      (id ∈ after.leftSessionIds ∨ id = sessId ∨ id ∈ server.sessionMap) ↔
        0 < id.toNat ∧ id.toNat ≤ after.lastSessionId.toNat)
    (stored : ∀ id, id ∈ after.sessionMap ↔ id = sessId ∨ id ∈ server.sessionMap)
    (owners : ∀ other id, id ∈ after.sessionsOf other ↔
      (other = conn ∧ id = sessId) ∨ id ∈ server.sessionsOf other) :
    after.Consistent := by
  have notOwned (other : ConnectionId) : sessId ∉ server.sessionsOf other :=
    fun member => free (consistent.named other sessId member)
  refine ⟨nodup, fun id member => ?_, fun id => ?_, fun other id member => ?_,
    fun id member => ?_, fun one other id oneHas otherHas => ?_⟩
  · rw [stored]
    intro held
    rcases held with rfl | old
    · exact notLeft member
    · exact unnamed id member old
  · rw [stored]
    exact issued id
  · rw [stored]
    exact ((owners other id).mp member).imp And.right (consistent.named other id)
  · rcases (stored id).mp member with rfl | old
    · exact ⟨conn, (owners conn id).mpr (.inl ⟨rfl, rfl⟩)⟩
    · obtain ⟨other, owner⟩ := consistent.owned id old
      exact ⟨other, (owners other id).mpr (.inr owner)⟩
  · rcases (owners one id).mp oneHas with ⟨rfl, rfl⟩ | oneOld
    · rcases (owners other id).mp otherHas with ⟨rfl, _⟩ | otherOld
      · rfl
      · exact (notOwned other otherOld).elim
    · rcases (owners other id).mp otherHas with ⟨_, rfl⟩ | otherOld
      · exact (notOwned one oneOld).elim
      · exact consistent.single one other id oneOld otherOld

/-- A session that is added is added for its connection, under an id that was free. -/
theorem addSession (consistent : server.Consistent) (conn : ConnectionId) (newSess : Option D) :
    (server.addSession conn newSess).2.Consistent ∧
      server.Isolated (.addSession conn newSess) := by
  rcases addSession_cases server conn newSess with refused | ⟨room, sessId, taken, next, added⟩
  · refine ⟨by rw [refused]; exact consistent, ?_, fun other id member _ => ?_⟩
    · intro conn newSess id session call success
      cases call
      rw [refused] at success
      cases success
    · rw [step, refused]
      exact ⟨member, rfl⟩
  · obtain ⟨free, sessions, conns, nodup, notLeft, unnamed, issued⟩ :=
      consistent.nextSessionId_spec room next
    have stored (id : SessionId) :
        id ∈ (server.addSession conn newSess).2.sessionMap ↔
          id = sessId ∨ id ∈ server.sessionMap := by
      rw [added, ← sessions]
      exact AList.mem_insert _
    have owners (other : ConnectionId) (id : SessionId) :
        id ∈ (server.addSession conn newSess).2.sessionsOf other ↔
          (other = conn ∧ id = sessId) ∨ id ∈ server.sessionsOf other := by
      rw [added, mem_sessionsOf_addConnSession, sessionsOf, sessionsOf, conns]
    have left : (server.addSession conn newSess).2.leftSessionIds = taken.leftSessionIds := by
      rw [added]
      rfl
    have last : (server.addSession conn newSess).2.lastSessionId = taken.lastSessionId := by
      rw [added]
      rfl
    rw [← left] at nodup notLeft unnamed issued
    rw [← last] at issued
    refine ⟨consistent.of_addition free nodup notLeft unnamed issued stored owners, ?_,
      fun other id member _ => ?_⟩
    · intro conn' newSess' id session call success
      cases call
      rw [added] at success
      cases success
      exact free
    · refine ⟨(owners other id).mpr (.inr member), ?_⟩
      have different : id ≠ sessId := fun same =>
        free (consistent.named other sessId (same ▸ member))
      rw [step, added]
      change (taken.sessionMap.insert sessId newSess).lookup id = _
      rw [AList.lookup_insert_ne different, sessions]

/-- Sessions can be removed when each of them leaves all structures at once. -/
theorem of_removal (consistent : server.Consistent) {after : TcpServer D}
    (gone : List SessionId) (distinct : gone.Nodup)
    (known : ∀ id ∈ gone, id ∈ server.sessionMap)
    (left : after.leftSessionIds = gone ++ server.leftSessionIds)
    (last : after.lastSessionId = server.lastSessionId)
    (lookups : ∀ id, after.sessionMap.lookup id =
      if id ∈ gone then none else server.sessionMap.lookup id)
    (owners : ∀ conn id, id ∈ after.sessionsOf conn ↔ id ∈ server.sessionsOf conn ∧ id ∉ gone) :
    after.Consistent := by
  have stored (id : SessionId) : id ∈ after.sessionMap ↔ id ∉ gone ∧ id ∈ server.sessionMap := by
    rw [← AList.lookup_isSome, lookups]
    split
    next removed => simp only [Option.isSome_none, Bool.false_eq_true, removed, not_true_eq_false,
      false_and]
    next remains => rw [AList.lookup_isSome, and_iff_right remains]
  refine ⟨?_, fun id member => ?_, fun id => ?_, fun conn id member => ?_, fun id member => ?_,
    fun conn other id connHas otherHas => ?_⟩
  · rw [left]
    exact distinct.append consistent.nodup
      fun id removed member => consistent.unnamed id member (known id removed)
  · rw [left] at member
    rw [stored]
    intro held
    rcases List.mem_append.mp member with removed | old
    · exact held.1 removed
    · exact consistent.unnamed id old held.2
  · rw [left, last, stored, ← consistent.issued id, List.mem_append]
    by_cases removed : id ∈ gone
    · simp only [removed, known id removed, true_or, or_true]
    · simp only [removed, false_or, not_false_eq_true, true_and]
  · obtain ⟨owner, remains⟩ := (owners conn id).mp member
    exact (stored id).mpr ⟨remains, consistent.named conn id owner⟩
  · obtain ⟨remains, old⟩ := (stored id).mp member
    obtain ⟨conn, owner⟩ := consistent.owned id old
    exact ⟨conn, (owners conn id).mpr ⟨owner, remains⟩⟩
  · exact consistent.single conn other id ((owners conn id).mp connHas).1
      ((owners other id).mp otherHas).1

theorem eraseSession (consistent : server.Consistent) {sessId : SessionId}
    {connId : ConnectionId} (byOwner : server.ErasedByOwner (.eraseSession sessId connId)) :
    (server.eraseSession sessId connId).Consistent ∧
      server.Isolated (.eraseSession sessId connId) := by
  obtain ⟨left, last, lookups, owners⟩ := eraseSession_spec server connId sessId
  have onlyOwner (conn : ConnectionId) (member : sessId ∈ server.sessionsOf conn) :
      conn = connId :=
    consistent.single conn connId sessId member (byOwner (consistent.named conn sessId member))
  refine ⟨?_, nofun, fun conn id member other => ?_⟩
  · by_cases stored : sessId ∈ server.sessionMap
    · rw [if_pos stored] at left
      refine consistent.of_removal [sessId] (List.nodup_singleton _)
        (fun id removed => List.mem_singleton.mp removed ▸ stored) left last
        (fun id => ?_) (fun conn id => ?_)
      · rw [lookups]
        simp only [List.mem_singleton]
      · rw [owners, List.mem_singleton]
        refine and_congr_right fun member => not_congr ⟨And.right, fun same => ⟨?_, same⟩⟩
        exact onlyOwner conn (same ▸ member)
    · rw [if_neg stored] at left
      refine consistent.of_removal [] .nil nofun left last
        (fun id => ?_) (fun conn id => ?_)
      · rw [lookups]
        split
        next same => rw [same, AList.lookup_eq_none.mpr stored]; rfl
        next => rfl
      · rw [owners]
        refine and_congr_right fun member => iff_of_true (fun both => ?_) List.not_mem_nil
        exact stored (both.2 ▸ consistent.named conn id member)
  · have different : id ≠ sessId := fun same => other (onlyOwner conn (same ▸ member))
    refine ⟨(owners conn id).mpr ⟨member, fun both => different both.2⟩, ?_⟩
    exact (lookups id).trans (if_neg different)

theorem clearConnSession (consistent : server.Consistent) (connId : ConnectionId) :
    (server.clearConnSession connId).Consistent ∧
      server.Isolated (.clearConnSession connId) := by
  obtain ⟨left, last, lookups, owners⟩ := clearConnSession_spec server connId
  have gone (id : SessionId) : id ∈ (server.sessionsOf connId).toList.reverse ↔
      id ∈ server.sessionsOf connId := List.mem_reverse
  refine ⟨?_, nofun, fun conn id member other => ?_⟩
  · refine consistent.of_removal (server.sessionsOf connId).toList.reverse
      (List.nodup_reverse.mpr (server.sessionsOf connId).nodup)
      (fun id removed => consistent.named connId id ((gone id).mp removed)) left last
      (fun id => ?_) (fun conn id => ?_)
    · rw [lookups]
      simp only [gone]
    · rw [owners, gone, and_comm]
      refine and_congr_right fun member => not_congr ⟨?_, ?_⟩
      · intro same
        exact same ▸ member
      · exact consistent.single conn connId id member
  · have notCleared : id ∉ server.sessionsOf connId := fun cleared =>
      other (consistent.single conn connId id member cleared)
    exact ⟨(owners conn id).mpr ⟨other, member⟩, (lookups id).trans (if_neg notCleared)⟩

/-- A call under an owning connection keeps the server consistent and isolates the others. -/
theorem step (consistent : server.Consistent) {call : Call D}
    (byOwner : server.ErasedByOwner call) :
    server.Isolated call ∧ (server.step call).Consistent := by
  cases call with
  | addSession conn newSess => exact (consistent.addSession conn newSess).symm
  | eraseSession sessId connId => exact (consistent.eraseSession byOwner).symm
  | clearConnSession connId => exact (consistent.clearConnSession connId).symm

/-- A session erased under a connection that does not own it leaves an id that is owned and
free. -/
theorem not_separate_of_stranger (consistent : server.Consistent) {call : Call D}
    (stranger : ¬ server.ErasedByOwner call) : ¬ (server.step call).Separate := by
  intro separate
  cases call with
  | addSession conn newSess => exact stranger trivial
  | clearConnSession connId => exact stranger trivial
  | eraseSession sessId connId =>
      rw [ErasedByOwner, Classical.not_imp] at stranger
      obtain ⟨stored, notOwner⟩ := stranger
      obtain ⟨owner, owned⟩ := consistent.owned sessId stored
      obtain ⟨left, _, _, owners⟩ := eraseSession_spec server connId sessId
      have recycled : sessId ∈ (server.eraseSession sessId connId).leftSessionIds := by
        rw [left, if_pos stored]
        exact List.mem_cons_self
      refine separate.unowned sessId recycled owner ((owners owner sessId).mpr ⟨owned, ?_⟩)
      intro both
      exact notOwner (both.1 ▸ owned)

end Consistent

/-- **Session ids.** Along a run of calls the ids to use again stay distinct, nameless and
unowned, every added session gets an id not in use and no connection disturbs the sessions of
another, exactly when each session that exists is erased under a connection that owns it. -/
theorem sessions_separate_iff (sessionMode : Bool) (maxSessionSize : UInt32)
    (calls : List (Call D)) :
    Run.Always step Separate Isolated (start sessionMode maxSessionSize) calls ↔
      Run.Steps step ErasedByOwner (start sessionMode maxSessionSize) calls :=
  Run.always_iff_steps Consistent (fun _ => Consistent.separate)
    (fun _ _ consistent byOwner => consistent.step byOwner)
    (fun _ _ consistent stranger both => consistent.not_separate_of_stranger stranger both.2)
    (consistent_start sessionMode maxSessionSize) calls

/-- Connection 20 closes the session of connection 10. Its id goes to connection 30, and the
session of connection 30 is removed when connection 10 goes. -/
theorem sessions_not_separate :
    let calls : List (Call Unit) :=
      [.addSession 10 (some ()), .eraseSession 1 20, .addSession 30 (some ())]
    let server := Run.final step (start true 8) calls
    ¬ Run.Always step Separate Isolated (start true 8) calls ∧
      1 ∈ server.sessionsOf 30 ∧ server.findSession 1 = some () ∧
      (server.step (.clearConnSession 10)).findSession 1 = none := by
  refine ⟨?_, by decide, by decide, by decide⟩
  intro always
  exact always.2.2.2.2.head.unowned 1 (by decide) 10 (by decide)

end TcpServer

end Cube.Eco.Net
