import Mathlib.Algebra.Group.Nat.Defs
import Mathlib.Tactic.SplitIfs
import Cube.Liblight.Server

/-! # The load of the services

`get_sessions` counts the sessions that are registered and those that are on their way to it: the
accept that is pending, and the sessions whose `start` is posted. An accept that fails leaves its
service counted for one more.
-/

namespace Cube.Liblight

namespace LightService

/-- What `get_sessions` returns, for a number that is not too large. -/
theorem toInt_ofNat_eq {count : Nat} :
    (BitVec.ofNat 32 count).toInt = count ↔ count < 2 ^ 31 := by
  rw [BitVec.toInt_ofNat', Int.bmod_def]
  split_ifs <;> omega

end LightService

namespace Server

variable {n : Nat} {τ : Type} (server : Server n τ)

/-- The sessions of a service that are so far. -/
def count (far : Phase → Bool) (service : Fin (n + 1)) : Nat :=
  server.sessions.countP fun session => decide (session.lightService = service) && far session.phase

/-- The sessions that are live. -/
def live : Fin (n + 1) → Nat := server.count Phase.live

/-- The sessions whose `start` is posted. -/
def posted : Fin (n + 1) → Nat := server.count fun phase => decide (phase = .posted)

/-- The live sessions of a service, and the sessions and the accept that are assigned to it. -/
def load (service : Fin (n + 1)) : Nat :=
  server.live service + server.posted service + if server.accepting = service then 1 else 0

/-- Every service returns its load, and the service that is chosen has the fewest. -/
structure Balanced (server : Server n τ) : Prop where
  exactly : ∀ service, (server.rwServices service).getSessions = server.load service
  fewest : ∀ service, server.load server.getService ≤ server.load service

/-- An accept does not fail, and finds a service with less than `2 ^ 31 - 1` sessions; a session
that is started gets an id that no live session of its service has. -/
structure Restores (server : Server n τ) (event : Event τ) : Prop where
  accepted : ∀ err, event = .handleAccept err →
    err = false ∧ ∃ service, server.load service + 1 < 2 ^ 31
  free : server.TakesFreeId event

variable {server}

/-- The service that is chosen. -/
theorem getService_le (service : Fin (n + 1)) :
    (server.rwServices server.getService).getSessions ≤
      (server.rwServices service).getSessions := by
  exact @List.apply_minOn_le_of_mem _ _ _ _ _ _
    (fun service => (server.rwServices service).getSessions) _ (List.mem_finRange service)

/-- Counting after one element changed. -/
theorem countP_set_add {α : Type} {list : List α} {position : Nat} {old : α}
    (found : list[position]? = some old) (new : α) (counted : α → Bool) :
    (list.set position new).countP counted + (if counted old = true then 1 else 0) =
      list.countP counted + if counted new = true then 1 else 0 := by
  obtain ⟨inside, here⟩ := List.getElem?_eq_some_iff.mp found
  have positive : counted old = true → 0 < list.countP counted := fun own =>
    List.countP_pos_iff.mpr ⟨old, List.mem_of_getElem? found, own⟩
  rw [List.countP_set inside, here]
  by_cases own : counted old = true
  · have := positive own
    rw [if_pos own]
    omega
  · rw [if_neg own]
    omega

/-- Counts after one session went on. -/
theorem count_set {s : SessionRef} {session : Session n}
    (found : server.sessions[s]? = some session) (changed : Session n)
    (same : changed.lightService = session.lightService) (after : Server n τ)
    (sessions : after.sessions = server.sessions.set s changed) (far : Phase → Bool)
    (service : Fin (n + 1)) :
    after.count far service +
        (if session.lightService = service ∧ far session.phase = true then 1 else 0) =
      server.count far service +
        if session.lightService = service ∧ far changed.phase = true then 1 else 0 := by
  have counts := countP_set_add found changed fun session =>
    decide (session.lightService = service) && far session.phase
  simp only [same, Bool.and_eq_true, decide_eq_true_eq] at counts
  rw [count, sessions]
  exact counts

/-- The sessions are counted as long as the services know them. -/
structure Counted (server : Server n τ) : Prop where
  registered : server.Registered
  size : ∀ service, (server.rwServices service).sessions.keys.length = server.live service

/-- The counter of every service is right. -/
structure Assigned (server : Server n τ) : Prop where
  counted : server.Counted
  pending : ∀ service, (server.rwServices service).preAddSession = BitVec.ofNat 32
    (server.posted service + if server.accepting = service then 1 else 0)

/-- What the services return when the counters are right. -/
theorem Assigned.getSessions (assigned : server.Assigned) (service : Fin (n + 1)) :
    (server.rwServices service).getSessions = (BitVec.ofNat 32 (server.load service)).toInt := by
  rw [LightService.getSessions, assigned.counted.size, assigned.pending, ← BitVec.ofNat_add, load,
    Nat.add_assoc]

/-- A service returns its load exactly while that is below `2 ^ 31`. -/
theorem Assigned.exactly_iff (assigned : server.Assigned) (service : Fin (n + 1)) :
    (server.rwServices service).getSessions = server.load service ↔
      server.load service < 2 ^ 31 := by
  rw [assigned.getSessions, LightService.toInt_ofNat_eq]

theorem balanced_of_exactly
    (exactly : ∀ service, (server.rwServices service).getSessions = server.load service) :
    server.Balanced := by
  refine ⟨exactly, fun service => ?_⟩
  have least := server.getService_le service
  rw [exactly, exactly] at least
  exact Int.ofNat_le.mp least

/-! ## One event -/

theorem live_of_sessions {after : Server n τ} (sessions : after.sessions = server.sessions) :
    after.live = server.live := by
  funext service
  rw [live, count, sessions, live, count]

theorem posted_of_sessions {after : Server n τ} (sessions : after.sessions = server.sessions) :
    after.posted = server.posted := by
  funext service
  rw [posted, count, sessions, posted, count]

/-- Nothing that is counted has changed. -/
theorem Assigned.of_same {after : Server n τ} (assigned : server.Assigned)
    (services : after.rwServices = server.rwServices) (sessions : after.sessions = server.sessions)
    (accepting : after.accepting = server.accepting) : after.Assigned := by
  refine ⟨⟨?_, fun service => ?_⟩, fun service => ?_⟩
  · apply assigned.counted.registered.of_same
    · exact fun service => by rw [services]
    · exact fun service => by rw [services]
    · exact fun service sessionid s => by rw [sessions]
  · rw [services, live_of_sessions sessions]
    exact assigned.counted.size service
  · rw [services, posted_of_sessions sessions, accepting]
    exact assigned.pending service

theorem load_of_same {after : Server n τ} (sessions : after.sessions = server.sessions)
    (accepting : after.accepting = server.accepting) : after.load = server.load := by
  funext service
  rw [load, live_of_sessions sessions, posted_of_sessions sessions, accepting, load]

theorem preAddSession_doAccept (service : Fin (n + 1)) :
    (server.doAccept.rwServices service).preAddSession =
      (server.rwServices service).preAddSession +
        BitVec.ofNat 32 (if server.getService = service then 1 else 0) := by
  rw [Server.doAccept]
  dsimp only [setService]
  by_cases chosen : server.getService = service
  · rw [if_pos chosen, ← chosen, Function.update_self]
    rfl
  · rw [if_neg chosen, Function.update_of_ne (Ne.symm chosen), BitVec.add_zero]

theorem Counted.doAccept (counted : server.Counted) : server.doAccept.Counted := by
  refine ⟨counted.registered.doAccept, fun service => ?_⟩
  obtain ⟨pending, changed⟩ := doAccept_rwServices server service
  rw [changed]
  exact counted.size service

/-- The accept that is issued is counted where it is assigned. -/
theorem Counted.assigned_doAccept (counted : server.Counted)
    (pending : ∀ service, (server.rwServices service).preAddSession =
      BitVec.ofNat 32 (server.posted service)) : server.doAccept.Assigned := by
  refine ⟨counted.doAccept, fun service => ?_⟩
  rw [preAddSession_doAccept, pending, ← BitVec.ofNat_add]
  rfl

/-- The session that is made for an accepted socket. -/
def made (server : Server n τ) : Server n τ :=
  { server with sessions := server.sessions ++ [⟨server.accepting, 0, .posted⟩] }

theorem live_made (server : Server n τ) : server.made.live = server.live := by
  funext service
  simp [live, count, made, Phase.live]

theorem posted_made (server : Server n τ) (service : Fin (n + 1)) : server.made.posted service =
    server.posted service + if server.accepting = service then 1 else 0 := by
  simp [posted, count, made]

theorem Counted.made (counted : server.Counted) : server.made.Counted := by
  refine ⟨?_, fun service => ?_⟩
  · apply counted.registered.of_same
    · exact fun _ => rfl
    · exact fun _ => rfl
    · exact fun service => holds_append_posted server.sessions service server.accepting
  · rw [live_made]
    exact counted.size service

theorem Assigned.made (assigned : server.Assigned) (service : Fin (n + 1)) :
    (server.made.rwServices service).preAddSession =
      BitVec.ofNat 32 (server.made.posted service) := by
  rw [posted_made]
  exact assigned.pending service

/-- The load of a service after the next accept was issued. -/
theorem load_made_doAccept (service : Fin (n + 1)) : server.made.doAccept.load service =
    server.load service + if server.made.getService = service then 1 else 0 := by
  have lives := live_made server
  have posts := posted_made server service
  change server.made.live service + server.made.posted service +
    (if server.made.getService = service then 1 else 0) = _
  rw [lives, posts, load]
  omega

/-- An accept without an error. -/
theorem Assigned.accepted (assigned : server.Assigned) : server.made.doAccept.Assigned :=
  assigned.counted.made.assigned_doAccept assigned.made

/-- The own service, and the others, after a service was changed. -/
theorem setService_rwServices (service : Fin (n + 1)) (changed : LightService)
    (other : Fin (n + 1)) : (server.setService service changed).rwServices other =
      if service = other then changed else server.rwServices other := by
  dsimp only [setService]
  by_cases own : service = other
  · rw [if_pos own, ← own, Function.update_self]
  · rw [if_neg own, Function.update_of_ne (Ne.symm own)]

/-- A session that is registered was assigned before. -/
theorem posted_start {s : SessionRef} {session : Session n}
    (found : server.sessions[s]? = some session) (waiting : session.phase = .posted)
    (service : Fin (n + 1)) :
    (server.start s session).posted service +
        (if session.lightService = service then 1 else 0) = server.posted service ∧
      (server.start s session).live service =
        server.live service + if session.lightService = service then 1 else 0 := by
  have lives := count_set found { session with
    sessionid := (server.rwServices session.lightService).nextSessionid, phase := .connected }
    rfl (server.start s session) rfl Phase.live service
  have posts := count_set found { session with
    sessionid := (server.rwServices session.lightService).nextSessionid, phase := .connected }
    rfl (server.start s session) rfl (fun phase => decide (phase = .posted)) service
  simp only [waiting, Phase.live, decide_true, reduceCtorEq, decide_false, Bool.false_eq_true,
    and_true, and_false, if_false, Nat.add_zero] at lives posts
  exact ⟨posts, lives⟩

/-- The counter that is lowered when a session registers itself. -/
theorem Assigned.lowered (assigned : server.Assigned) {s : SessionRef} {session : Session n}
    (found : server.sessions[s]? = some session) (waiting : session.phase = .posted)
    (service : Fin (n + 1)) :
    ((server.start s session).rwServices service).preAddSession = BitVec.ofNat 32
      ((server.start s session).posted service + if server.accepting = service then 1 else 0) := by
  have before := assigned.pending service
  rw [← (posted_start found waiting service).1] at before
  change ((server.setService session.lightService _).rwServices service).preAddSession = _
  rw [setService_rwServices]
  by_cases own : session.lightService = service
  · rw [if_pos own, own, LightService.addSession]
    rw [if_pos own, Nat.add_right_comm, BitVec.ofNat_add] at before
    dsimp only
    rw [before]
    exact BitVec.add_sub_cancel _ _
  · rw [if_neg own]
    rw [if_neg own, Nat.add_zero] at before
    exact before

theorem Assigned.start (assigned : server.Assigned) {s : SessionRef} {session : Session n}
    (found : server.sessions[s]? = some session) (waiting : session.phase = .posted)
    (free : ∀ t, ¬ Holds server.sessions session.lightService
      (server.rwServices session.lightService).nextSessionid t) :
    (server.start s session).Assigned := by
  have registered := assigned.counted.registered
  refine ⟨⟨registered.start found waiting free, fun service => ?_⟩,
    assigned.lowered found waiting⟩
  have size := assigned.counted.size service
  rw [(posted_start found waiting service).2]
  change ((server.setService session.lightService _).rwServices service).sessions.keys.length = _
  rw [setService_rwServices]
  by_cases own : session.lightService = service
  · have absent : (server.rwServices service).nextSessionid ∉
        (server.rwServices service).sessions.keys := by
      rw [← AList.mem_keys, ← AList.lookup_isSome, Option.isSome_iff_exists]
      rintro ⟨t, known⟩
      exact free t (own ▸ (registered.lookup _ _ _).mp known)
    rw [if_pos own, if_pos own, own, LightService.addSession, AList.keys_insert,
      List.erase_of_not_mem absent, List.length_cons, size]
  · rw [if_neg own, if_neg own, size, Nat.add_zero]

theorem Assigned.stop (assigned : server.Assigned) {s : SessionRef} {session : Session n}
    (found : server.sessions[s]? = some session) (connected : session.phase = .connected) :
    (server.stop s session).Assigned := by
  refine ⟨⟨assigned.counted.registered.stop found connected, fun service => ?_⟩, fun service => ?_⟩
  · have lives := count_set found { session with phase := .stopped } rfl
      (server.stop s session) rfl Phase.live service
    simp only [connected, Phase.live] at lives
    exact (assigned.counted.size service).trans (Nat.add_right_cancel lives).symm
  · have posts := count_set found { session with phase := .stopped } rfl
      (server.stop s session) rfl (fun phase => decide (phase = .posted)) service
    simp only [connected, reduceCtorEq, decide_false, Bool.false_eq_true, and_false, if_false,
      Nat.add_zero] at posts
    rw [posted, posts]
    exact assigned.pending service

/-- A session that closes is counted no more. -/
theorem Assigned.handlerClose (assigned : server.Assigned) {s : SessionRef} {session : Session n}
    (found : server.sessions[s]? = some session) (stopped : session.phase = .stopped) :
    (server.handlerClose s session).Assigned := by
  have registered := assigned.counted.registered
  refine ⟨⟨registered.handlerClose found stopped, fun service => ?_⟩, fun service => ?_⟩
  · have lives := count_set found { session with phase := .closed } rfl
      (server.handlerClose s session) rfl Phase.live service
    have size := assigned.counted.size service
    simp only [stopped, Phase.live, Bool.false_eq_true, and_true, and_false, if_false,
      Nat.add_zero] at lives
    rw [live] at size ⊢
    change ((server.setService session.lightService _).rwServices service).sessions.keys.length = _
    rw [setService_rwServices]
    by_cases own : session.lightService = service
    · have known : session.sessionid ∈ (server.rwServices service).sessions.keys := by
        rw [← AList.mem_keys, ← AList.lookup_isSome, Option.isSome_iff_exists]
        exact ⟨s, (registered.lookup _ _ _).mpr ⟨session, found, own, by rw [stopped]; rfl, rfl⟩⟩
      rw [if_pos own] at lives
      rw [if_pos own, own, LightService.delSession, AList.keys_erase, List.length_erase_of_mem known,
        size]
      omega
    · rw [if_neg own] at lives
      rw [if_neg own, size]
      omega
  · have posts := count_set found { session with phase := .closed } rfl
      (server.handlerClose s session) rfl (fun phase => decide (phase = .posted)) service
    simp only [stopped, reduceCtorEq, decide_false, Bool.false_eq_true, and_false, if_false,
      Nat.add_zero] at posts
    have pending := assigned.pending service
    rw [posted] at pending ⊢
    rw [posts, show (server.handlerClose s session).accepting = server.accepting from rfl, ← pending]
    change ((server.setService session.lightService _).rwServices service).preAddSession = _
    rw [setService_rwServices]
    by_cases own : session.lightService = service
    · rw [if_pos own, own, LightService.delSession]
    · rw [if_neg own]

/-- The counters are right, and no service has too many sessions. -/
structure Precise (server : Server n τ) : Prop where
  assigned : server.Assigned
  bounded : ∀ service, server.load service < 2 ^ 31

theorem Precise.exactly (precise : server.Precise) (service : Fin (n + 1)) :
    (server.rwServices service).getSessions = server.load service :=
  (precise.assigned.exactly_iff service).mpr (precise.bounded service)

/-- A session that goes on counts no more than before. -/
theorem load_set_le {s : SessionRef} {session : Session n}
    (found : server.sessions[s]? = some session) (changed : Session n)
    (same : changed.lightService = session.lightService) (counted : session.phase ≠ .closed)
    (after : Server n τ) (sessions : after.sessions = server.sessions.set s changed)
    (accepting : after.accepting = server.accepting) (service : Fin (n + 1)) :
    after.load service ≤ server.load service := by
  have lives := count_set found changed same after sessions Phase.live service
  have posts := count_set found changed same after sessions
    (fun phase => decide (phase = .posted)) service
  rw [load, load, accepting, live, live, posted, posted]
  by_cases own : session.lightService = service
  · simp only [own, true_and] at lives posts
    cases before : session.phase <;> cases next : changed.phase <;>
      simp only [before, next, Phase.live, reduceCtorEq, decide_true, decide_false,
        Bool.false_eq_true, if_true, if_false] at lives posts <;>
      first
        | exact absurd before counted
        | omega
  · simp only [own, false_and, if_false] at lives posts
    omega

/-- The service that gets the next accept has the least load. -/
theorem Precise.least (precise : server.Precise) (service : Fin (n + 1)) :
    server.load server.made.getService ≤ server.load service := by
  have least : (server.rwServices server.made.getService).getSessions ≤
    (server.rwServices service).getSessions := server.made.getService_le service
  rw [precise.exactly, precise.exactly] at least
  exact Int.ofNat_le.mp least

/-- The counters stay right. -/
theorem Precise.step (precise : server.Precise) {event : Event τ} (restores : server.Restores event) :
    (server.step event).Precise := by
  apply step_elim event precise
  · intro err same
    obtain ⟨rfl, some, room⟩ := restores.accepted err same
    refine ⟨precise.assigned.accepted, fun service => ?_⟩
    change server.made.doAccept.load service < 2 ^ 31
    rw [load_made_doAccept]
    by_cases chosen : server.made.getService = service
    · have := precise.least some
      rw [if_pos chosen, ← chosen]
      omega
    · rw [if_neg chosen]
      exact precise.bounded service
  · intro s session same found waiting
    refine ⟨precise.assigned.start found waiting (restores.free s session same found waiting),
      fun service => ?_⟩
    exact Nat.lt_of_le_of_lt (load_set_le found { session with
      sessionid := (server.rwServices session.lightService).nextSessionid, phase := .connected }
      rfl (by rw [waiting]; decide) (server.start s session) rfl rfl service) (precise.bounded service)
  · intro s session _ found connected
    refine ⟨precise.assigned.stop found connected, fun service => ?_⟩
    exact Nat.lt_of_le_of_lt (load_set_le found { session with phase := .stopped }
      rfl (by rw [connected]; decide) (server.stop s session) rfl rfl service) (precise.bounded service)
  · intro s session _ found stopped
    refine ⟨precise.assigned.handlerClose found stopped, fun service => ?_⟩
    exact Nat.lt_of_le_of_lt (load_set_le found { session with phase := .closed }
      rfl (by rw [stopped]; decide) (server.handlerClose s session) rfl rfl service) (precise.bounded service)
  · intro s session transaction _ _ _
    obtain ⟨services, sessions, _⟩ := sendTransaction_same server s session transaction
    have accepting : (server.sendTransaction s session transaction).accepting =
        server.accepting := by
      rw [Server.sendTransaction]
      split <;> rfl
    refine ⟨precise.assigned.of_same services sessions accepting, fun service => ?_⟩
    rw [load_of_same sessions accepting]
    exact precise.bounded service
  · intro position post _ _
    let taken : Server n τ := { server with posts := server.posts.eraseIdx position }
    obtain ⟨services, sessions, _⟩ := send_same taken post
    have accepting : (taken.send post).accepting = server.accepting := by
      rw [Server.send]
      split <;> rfl
    refine ⟨precise.assigned.of_same services sessions accepting, fun service => ?_⟩
    rw [load_of_same sessions accepting]
    exact precise.bounded service

/-- An accept that fails is still counted. -/
theorem Assigned.failed (assigned : server.Assigned) : ¬ server.doAccept.Balanced := by
  intro balanced
  have returned := balanced.exactly server.accepting
  have pending := assigned.pending server.accepting
  have size := assigned.counted.doAccept.size server.accepting
  have load : server.doAccept.load server.accepting = server.live server.accepting +
    server.posted server.accepting + if server.getService = server.accepting then 1 else 0 := rfl
  rw [if_pos rfl] at pending
  rw [LightService.getSessions, size, preAddSession_doAccept, pending, ← BitVec.ofNat_add,
    ← BitVec.ofNat_add, live_of_sessions sessions_doAccept, load] at returned
  generalize (if server.getService = server.accepting then 1 else 0) = chosen at returned
  rw [BitVec.toInt_ofNat', Int.bmod_def] at returned
  split_ifs at returned <;> omega

/-- A session that takes the place of another one is not counted. -/
theorem Assigned.taken (assigned : server.Assigned) {s : SessionRef} {session : Session n}
    (found : server.sessions[s]? = some session) (waiting : session.phase = .posted)
    {t : SessionRef} (holder : Holds server.sessions session.lightService
      (server.rwServices session.lightService).nextSessionid t) :
    ¬ (server.start s session).Balanced := by
  intro balanced
  have returned := balanced.exactly session.lightService
  obtain ⟨posted, live⟩ := posted_start found waiting session.lightService
  have known := (assigned.counted.registered.lookup _ _ _).mpr holder
  have member : (server.rwServices session.lightService).nextSessionid ∈
      (server.rwServices session.lightService).sessions.keys := by
    rw [← AList.mem_keys, ← AList.lookup_isSome, known]
    rfl
  have size : ((server.start s session).rwServices session.lightService).sessions.keys.length =
      server.live session.lightService := by
    have positive := List.length_pos_of_mem member
    change ((server.setService session.lightService _).rwServices _).sessions.keys.length = _
    rw [setService_rwServices, if_pos rfl, LightService.addSession, AList.keys_insert,
      List.length_cons, List.length_erase_of_mem member, ← assigned.counted.size]
    omega
  rw [if_pos rfl] at live
  rw [LightService.getSessions, size, assigned.lowered found waiting, ← BitVec.ofNat_add, load,
    live, show (server.start s session).accepting = server.accepting from rfl] at returned
  generalize (if server.accepting = session.lightService then 1 else 0) = pending at returned
  rw [BitVec.toInt_ofNat', Int.bmod_def] at returned
  split_ifs at returned <;> omega

/-- An event that does not restore the counter unbalances the services. -/
theorem Precise.unbalanced (precise : server.Precise) {event : Event τ}
    (lost : ¬ server.Restores event) : ¬ (server.step event).Balanced := by
  intro balanced
  refine lost ⟨?_, ?_⟩
  · rintro err rfl
    cases err with
    | true => exact absurd balanced precise.assigned.failed
    | false =>
        refine ⟨rfl, server.made.getService, ?_⟩
        have bound := (precise.assigned.accepted.exactly_iff server.made.getService).mp
          (balanced.exactly server.made.getService)
        rw [load_made_doAccept, if_pos rfl] at bound
        exact bound
  · rintro s session rfl found waiting t holder
    rw [step_start found waiting] at balanced
    exact precise.assigned.taken found waiting holder balanced

theorem precise_make (n : Nat) (τ : Type) : (make n τ).Precise := by
  let idle : Server n τ := ⟨fun service => .make service, 0, [], [], []⟩
  have counted : idle.Counted := by
    refine ⟨⟨fun _ => rfl, fun service sessionid s => iff_of_false ?_ ?_⟩, fun _ => rfl⟩
    · rw [show (idle.rwServices service).sessions = ∅ from rfl, AList.lookup_empty]
      exact nofun
    · rintro ⟨session, found, _⟩
      cases found
  refine ⟨counted.assigned_doAccept fun _ => rfl, fun service => ?_⟩
  change 0 + 0 + (if idle.getService = service then 1 else 0) < 2 ^ 31
  split <;> decide

end Server

/-- **The load of the services**, in every run of a server: every service returns the number of its
live sessions and of those assigned to it, and the one with the fewest is chosen, exactly while no
accept fails, no session is started under an id that a live session of its service has, and some
service has less than `2 ^ 31 - 1` of them at every accept. -/
theorem balanced_iff (n : Nat) (τ : Type) (events : List (Event τ)) :
    Run.Always Server.step Server.Balanced (fun _ _ => True) (Server.make n τ) events ↔
      Run.Steps Server.step Server.Restores (Server.make n τ) events := by
  apply Run.always_iff_steps Server.Precise
  · exact fun server precise => Server.balanced_of_exactly precise.exactly
  · exact fun server event precise restores => ⟨trivial, precise.step restores⟩
  · exact fun server event precise lost always => precise.unbalanced lost always.2
  · exact Server.precise_make n τ

/-- One service whose first accept fails: nothing is live, one accept is pending, and two are
counted. -/
theorem failed_accept_counted :
    let server := (Server.make 0 Unit).step (.handleAccept true)
    (server.rwServices 0).getSessions = 2 ∧ server.load 0 = 1 ∧ ¬ server.Balanced := by
  refine ⟨by decide, by decide, fun balanced => ?_⟩
  exact absurd (balanced.exactly 0) (by decide)

end Cube.Liblight
