import Mathlib.Algebra.Group.Nat.Defs
import Cube.Liblight.Server

/-! # Where the id of a session leads

The id of a session packs the number of its service above the serial number that the service gave
it. `SendTransaction` splits it again. Both are right for the first 65535 sessions of each of the
first 65536 services, and for no other session.
-/

namespace Cube.Liblight

/-- The service that is read off an id. -/
theorem serviceid_eq (sessionid : BitVec 32) :
    ((sessionid &&& 0xffff0000) >>> 16).toNat = sessionid.toNat / 65536 := by
  have mask : ((0xffff0000 : BitVec 32) >>> 16).toNat = 2 ^ 16 - 1 := by decide
  have bound := sessionid.isLt
  rw [BitVec.ushiftRight_and_distrib, BitVec.toNat_and, mask, Nat.and_two_pow_sub_one_eq_mod,
    BitVec.toNat_ushiftRight, Nat.shiftRight_eq_div_pow]
  exact Nat.mod_eq_of_lt (by omega)

namespace Dispatcher

/-- A session is found exactly by an id that is not zero and starts with its service. -/
theorem sendTransaction_eq_some {n : Nat} {sessionid : BitVec 32} {service : Fin (n + 1)} :
    sendTransaction n sessionid = some service ↔
      sessionid ≠ 0 ∧ sessionid.toNat / 65536 = service.val := by
  rw [sendTransaction]
  by_cases given : sessionid ≠ 0
  · rw [if_pos given, serviceid_eq]
    dsimp only
    by_cases registered : sessionid.toNat / 65536 < n + 1
    · rw [dif_pos registered, Option.some.injEq, Fin.ext_iff, and_iff_right given]
    · rw [dif_neg registered]
      exact iff_of_false nofun fun found => registered (found.2 ▸ service.isLt)
  · rw [if_neg given]
    exact iff_of_false nofun fun found => given found.1

end Dispatcher

namespace LightService

variable {service : LightService}

theorem nextSessionid_toNat : service.nextSessionid.toNat =
    (65536 * service.serviceid + (service.sessionSerial.toNat + 1)) % 2 ^ 32 := by
  rw [nextSessionid, generateSessionSerial, BitVec.toNat_add, BitVec.toNat_shiftLeft,
    BitVec.toNat_ofNat, BitVec.toNat_add, Nat.shiftLeft_eq, show (1 : BitVec 32).toNat = 1 from rfl]
  omega

/-- The ids that a service can give and `SendTransaction` can split. -/
theorem nextSessionid_of_lt (first : service.serviceid < 65536)
    (serial : service.sessionSerial.toNat + 1 < 65536) : service.nextSessionid.toNat =
      65536 * service.serviceid + (service.sessionSerial.toNat + 1) := by
  rw [nextSessionid_toNat]
  exact Nat.mod_eq_of_lt (by omega)

/-- `send` hands a transaction to the session under the id, when that is connected. -/
theorem send_eq_some {connected : SessionRef → Bool} {sessionid : BitVec 32} {s : SessionRef} :
    service.send connected sessionid = some s ↔
      service.sessions.lookup sessionid = some s ∧ connected s = true := by
  rw [send]
  cases service.sessions.lookup sessionid with
  | none => simp
  | some found =>
      dsimp only
      by_cases able : connected found = true
      · rw [if_pos able]
        constructor
        · intro same
          exact ⟨same, Option.some.inj same ▸ able⟩
        · exact And.left
      · rw [if_neg able]
        refine iff_of_false nofun fun ⟨same, other⟩ => able ?_
        rw [Option.some.inj same]
        exact other

end LightService

namespace Server

variable {n : Nat} {τ : Type} {server : Server n τ}

theorem connected_iff {s : SessionRef} {session : Session n}
    (found : server.sessions[s]? = some session) :
    server.connected s = true ↔ session.phase = .connected := by
  simp [connected, found]

/-- Live sessions have different ids; an answer to one is posted to the service that holds it, and
that service hands it to the session while it is connected; and no transaction was handed to
another session than it was meant for. -/
structure Routed (server : Server n τ) : Prop where
  different : ∀ (s : SessionRef) (session : Session n) (t : SessionRef) (other : Session n),
    server.sessions[s]? = some session → server.sessions[t]? = some other → session.phase.live = true → other.phase.live = true →
    session.sessionid = other.sessionid → s = t
  posted : ∀ (s : SessionRef) (session : Session n), server.sessions[s]? = some session → session.phase.live = true →
    Dispatcher.sendTransaction n session.sessionid = some session.lightService
  sent : ∀ (s : SessionRef) (session : Session n), server.sessions[s]? = some session → session.phase.live = true →
    (server.rwServices session.lightService).send server.connected session.sessionid =
      if session.phase = .connected then some s else none
  handed : ∀ hand ∈ server.handed, hand.2.1 = hand.1

/-- A session that is started is one of the first 65535 of one of the first 65536 services. -/
def FitsId (server : Server n τ) (event : Event τ) : Prop :=
  ∀ (s : SessionRef) (session : Session n), event = .start s → server.sessions[s]? = some session → session.phase = .posted →
    session.lightService.val < 65536 ∧
      (server.rwServices session.lightService).sessionSerial.toNat + 1 < 65536

/-- An id that a service has given. -/
def Gave (server : Server n τ) (service : Fin (n + 1)) (sessionid : BitVec 32) : Prop :=
  sessionid.toNat / 65536 = service.val ∧ 0 < sessionid.toNat % 65536 ∧
    sessionid.toNat % 65536 ≤ (server.rwServices service).sessionSerial.toNat

/-- A session that was started has an id that its service gave, and no other session has it;
posts carry the ids of the sessions they are meant for. -/
structure Numbered (server : Server n τ) : Prop where
  registered : server.Registered
  serial : ∀ service, (server.rwServices service).sessionSerial.toNat < 65536
  gave : ∀ (s : SessionRef) (session : Session n), server.sessions[s]? = some session → session.phase ≠ .posted →
    server.Gave session.lightService session.sessionid
  different : ∀ (s : SessionRef) (session : Session n) (t : SessionRef) (other : Session n),
    server.sessions[s]? = some session → server.sessions[t]? = some other → session.phase ≠ .posted → other.phase ≠ .posted →
    session.sessionid = other.sessionid → s = t
  posts : ∀ post ∈ server.posts, ∃ session : Session n, server.sessions[post.meant]? = some session ∧
    session.phase ≠ .posted ∧ session.sessionid = post.sessionid
  handed : ∀ hand ∈ server.handed, hand.2.1 = hand.1

theorem ne_posted_of_live {phase : Phase} (live : phase.live = true) : phase ≠ .posted := by
  rintro rfl
  cases live

theorem Numbered.routed (numbered : server.Numbered) : server.Routed := by
  refine ⟨fun s session t other foundS foundT liveS liveT => ?_, fun s session found live => ?_,
    fun s session found live => ?_, numbered.handed⟩
  · exact numbered.different s session t other foundS foundT (ne_posted_of_live liveS)
      (ne_posted_of_live liveT)
  · obtain ⟨service, serial, _⟩ := numbered.gave s session found (ne_posted_of_live live)
    refine Dispatcher.sendTransaction_eq_some.mpr ⟨?_, service⟩
    intro zero
    rw [zero] at serial
    exact absurd serial (by decide)
  · have lookup := (numbered.registered.lookup _ _ _).mpr ⟨session, found, rfl, live, rfl⟩
    rw [LightService.send, lookup]
    dsimp only
    by_cases connected : session.phase = .connected
    · rw [if_pos ((connected_iff found).mpr connected), if_pos connected]
    · rw [if_neg fun able => connected ((connected_iff found).mp able), if_neg connected]

theorem numbered_make (n : Nat) (τ : Type) : (make n τ).Numbered := by
  refine ⟨registered_make n τ, fun service => ?_, fun s session found => ?_,
    fun s session t other found => ?_, nofun, nofun⟩
  · obtain ⟨count, changed⟩ := doAccept_rwServices
      (⟨fun service => .make service, 0, [], [], []⟩ : Server n τ) service
    rw [make, changed]
    exact (by decide : (0 : BitVec 32).toNat < 65536)
  · cases found
  · cases found

/-- Nothing that is numbered has changed. -/
theorem Numbered.of_same {after : Server n τ} (numbered : server.Numbered)
    (registered : after.Registered)
    (serial : ∀ service,
      (after.rwServices service).sessionSerial = (server.rwServices service).sessionSerial)
    (started : ∀ (s : SessionRef) (session : Session n), after.sessions[s]? = some session → session.phase ≠ .posted →
      ∃ before : Session n, server.sessions[s]? = some before ∧ before.phase ≠ .posted ∧
        before.lightService = session.lightService ∧ before.sessionid = session.sessionid)
    (posts : ∀ post ∈ after.posts, ∃ session : Session n, after.sessions[post.meant]? = some session ∧
      session.phase ≠ .posted ∧ session.sessionid = post.sessionid)
    (handed : ∀ hand ∈ after.handed, hand.2.1 = hand.1) : after.Numbered := by
  refine ⟨registered, fun service => ?_, fun s session found phase => ?_,
    fun s session t other foundS foundT phaseS phaseT same => ?_, posts, handed⟩
  · rw [serial]
    exact numbered.serial service
  · obtain ⟨before, foundBefore, phaseBefore, service, sessionid⟩ := started s session found phase
    have given := numbered.gave s before foundBefore phaseBefore
    rw [service, sessionid] at given
    rw [Gave, serial]
    exact given
  · obtain ⟨first, foundFirst, phaseFirst, _, firstId⟩ := started s session foundS phaseS
    obtain ⟨second, foundSecond, phaseSecond, _, secondId⟩ := started t other foundT phaseT
    exact numbered.different s first t second foundFirst foundSecond phaseFirst phaseSecond
      (firstId.trans (same.trans secondId.symm))

theorem Numbered.handleAccept (numbered : server.Numbered) (err : Bool) :
    (server.handleAccept err).Numbered := by
  cases err with
  | true =>
      apply numbered.of_same
      · exact numbered.registered.doAccept
      · intro service
        obtain ⟨count, changed⟩ := doAccept_rwServices server service
        rw [Server.handleAccept, if_pos rfl, changed]
      · exact fun s session found phase => ⟨session, found, phase, rfl, rfl⟩
      · exact numbered.posts
      · exact numbered.handed
  | false =>
      apply numbered.of_same
      · exact numbered.registered.handleAccept false
      · intro service
        obtain ⟨count, changed⟩ := doAccept_rwServices { server with
          sessions := server.sessions ++ [⟨server.accepting, 0, .posted⟩] } service
        rw [Server.handleAccept, if_neg Bool.false_ne_true, changed]
      · intro s session found phase
        rcases getElem?_append_session found with old | rfl
        · exact ⟨session, old, phase, rfl, rfl⟩
        · exact absurd rfl phase
      · intro post member
        obtain ⟨session, found, rest⟩ := numbered.posts post member
        exact ⟨session, getElem?_append_of_some found _, rest⟩
      · exact numbered.handed

/-- A session that goes on without a new id. -/
theorem Numbered.set (numbered : server.Numbered) {s : SessionRef} {session : Session n}
    (found : server.sessions[s]? = some session) (phase : session.phase ≠ .posted)
    {next : Phase} (later : next ≠ .posted) {after : Server n τ} (registered : after.Registered)
    (serial : ∀ service,
      (after.rwServices service).sessionSerial = (server.rwServices service).sessionSerial)
    (sessions : after.sessions = server.sessions.set s { session with phase := next })
    (posts : after.posts = server.posts) (handed : after.handed = server.handed) :
    after.Numbered := by
  apply numbered.of_same registered serial
  · intro t other foundT phaseT
    rw [sessions, getElem?_set_session found] at foundT
    by_cases same : s = t
    · rw [if_pos same] at foundT
      cases foundT
      exact ⟨session, same ▸ found, phase, rfl, rfl⟩
    · rw [if_neg same] at foundT
      exact ⟨other, foundT, phaseT, rfl, rfl⟩
  · rw [posts]
    intro post member
    obtain ⟨meant, foundMeant, phaseMeant, id⟩ := numbered.posts post member
    rw [sessions, getElem?_set_session found]
    by_cases same : s = post.meant
    · rw [← same] at foundMeant
      cases found.symm.trans foundMeant
      exact ⟨_, if_pos same, later, id⟩
    · rw [if_neg same]
      exact ⟨meant, foundMeant, phaseMeant, id⟩
  · rw [handed]
    exact numbered.handed

/-- The serial numbers after a session was registered. -/
theorem start_serial (s : SessionRef) (session : Session n) (service : Fin (n + 1)) :
    ((server.start s session).rwServices service).sessionSerial =
      if service = session.lightService then (server.rwServices service).sessionSerial + 1
      else (server.rwServices service).sessionSerial := by
  rw [Server.start]
  dsimp only [setService]
  by_cases here : service = session.lightService
  · subst here
    rw [Function.update_self, if_pos rfl]
    rfl
  · rw [Function.update_of_ne here, if_neg here]

/-- No session that was started has the id that the service gives next. -/
theorem Numbered.new (numbered : server.Numbered) {service : Fin (n + 1)}
    (first : service.val < 65536)
    (serial : (server.rwServices service).sessionSerial.toNat + 1 < 65536) {t : SessionRef}
    {other : Session n} (found : server.sessions[t]? = some other)
    (phase : other.phase ≠ .posted) :
    other.sessionid ≠ (server.rwServices service).nextSessionid := by
  intro same
  have number := numbered.registered.serviceid service
  have next := LightService.nextSessionid_of_lt (number ▸ first) serial
  obtain ⟨serviceid, _, bound⟩ := numbered.gave t other found phase
  rw [same, next, number] at serviceid bound
  have here : other.lightService = service := Fin.ext (by omega)
  rw [here] at bound
  omega

theorem toNat_succ_of_lt {serial : BitVec 32} (bound : serial.toNat + 1 < 65536) :
    (serial + 1).toNat = serial.toNat + 1 := by
  rw [BitVec.toNat_add]
  exact Nat.mod_eq_of_lt (by rw [show (1 : BitVec 32).toNat = 1 from rfl]; omega)

/-- The sessions after one of them was started. -/
theorem getElem?_start {s : SessionRef} {session : Session n}
    (found : server.sessions[s]? = some session) (t : SessionRef) :
    (server.start s session).sessions[t]? =
      if s = t then some { session with
        sessionid := (server.rwServices session.lightService).nextSessionid, phase := .connected }
      else server.sessions[t]? :=
  getElem?_set_session found _ t

/-- The session that is started has got its id from its service, and the others keep theirs. -/
theorem Numbered.gave_start (numbered : server.Numbered) {s : SessionRef} {session : Session n}
    (found : server.sessions[s]? = some session)
    (first : session.lightService.val < 65536)
    (serial : (server.rwServices session.lightService).sessionSerial.toNat + 1 < 65536)
    {t : SessionRef} {other : Session n}
    (foundT : (server.start s session).sessions[t]? = some other) (phaseT : other.phase ≠ .posted) :
    (server.start s session).Gave other.lightService other.sessionid := by
  have number := numbered.registered.serviceid session.lightService
  rw [getElem?_start found] at foundT
  rw [Gave, start_serial]
  by_cases own : s = t
  · rw [if_pos own] at foundT
    cases foundT
    dsimp only
    rw [if_pos rfl, LightService.nextSessionid_of_lt (number ▸ first) serial,
      toNat_succ_of_lt serial, number]
    omega
  · rw [if_neg own] at foundT
    obtain ⟨serviceid, positive, bound⟩ := numbered.gave t other foundT phaseT
    refine ⟨serviceid, positive, Nat.le_trans bound ?_⟩
    by_cases here : other.lightService = session.lightService
    · rw [if_pos here, here, toNat_succ_of_lt serial]
      exact Nat.le_succ _
    · rw [if_neg here]

/-- The session that is started has an id of its own. -/
theorem Numbered.different_start (numbered : server.Numbered) {s : SessionRef}
    {session : Session n} (found : server.sessions[s]? = some session)
    (first : session.lightService.val < 65536)
    (serial : (server.rwServices session.lightService).sessionSerial.toNat + 1 < 65536)
    {t u : SessionRef} {other third : Session n}
    (foundT : (server.start s session).sessions[t]? = some other)
    (foundU : (server.start s session).sessions[u]? = some third)
    (phaseT : other.phase ≠ .posted) (phaseU : third.phase ≠ .posted)
    (same : other.sessionid = third.sessionid) : t = u := by
  rw [getElem?_start found] at foundT foundU
  by_cases ownT : s = t
  · by_cases ownU : s = u
    · exact ownT.symm.trans ownU
    · rw [if_pos ownT] at foundT
      rw [if_neg ownU] at foundU
      cases foundT
      exact absurd same.symm (numbered.new first serial foundU phaseU)
  · rw [if_neg ownT] at foundT
    by_cases ownU : s = u
    · rw [if_pos ownU] at foundU
      cases foundU
      exact absurd same (numbered.new first serial foundT phaseT)
    · rw [if_neg ownU] at foundU
      exact numbered.different t other u third foundT foundU phaseT phaseU same

theorem Numbered.start (numbered : server.Numbered) {s : SessionRef} {session : Session n}
    (found : server.sessions[s]? = some session) (posted : session.phase = .posted)
    (first : session.lightService.val < 65536)
    (serial : (server.rwServices session.lightService).sessionSerial.toNat + 1 < 65536) :
    (server.start s session).Numbered := by
  refine ⟨?_, fun service => ?_, fun t other foundT phaseT => ?_,
    fun t other u third foundT foundU phaseT phaseU same => ?_, fun post member => ?_,
    numbered.handed⟩
  · refine numbered.registered.start found posted fun t ⟨other, foundT, _, live, id⟩ => ?_
    exact numbered.new first serial foundT (ne_posted_of_live live) id
  · rw [start_serial]
    by_cases here : service = session.lightService
    · rw [if_pos here, here, toNat_succ_of_lt serial]
      exact serial
    · rw [if_neg here]
      exact numbered.serial service
  · exact numbered.gave_start found first serial foundT phaseT
  · exact numbered.different_start found first serial foundT foundU phaseT phaseU same
  · obtain ⟨meant, foundMeant, phaseMeant, id⟩ := numbered.posts post member
    rw [getElem?_start found, if_neg]
    · exact ⟨meant, foundMeant, phaseMeant, id⟩
    · rintro rfl
      cases found.symm.trans foundMeant
      exact phaseMeant posted

/-- An answer is posted with the id of the session it is meant for. -/
theorem Numbered.sendTransaction (numbered : server.Numbered) {s : SessionRef}
    {session : Session n} (found : server.sessions[s]? = some session)
    (started : session.phase ≠ .posted) (transaction : τ) :
    (server.sendTransaction s session transaction).Numbered := by
  rw [Server.sendTransaction]
  cases Dispatcher.sendTransaction n session.sessionid with
  | none => exact numbered
  | some service =>
      apply numbered.of_same
      · exact numbered.registered.of_same (fun _ => rfl) (fun _ => rfl) fun _ _ _ => Iff.rfl
      · exact fun _ => rfl
      · exact fun t other foundT phase => ⟨other, foundT, phase, rfl, rfl⟩
      · intro post member
        rcases List.mem_append.mp member with old | new
        · exact numbered.posts post old
        · cases List.mem_singleton.mp new
          exact ⟨session, found, started, rfl⟩
      · exact numbered.handed

/-- A post that is run is handed to nobody but the session it is meant for. -/
theorem Numbered.send (numbered : server.Numbered) {post : Post n τ} {session : Session n}
    (meant : server.sessions[post.meant]? = some session) (started : session.phase ≠ .posted)
    (id : session.sessionid = post.sessionid) : (server.send post).Numbered := by
  rw [Server.send]
  cases sent : (server.rwServices post.service).send server.connected post.sessionid with
  | none => exact numbered
  | some s =>
      apply numbered.of_same
      · exact numbered.registered.of_same (fun _ => rfl) (fun _ => rfl) fun _ _ _ => Iff.rfl
      · exact fun _ => rfl
      · exact fun t other foundT phase => ⟨other, foundT, phase, rfl, rfl⟩
      · exact numbered.posts
      · intro hand member
        rcases List.mem_append.mp member with old | new
        · exact numbered.handed hand old
        · cases List.mem_singleton.mp new
          obtain ⟨lookup, _⟩ := LightService.send_eq_some.mp sent
          obtain ⟨other, found, _, live, same⟩ := (numbered.registered.lookup _ _ _).mp lookup
          exact numbered.different s other post.meant session found meant (ne_posted_of_live live)
            started (same.trans id.symm)

/-- The numbering is kept while the sessions fit the ids. -/
theorem Numbered.step (numbered : server.Numbered) {event : Event τ} (fits : server.FitsId event) :
    (server.step event).Numbered := by
  apply step_elim event numbered
  · exact fun err _ => numbered.handleAccept err
  · intro s session same found posted
    obtain ⟨first, serial⟩ := fits s session same found posted
    exact numbered.start found posted first serial
  · intro s session _ found connected
    apply numbered.set found (by rw [connected]; decide) (show Phase.stopped ≠ .posted by decide)
    · exact numbered.registered.stop found connected
    · exact fun _ => rfl
    · rfl
    · rfl
    · rfl
  · intro s session _ found stopped
    apply numbered.set found (by rw [stopped]; decide) (show Phase.closed ≠ .posted by decide)
    · exact numbered.registered.handlerClose found stopped
    · intro service
      rw [Server.handlerClose]
      dsimp only [setService]
      by_cases here : service = session.lightService
      · rw [here, Function.update_self, LightService.delSession]
      · rw [Function.update_of_ne here]
    · rfl
    · rfl
    · rfl
  · exact fun s session transaction _ found started =>
      numbered.sendTransaction found started transaction
  · intro position post _ found
    obtain ⟨session, meant, started, id⟩ := numbered.posts post (List.mem_of_getElem? found)
    have taken : Numbered { server with posts := server.posts.eraseIdx position } := by
      apply numbered.of_same
      · exact numbered.registered.of_same (fun _ => rfl) (fun _ => rfl) fun _ _ _ => Iff.rfl
      · exact fun _ => rfl
      · exact fun t other foundT phase => ⟨other, foundT, phase, rfl, rfl⟩
      · exact fun other member => numbered.posts other (List.mem_of_mem_eraseIdx member)
      · exact numbered.handed
    exact taken.send meant started id

/-- A session that is found by its id fits. -/
theorem Routed.fits {s : SessionRef} {session : Session n}
    (routed : (server.start s session).Routed) (found : server.sessions[s]? = some session)
    (number : (server.rwServices session.lightService).serviceid = session.lightService.val)
    (serial : (server.rwServices session.lightService).sessionSerial.toNat < 65536) :
    session.lightService.val < 65536 ∧
      (server.rwServices session.lightService).sessionSerial.toNat + 1 < 65536 := by
  have foundAfter := (getElem?_start found s).trans (if_pos rfl)
  have leads := (Dispatcher.sendTransaction_eq_some.mp (routed.posted s _ foundAfter rfl)).2
  dsimp only at leads
  rw [LightService.nextSessionid_toNat, number] at leads
  omega

/-- A session that does not fit is not found by its id. -/
theorem Numbered.not_routed (numbered : server.Numbered) {event : Event τ}
    (unfit : ¬ server.FitsId event) : ¬ (server.step event).Routed := by
  intro routed
  apply unfit
  rintro s session rfl found posted
  rw [step_start found posted] at routed
  exact routed.fits found (numbered.registered.serviceid _) (numbered.serial _)

end Server

/-- **Routing of answers**, in every run of a server: every live session is found by its id and is
handed what is meant for it, and nothing else, exactly while each session that is started is one
of the first 65535 of its service and one of the first 65536 services has it. -/
theorem routed_iff (n : Nat) (τ : Type) (events : List (Event τ)) :
    Run.Always Server.step Server.Routed (fun _ _ => True) (Server.make n τ) events ↔
      Run.Steps Server.step Server.FitsId (Server.make n τ) events := by
  apply Run.always_iff_steps Server.Numbered
  · exact fun server numbered => numbered.routed
  · exact fun server event numbered fits => ⟨trivial, numbered.step fits⟩
  · exact fun server event numbered unfit always => numbered.not_routed unfit always.2
  · exact Server.numbered_make n τ

/-! ## The session of serial number 65536 -/

/-- So many clients, each of which is accepted and started. -/
def clients : Nat → List (Event Unit)
  | 0 => []
  | count + 1 => clients count ++ [.handleAccept false, .start count]

/-- The service after so many clients, when the next one is accepted. -/
theorem final_clients (count : Nat) :
    let server := (Run.final Server.step (Server.make 0 Unit) (clients count)).handleAccept false
    server.sessions[count]? = some ⟨0, 0, .posted⟩ ∧
      (server.rwServices 0).sessionSerial = BitVec.ofNat 32 count ∧
      (server.rwServices 0).serviceid = 0 ∧ server.sessions.length = count + 1 := by
  have accepted (server : Server 0 Unit) {serial : BitVec 32} {length : Nat}
      (before : (server.rwServices 0).sessionSerial = serial ∧
        (server.rwServices 0).serviceid = 0 ∧ server.sessions.length = length) :
      (server.handleAccept false).sessions[length]? = some ⟨0, 0, .posted⟩ ∧
        ((server.handleAccept false).rwServices 0).sessionSerial = serial ∧
        ((server.handleAccept false).rwServices 0).serviceid = 0 ∧
        (server.handleAccept false).sessions.length = length + 1 := by
    obtain ⟨sameSerial, sameId, sameLength⟩ := before
    obtain ⟨number, changed⟩ := Server.doAccept_rwServices { server with
      sessions := server.sessions ++ [⟨server.accepting, 0, .posted⟩] } 0
    have only : server.accepting = 0 := Fin.fin_one_eq_zero _
    rw [Server.handleAccept, if_neg Bool.false_ne_true, changed]
    refine ⟨?_, sameSerial, sameId, ?_⟩
    · rw [← sameLength, ← only]
      exact List.getElem?_concat_length
    · exact List.length_append.trans (congrArg (· + 1) sameLength)
  induction count with
  | zero => exact accepted _ ⟨rfl, rfl, rfl⟩
  | succ count ih =>
      obtain ⟨found, serial, serviceid, length⟩ := ih
      apply accepted
      rw [clients, Run.final_append]
      generalize Run.final Server.step (Server.make 0 Unit) (clients count) = server at *
      dsimp only [Run.final]
      rw [show server.step (.handleAccept false) = server.handleAccept false from rfl,
        Server.step_start found rfl]
      refine ⟨?_, (Server.start_serviceid _ _ _).trans serviceid, ?_⟩
      · rw [Server.start_serial, if_pos rfl, serial, BitVec.ofNat_add]
        rfl
      · rw [Server.start]
        dsimp only
        rw [List.length_set]
        exact length

theorem not_routed_clients {count : Nat} (last : count + 1 = 65536) :
    ¬ (Run.final Server.step (Server.make 0 Unit) (clients (count + 1))).Routed := by
  intro routed
  obtain ⟨found, serial, serviceid, _⟩ := final_clients count
  rw [clients, Run.final_append] at routed
  generalize Run.final Server.step (Server.make 0 Unit) (clients count) = server at *
  dsimp only [Run.final] at routed
  rw [show server.step (.handleAccept false) = server.handleAccept false from rfl,
    Server.step_start found rfl] at routed
  have counted : ((server.handleAccept false).rwServices 0).sessionSerial.toNat = count := by
    rw [serial, BitVec.toNat_ofNat]
    exact Nat.mod_eq_of_lt (by omega)
  have fits := (routed.fits found serviceid (by dsimp only; omega)).2
  dsimp only at fits
  omega

/-- The 65536th client of a server with one service is not found by its id, which leads to a
second service. -/
theorem client_not_routed :
    ¬ (Run.final Server.step (Server.make 0 Unit) (clients 65536)).Routed :=
  not_routed_clients rfl

end Cube.Liblight
