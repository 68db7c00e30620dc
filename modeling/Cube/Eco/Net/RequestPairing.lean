import Mathlib.Tactic.Common
import Cube.Lib.Run
import Cube.Eco.Net.TcpClient

/-! # Requests and their answers

A codec belongs to the call of `request` that waits for it, and the dispatcher reaches it
through the map. Who may touch a codec, and what becomes of an asynchronous request, is told by
two ghost stages, one for each codec and one for each asynchronous request, of which a thread
changes only those that are its own.
-/

namespace Cube.Eco.Net.TcpClient

variable {ι : Type}

/-! ## What is to be proved -/

/-- Every answer is decoded before the request returns, and a request returns success exactly
if an answer with its id was decoded into its codec. -/
inductive Paired : List RequestEvent → Prop where
  | nil : Paired []
  | put {log : List RequestEvent} (paired : Paired log) (async : AsyncRef) (reqId : RequestId) :
      Paired (log ++ [.put async reqId])
  | removed {log : List RequestEvent} (paired : Paired log) (async : AsyncRef) :
      Paired (log ++ [.removed async])
  | decoded {log : List RequestEvent} (paired : Paired log) (codec : CodecId)
      (reqId : RequestId) (ok : Bool) (waiting : ∀ id result, .returned codec id result ∉ log) :
      Paired (log ++ [.decoded codec reqId ok])
  | returned {log : List RequestEvent} (paired : Paired log) (codec : CodecId)
      (reqId : RequestId) (ok : Bool) (exact : ok = true ↔ .decoded codec reqId true ∈ log) :
      Paired (log ++ [.returned codec reqId ok])

/-- How often an asynchronous request was taken out of the map. -/
def removals (log : List RequestEvent) (async : AsyncRef) : Nat := log.count (.removed async)

/-- Answers are paired with their requests, nothing is taken out of the map twice, and when no
call is in progress everything put in the map was taken out once. -/
structure PairsAnswers (threads : Threads ι) : Prop where
  paired : Paired threads.shared.log
  atMostOnce : ∀ async, removals threads.shared.log async ≤ 1
  once : threads.Quiescent → ∀ async reqId, .put async reqId ∈ threads.shared.log →
    removals threads.shared.log async = 1

/-- What has to be so when an operation takes its step: the id of a new request is not in the
map; what is decoded for a request that was found can be decoded; and a request whose wait
failed finds its own entry in the map when it takes it out. -/
def Orderly (client : TcpClient) : Operation → Prop
  | .post _ reqId => client.asyncManager.lookup reqId = none
  | .decode _ _ decodes => decodes = true
  | .popFailed _ reqId async => client.asyncManager.lookup reqId = some async
  | _ => True

def OrderlyStep (threads : Threads ι) (choice : Choice ι) : Prop :=
  Interleaving.Meets Orderly threads choice

instance (client : TcpClient) (operation : Operation) : Decidable (client.Orderly operation) :=
  match operation with
  | .post _ _ | .popFailed _ _ _ => inferInstanceAs (Decidable (_ = _))
  | .decode _ _ _ => inferInstanceAs (Decidable (_ = true))
  | .increment _ | .read _ | .wait _ _ _ | .sleep _ _ _ | .popAnswered _ _ | .finish _ =>
      isTrue trivial

instance (threads : Threads ι) (choice : Choice ι) : Decidable (OrderlyStep threads choice) :=
  Interleaving.decidableMeets threads choice

/-! ## Ghost stages -/

/-- What becomes of the codec of a call. -/
inductive Stage (ι : Type) where
  | uncalled
  | unposted (thread : ι)
  | posted (thread : ι) (async : AsyncRef)
  | returned

/-- What becomes of an asynchronous request. -/
inductive Phase (ι : Type) where
  | free
  | stored
  | taken (thread : ι)
  | decoded (thread : ι)
  | finished
  | dropped

/-- The request is in memory, and its call has not returned. -/
def Phase.Active : Phase ι → Prop
  | .stored | .taken _ | .decoded _ => True
  | _ => False

/-- An answer was decoded for the request. -/
def Phase.Answered : Phase ι → Prop
  | .decoded _ | .finished => True
  | _ => False

/-- The request was taken out of the map. -/
def Phase.Removed : Phase ι → Bool
  | .free | .stored => false
  | _ => true

theorem Phase.Active.ne_free {phase : Phase ι} (active : phase.Active) : phase ≠ .free := by
  rintro rfl
  exact active

theorem Phase.Answered.ne_free {phase : Phase ι} (answered : phase.Answered) :
    phase ≠ .free := by
  rintro rfl
  exact answered

structure Ghost (ι : Type) where
  stage : CodecId → Stage ι
  phase : AsyncRef → Phase ι
  reqId : AsyncRef → RequestId

namespace Ghost

/-- The stages say what is in the memory of the client. -/
structure Explains (ghost : Ghost ι) (client : TcpClient) : Prop where
  uncalled : ∀ codec, client.calls ≤ codec → ghost.stage codec = .uncalled
  free : ∀ async, client.fresh ≤ async → ghost.phase async = .free
  known : ∀ async, ghost.phase async ≠ .free →
    (∃ thread, ghost.stage (client.asyncs async).rspCodec = .posted thread async) ∨
      ghost.stage (client.asyncs async).rspCodec = .returned
  single : ∀ first second, ghost.phase first ≠ .free → ghost.phase second ≠ .free →
    (client.asyncs first).rspCodec = (client.asyncs second).rspCodec → first = second
  posted : ∀ codec thread async, ghost.stage codec = .posted thread async →
    (client.asyncs async).rspCodec = codec ∧
      ((ghost.phase async).Active ∨ ghost.phase async = .finished)
  active : ∀ async, (ghost.phase async).Active → client.taskCount async = 1 ∧
    ∃ thread, ghost.stage (client.asyncs async).rspCodec = .posted thread async
  finished : ∀ async, ghost.phase async = .finished → client.taskCount async = 0
  stored : ∀ reqId async, client.asyncManager.lookup reqId = some async ↔
    ghost.phase async = .stored ∧ ghost.reqId async = reqId

/-- The stages say what happened so far. -/
structure Logs (ghost : Ghost ι) (client : TcpClient) : Prop where
  put : ∀ async reqId, .put async reqId ∈ client.log → ghost.phase async ≠ .free
  decoded : ∀ codec reqId ok, .decoded codec reqId ok ∈ client.log →
    ∃ async, (client.asyncs async).rspCodec = codec ∧ (ghost.phase async).Answered
  answered : ∀ async, (ghost.phase async).Answered →
    .decoded (client.asyncs async).rspCodec (ghost.reqId async) true ∈ client.log
  returned : ∀ codec reqId ok, .returned codec reqId ok ∈ client.log →
    ghost.stage codec = .returned
  removed : ∀ async, removals client.log async = if (ghost.phase async).Removed then 1 else 0
  paired : Paired client.log

/-- What a thread knows where it stands: the stages of what is its own. -/
def Stands (ghost : Ghost ι) (thread : ι) : Operation → Prop
  | .increment codec | .read codec | .post codec _ => ghost.stage codec = .unposted thread
  | .wait codec reqId async | .sleep codec reqId async | .popFailed codec reqId async =>
      ghost.stage codec = .posted thread async ∧ ghost.reqId async = reqId
  | .popAnswered _ _ => True
  | .decode async reqId _ => ghost.phase async = .taken thread ∧ ghost.reqId async = reqId
  | .finish async => ghost.phase async = .decoded thread

end Ghost

/-- The codec for whose answer an operation waits. -/
def Operation.waits : Operation → Option CodecId
  | .wait codec _ _ | .sleep codec _ _ | .popFailed codec _ _ => some codec
  | _ => none

/-- The stages explain the client and every thread, and a codec in the map is waited for. -/
structure Ghost.Holds (ghost : Ghost ι) (threads : Threads ι) : Prop where
  explains : ghost.Explains threads.shared
  logs : ghost.Logs threads.shared
  stands : ∀ thread operation, threads.running thread = some operation →
    ghost.Stands thread operation
  waited : ∀ codec thread async, ghost.stage codec = .posted thread async →
    ∃ operation, threads.running thread = some operation ∧ operation.waits = some codec

/-! ## Steps -/

/-- What `post_async` leaves if the id is not in the map. -/
def put (client : TcpClient) (reqId : RequestId) (rspCodec : CodecId) : TcpClient :=
  { client with
    asyncManager := client.asyncManager.insert reqId client.fresh
    asyncs := Function.update client.asyncs client.fresh ⟨rspCodec, 1⟩
    fresh := client.fresh + 1 }.record (.put client.fresh reqId)

theorem postAsync_of_absent {client : TcpClient} {reqId : RequestId}
    (absent : client.asyncManager.lookup reqId = none) (rspCodec : CodecId) :
    client.postAsync reqId rspCodec = (client.fresh, client.put reqId rspCodec) := by
  simp only [postAsync, absent, put]

/-- What `pop_async` leaves if the id is in the map. -/
def taken (client : TcpClient) (reqId : RequestId) (async : AsyncRef) : TcpClient :=
  { client with asyncManager := client.asyncManager.erase reqId }.record (.removed async)

theorem popAsync_of_found {client : TcpClient} {reqId : RequestId} {async : AsyncRef}
    (found : client.asyncManager.lookup reqId = some async) :
    client.popAsync reqId = (some async, client.taken reqId async) := by
  simp only [popAsync, found, taken]

namespace Ghost

variable {ghost after : Ghost ι} {client : TcpClient} {thread other : ι}

theorem Explains.ne_free (explains : ghost.Explains client) {codec : CodecId} {async : AsyncRef}
    (isPosted : ghost.stage codec = .posted thread async) : ghost.phase async ≠ .free := by
  rcases (explains.posted codec thread async isPosted).2 with active | finished
  · exact active.ne_free
  · rw [finished]
    exact nofun

/-- A step that leaves alone the stages and phases that are another thread's leaves that thread
where it stands. -/
theorem Stands.frame {operation : Operation} (stands : ghost.Stands other operation)
    (explains : ghost.Explains client)
    (stages : ∀ codec, ghost.stage codec = .unposted other ∨
      (∃ async, ghost.stage codec = .posted other async) → after.stage codec = ghost.stage codec)
    (phases : ∀ async, ghost.phase async = .taken other ∨ ghost.phase async = .decoded other →
      after.phase async = ghost.phase async)
    (reqIds : ∀ async, ghost.phase async ≠ .free → after.reqId async = ghost.reqId async) :
    after.Stands other operation := by
  have unposted {codec : CodecId} (here : ghost.stage codec = .unposted other) :
      after.stage codec = .unposted other := (stages codec (.inl here)).trans here
  have posted {codec : CodecId} {reqId : RequestId} {async : AsyncRef}
      (here : ghost.stage codec = .posted other async ∧ ghost.reqId async = reqId) :
      after.stage codec = .posted other async ∧ after.reqId async = reqId := by
    refine ⟨(stages codec (.inr ⟨async, here.1⟩)).trans here.1, (reqIds async ?_).trans here.2⟩
    exact explains.ne_free here.1
  cases operation with
  | increment codec => exact unposted stands
  | read codec => exact unposted stands
  | post codec reqId => exact unposted stands
  | wait codec reqId async => exact posted stands
  | sleep codec reqId async => exact posted stands
  | popFailed codec reqId async => exact posted stands
  | popAnswered reqId decodes => trivial
  | decode async reqId decodes =>
      refine ⟨(phases async (.inl stands.1)).trans stands.1, (reqIds async ?_).trans stands.2⟩
      rw [stands.1]
      exact nofun
  | finish async => exact (phases async (.inr stands)).trans stands

@[grind =] theorem finishOne_rspCodec (async found : AsyncRef) :
    ((client.finishOne async).asyncs found).rspCodec = (client.asyncs found).rspCodec := by
  by_cases same : found = async
  · subst same
    simp only [finishOne, Function.update_self]
  · simp only [finishOne, Function.update_of_ne same]

@[grind =] theorem finishOne_taskCount (async found : AsyncRef) :
    (client.finishOne async).taskCount found =
      if found = async then client.taskCount async - 1 else client.taskCount found := by
  by_cases same : found = async
  · subst same
    simp only [finishOne, taskCount, Function.update_self, ↓reduceIte]
  · simp only [finishOne, taskCount, Function.update_of_ne same, same, ↓reduceIte]

/-- The phase of one asynchronous request changes. -/
def setPhase (ghost : Ghost ι) (async : AsyncRef) (phase : Phase ι) : Ghost ι :=
  { ghost with phase := Function.update ghost.phase async phase }

def setStage (ghost : Ghost ι) (codec : CodecId) (stage : Stage ι) : Ghost ι :=
  { ghost with stage := Function.update ghost.stage codec stage }

@[grind =] theorem setPhase_phase (async found : AsyncRef) (phase : Phase ι) :
    (ghost.setPhase async phase).phase found = if found = async then phase else ghost.phase found :=
  Function.update_apply ..

@[grind =] theorem setPhase_stage (async : AsyncRef) (phase : Phase ι) (codec : CodecId) :
    (ghost.setPhase async phase).stage codec = ghost.stage codec := rfl

@[grind =] theorem setPhase_reqId (async found : AsyncRef) (phase : Phase ι) :
    (ghost.setPhase async phase).reqId found = ghost.reqId found := rfl

@[grind =] theorem setStage_stage (codec found : CodecId) (stage : Stage ι) :
    (ghost.setStage codec stage).stage found = if found = codec then stage else ghost.stage found :=
  Function.update_apply ..

@[grind =] theorem setStage_phase (codec : CodecId) (stage : Stage ι) (async : AsyncRef) :
    (ghost.setStage codec stage).phase async = ghost.phase async := rfl

@[grind =] theorem setStage_reqId (codec : CodecId) (stage : Stage ι) (async : AsyncRef) :
    (ghost.setStage codec stage).reqId async = ghost.reqId async := rfl

@[grind =] theorem lookup_erase_eq (manager : AList fun _ : RequestId => AsyncRef)
    (reqId id : RequestId) :
    (manager.erase reqId).lookup id = if id = reqId then none else manager.lookup id := by
  split
  next same => rw [same, AList.lookup_erase]
  next different => exact AList.lookup_erase_ne different

@[grind =] theorem lookup_insert_eq (manager : AList fun _ : RequestId => AsyncRef)
    (reqId id : RequestId) (async : AsyncRef) :
    (manager.insert reqId async).lookup id =
      if id = reqId then some async else manager.lookup id := by
  split
  next same => rw [same, AList.lookup_insert]
  next different => exact AList.lookup_insert_ne different

/-! ### What the steps do to the memory -/

/-- The phase of an asynchronous request changes while its call goes on. -/
theorem Explains.rephase (explains : ghost.Explains client) {after : TcpClient}
    {async : AsyncRef} {phase : Phase ι} (old : (ghost.phase async).Active)
    (calls : after.calls = client.calls) (fresh : after.fresh = client.fresh)
    (codecs : ∀ other, (after.asyncs other).rspCodec = (client.asyncs other).rspCodec)
    (counts : ∀ other, other ≠ async → after.taskCount other = client.taskCount other)
    (now : phase.Active ∧ after.taskCount async = 1 ∨
      phase = .finished ∧ after.taskCount async = 0)
    (stored : ∀ reqId other, after.asyncManager.lookup reqId = some other ↔
      (ghost.setPhase async phase).phase other = .stored ∧ ghost.reqId other = reqId) :
    (ghost.setPhase async phase).Explains after := by
  have used := old.ne_free
  obtain ⟨_, holder, isPosted⟩ := explains.active async old
  constructor
  · exact fun codec bound => explains.uncalled codec (calls ▸ bound)
  · intro other bound
    have := explains.free other
    grind
  · intro other _
    have := explains.known other
    grind
  · intro first second
    have := explains.single first second
    grind
  · intro codec thread other posted
    have := explains.posted codec thread other posted
    grind
  · intro other active
    have := explains.active other
    grind [Phase.Active]
  · intro other finished
    have := explains.finished other
    grind [Phase.Active]
  · exact stored

/-- A call returns: its codec is no longer its own, and its asynchronous request is finished or
dropped. -/
theorem Explains.retire (explains : ghost.Explains client) {after : TcpClient}
    {codec : CodecId} {async : AsyncRef} {phase : Phase ι}
    (isPosted : ghost.stage codec = .posted thread async)
    (calls : after.calls = client.calls) (fresh : after.fresh = client.fresh)
    (asyncs : after.asyncs = client.asyncs)
    (now : phase = .dropped ∨ phase = .finished ∧ client.taskCount async = 0)
    (stored : ∀ reqId other, after.asyncManager.lookup reqId = some other ↔
      (ghost.setPhase async phase).phase other = .stored ∧ ghost.reqId other = reqId) :
    ((ghost.setPhase async phase).setStage codec .returned).Explains after := by
  have used := explains.ne_free isPosted
  obtain ⟨ownCodec, _⟩ := explains.posted codec thread async isPosted
  have below : codec < client.calls := Nat.lt_of_not_le fun bound => by
    have := explains.uncalled codec bound
    grind
  have counts (other : AsyncRef) : after.taskCount other = client.taskCount other := by
    rw [taskCount, taskCount, asyncs]
  constructor
  · intro other bound
    have := explains.uncalled other
    grind
  · intro other bound
    have := explains.free other
    grind [Phase.Active]
  · intro other _
    have := explains.known other
    grind
  · intro first second
    have := explains.single first second
    grind [Phase.Active]
  · intro other holder found posted
    have := explains.posted other holder found
    grind
  · intro other active
    have := explains.active other
    have := explains.single other async
    grind [Phase.Active]
  · intro other finished
    have := explains.finished other
    grind
  · exact stored

/-- A new call of `request`. -/
theorem Explains.call (explains : ghost.Explains client) (thread : ι) :
    (ghost.setStage client.calls (.unposted thread)).Explains
      { client with calls := client.calls + 1 } := by
  have new := explains.uncalled client.calls (Nat.le_refl _)
  constructor
  · intro codec bound
    have := explains.uncalled codec
    grind
  · exact explains.free
  · intro async used
    have := explains.known async
    grind
  · exact explains.single
  · intro codec holder async posted
    have := explains.posted codec holder async
    grind
  · intro async active
    have := explains.active async
    grind [taskCount]
  · exact explains.finished
  · exact explains.stored

/-- The asynchronous request of a call is made and put in the map. -/
def post (ghost : Ghost ι) (thread : ι) (codec : CodecId) (async : AsyncRef)
    (reqId : RequestId) : Ghost ι where
  stage := Function.update ghost.stage codec (.posted thread async)
  phase := Function.update ghost.phase async .stored
  reqId := Function.update ghost.reqId async reqId

section Post

variable {codec : CodecId} {reqId : RequestId} {async : AsyncRef}

@[grind =] theorem post_stage (found : CodecId) :
    (ghost.post thread codec async reqId).stage found =
      if found = codec then .posted thread async else ghost.stage found :=
  Function.update_apply ..

@[grind =] theorem post_phase (found : AsyncRef) :
    (ghost.post thread codec async reqId).phase found =
      if found = async then .stored else ghost.phase found := Function.update_apply ..

@[grind =] theorem post_reqId (found : AsyncRef) :
    (ghost.post thread codec async reqId).reqId found =
      if found = async then reqId else ghost.reqId found := Function.update_apply ..

@[grind =] theorem put_rspCodec (found : AsyncRef) :
    ((client.put reqId codec).asyncs found).rspCodec =
      if found = client.fresh then codec else (client.asyncs found).rspCodec := by
  change (Function.update client.asyncs client.fresh ⟨codec, 1⟩ found).rspCodec = _
  rw [Function.update_apply]
  split <;> rfl

@[grind =] theorem put_taskCount (found : AsyncRef) :
    (client.put reqId codec).taskCount found =
      if found = client.fresh then 1 else client.taskCount found := by
  change (Function.update client.asyncs client.fresh ⟨codec, 1⟩ found).taskCount = _
  rw [Function.update_apply]
  split <;> rfl

theorem Explains.post (explains : ghost.Explains client)
    (absent : client.asyncManager.lookup reqId = none)
    (unposted : ghost.stage codec = .unposted thread) :
    (ghost.post thread codec client.fresh reqId).Explains (client.put reqId codec) := by
  have new := explains.free client.fresh (Nat.le_refl _)
  have below : codec < client.calls := Nat.lt_of_not_le fun bound => by
    have := explains.uncalled codec bound
    grind
  have unused (async : AsyncRef) (used : ghost.phase async ≠ .free) :
      (client.asyncs async).rspCodec ≠ codec := by
    have := explains.known async used
    grind
  constructor
  · intro other bound
    have := explains.uncalled other bound
    grind
  · intro other bound
    have := explains.free other (Nat.le_of_succ_le bound)
    have : other ≠ client.fresh := Nat.ne_of_gt bound
    grind
  · intro other _
    have := explains.known other
    grind
  · intro first second
    have := explains.single first second
    grind
  · intro other holder found posted
    have := explains.posted other holder found
    have : ghost.stage other = .posted holder found → found ≠ client.fresh := fun isPosted same =>
      explains.ne_free isPosted (same ▸ new)
    grind [Phase.Active]
  · intro other isActive
    by_cases same : other = client.fresh
    · subst same
      exact ⟨by grind, thread, by grind⟩
    · have old : (ghost.phase other).Active := by grind
      obtain ⟨count, holder, isPosted⟩ := explains.active other old
      have := unused other old.ne_free
      exact ⟨by grind, holder, by grind⟩
  · intro other finished
    have := explains.finished other
    grind
  · intro id other
    have := explains.stored id other
    have := explains.stored reqId other
    rw [put, record_asyncManager, lookup_insert_eq]
    grind

end Post

/-! ### What the steps do to the history -/

section Logs

variable {codec : CodecId} {reqId : RequestId} {async : AsyncRef}

theorem removals_append (log : List RequestEvent) (event : RequestEvent) (async : AsyncRef) :
    removals (log ++ [event]) async =
      removals log async + if event = .removed async then 1 else 0 := by
  rw [removals, List.count_append, List.count_singleton]
  simp only [beq_iff_eq, removals]

/-- A codec that was decoded into stays the codec of an answered request. -/
theorem Logs.decoded_of_kept (logs : ghost.Logs client) {next : TcpClient} {ok : Bool}
    (before : .decoded codec reqId ok ∈ client.log)
    (kept : ∀ async, (ghost.phase async).Answered → (after.phase async).Answered ∧
      (next.asyncs async).rspCodec = (client.asyncs async).rspCodec) :
    ∃ async, (next.asyncs async).rspCodec = codec ∧ (after.phase async).Answered := by
  obtain ⟨async, sameCodec, answered⟩ := logs.decoded codec reqId ok before
  obtain ⟨stillAnswered, stillCodec⟩ := kept async answered
  exact ⟨async, stillCodec.trans sameCodec, stillAnswered⟩

/-- A new call of `request`. -/
theorem Logs.call (logs : ghost.Logs client) (explains : ghost.Explains client) (thread : ι) :
    (ghost.setStage client.calls (.unposted thread)).Logs
      { client with calls := client.calls + 1 } := by
  have new := explains.uncalled client.calls (Nat.le_refl _)
  constructor
  · exact logs.put
  · exact logs.decoded
  · exact logs.answered
  · intro codec reqId ok event
    have := logs.returned codec reqId ok event
    grind
  · exact logs.removed
  · exact logs.paired

/-- The asynchronous request of a call is put in the map. -/
theorem Logs.post (logs : ghost.Logs client) (explains : ghost.Explains client)
    (unposted : ghost.stage codec = .unposted thread) :
    (ghost.post thread codec client.fresh reqId).Logs (client.put reqId codec) := by
  have new := explains.free client.fresh (Nat.le_refl _)
  have log : (client.put reqId codec).log = client.log ++ [.put client.fresh reqId] := rfl
  constructor
  · intro async id event
    have := logs.put async id
    grind
  · intro other id ok event
    have before : .decoded other id ok ∈ client.log := by grind
    refine logs.decoded_of_kept before fun async answered => ?_
    grind [Phase.Answered]
  · intro async answered
    have := logs.answered async
    grind [Phase.Answered]
  · intro other id ok event
    have := logs.returned other id ok
    grind
  · intro async
    have := logs.removed async
    rw [log, removals_append]
    grind [Phase.Removed]
  · exact .put logs.paired _ _

/-- An asynchronous request is taken out of the map. -/
theorem Logs.take (logs : ghost.Logs client) (stored : ghost.phase async = .stored)
    {phase : Phase ι} (removed : phase.Removed) (unanswered : ¬ phase.Answered) :
    (ghost.setPhase async phase).Logs (client.taken reqId async) := by
  have log : (client.taken reqId async).log = client.log ++ [.removed async] := rfl
  have asyncs : (client.taken reqId async).asyncs = client.asyncs := rfl
  constructor
  · intro other id event
    have := logs.put other id
    grind [Phase.Removed]
  · intro other id ok event
    have before : .decoded other id ok ∈ client.log := by grind
    refine logs.decoded_of_kept before fun found answered => ?_
    grind [Phase.Answered]
  · intro other answered
    have := logs.answered other
    grind
  · intro other id ok event
    have := logs.returned other id ok
    grind
  · intro other
    have := logs.removed other
    rw [log, removals_append]
    grind [Phase.Removed]
  · exact .removed logs.paired async

/-- An answer is decoded for an asynchronous request that was taken out of the map. -/
theorem Logs.decode (logs : ghost.Logs client) (explains : ghost.Explains client)
    (isTaken : ghost.phase async = .taken thread) :
    (ghost.setPhase async (.decoded thread)).Logs
      (client.decode async (ghost.reqId async) true) := by
  have log : (client.decode async (ghost.reqId async) true).log =
    client.log ++ [.decoded (client.asyncs async).rspCodec (ghost.reqId async) true] := rfl
  have asyncs : (client.decode async (ghost.reqId async) true).asyncs = client.asyncs := rfl
  constructor
  · intro other id event
    have := logs.put other id
    grind
  · intro other id ok event
    by_cases before : .decoded other id ok ∈ client.log
    · refine logs.decoded_of_kept before fun found answered => ?_
      grind [Phase.Answered]
    · exact ⟨async, by grind, by grind [Phase.Answered]⟩
  · intro other answered
    have := logs.answered other
    grind
  · intro other id ok event
    have := logs.returned other id ok
    grind
  · intro other
    have := logs.removed other
    rw [log, removals_append]
    grind [Phase.Removed]
  · refine .decoded logs.paired _ _ true fun id result event => ?_
    have active : (ghost.phase async).Active := by
      rw [isTaken]
      trivial
    obtain ⟨_, holder, isPosted⟩ := explains.active async active
    rw [logs.returned _ id result event] at isPosted
    cases isPosted

/-- `finish_one` changes nothing that was recorded. -/
theorem Logs.finish (logs : ghost.Logs client) (isDecoded : ghost.phase async = .decoded thread) :
    (ghost.setPhase async .finished).Logs (client.finishOne async) := by
  have log : (client.finishOne async).log = client.log := rfl
  constructor
  · intro other id event
    have := logs.put other id
    grind
  · intro other id ok event
    have before : .decoded other id ok ∈ client.log := by grind
    refine logs.decoded_of_kept before fun found answered => ?_
    grind [Phase.Answered]
  · intro other answered
    have := logs.answered other
    grind [Phase.Answered]
  · intro other id ok event
    have := logs.returned other id ok
    grind
  · intro other
    have := logs.removed other
    grind [Phase.Removed]
  · exact logs.paired

/-- A call returns, successfully if and only if its answer was decoded. -/
theorem Logs.retire (logs : ghost.Logs client) (ownCodec : (client.asyncs async).rspCodec = codec)
    (single : ∀ other, (ghost.phase other).Answered → (client.asyncs other).rspCodec = codec →
      other = async)
    {ok : Bool} (exact : ok = true ↔ (ghost.phase async).Answered) :
    (ghost.setStage codec .returned).Logs
      (client.record (.returned codec (ghost.reqId async) ok)) := by
  constructor
  · intro other id event
    have := logs.put other id
    grind
  · intro other id ok event
    have before : .decoded other id ok ∈ client.log := by grind
    exact logs.decoded_of_kept before fun found answered => ⟨answered, rfl⟩
  · intro other answered
    have := logs.answered other
    grind
  · intro other id ok event
    have := logs.returned other id ok
    grind
  · intro other
    have := logs.removed other
    rw [record_log, removals_append]
    grind
  · refine .returned logs.paired codec _ ok (exact.trans ⟨fun answered => ?_, fun event => ?_⟩)
    · rw [← ownCodec]
      exact logs.answered async answered
    · obtain ⟨other, sameCodec, answered⟩ := logs.decoded codec _ true event
      rwa [← single other answered sameCodec]

end Logs

/-! ### Every step -/

section Step

variable {threads : Threads ι}

theorem setPhase_self (async : AsyncRef) : ghost.setPhase async (ghost.phase async) = ghost := by
  rw [setPhase, Function.update_eq_self]

/-- A thread waits for the codec of the call it is in, and for no other. -/
theorem Holds.waits_of_posted (holds : ghost.Holds threads) {operation : Operation}
    (running : threads.running thread = some operation) {codec : CodecId} {async : AsyncRef}
    (isPosted : ghost.stage codec = .posted thread async) : operation.waits = some codec := by
  obtain ⟨found, here, waits⟩ := holds.waited codec thread async isPosted
  rw [running] at here
  cases here
  exact waits

variable [DecidableEq ι]

/-- A step leaves every other thread where it stands, and a codec that is waited for is waited
for by the same thread as before or by the one that moves. -/
theorem Holds.move (holds : ghost.Holds threads) {result : TcpClient × Option Operation}
    (explains : after.Explains result.1) (logs : after.Logs result.1)
    (own : ∀ operation, result.2 = some operation → after.Stands thread operation)
    (stages : ∀ other codec, other ≠ thread → ghost.stage codec = .unposted other ∨
      (∃ async, ghost.stage codec = .posted other async) → after.stage codec = ghost.stage codec)
    (phases : ∀ other async, other ≠ thread →
      ghost.phase async = .taken other ∨ ghost.phase async = .decoded other →
      after.phase async = ghost.phase async)
    (reqIds : ∀ async, ghost.phase async ≠ .free → after.reqId async = ghost.reqId async)
    (waited : ∀ codec other async, after.stage codec = .posted other async →
      other ≠ thread ∧ ghost.stage codec = .posted other async ∨
      other = thread ∧ ∃ operation, result.2 = some operation ∧ operation.waits = some codec) :
    after.Holds (threads.move thread result) where
  explains := explains
  logs := logs
  stands := by
    intro other operation running
    rcases Interleaving.Threads.move_running_iff.mp running with ⟨rfl, now⟩ | ⟨different, before⟩
    · exact own operation now
    · exact (holds.stands other operation before).frame holds.explains
        (stages other · different) (phases other · different) reqIds
  waited := by
    intro codec other async isPosted
    rcases waited codec other async isPosted with
      ⟨different, before⟩ | ⟨rfl, operation, now, waits⟩
    · obtain ⟨operation, running, waits⟩ := holds.waited codec other async before
      exact ⟨operation, by rwa [Interleaving.Threads.move_running_of_ne _ _ different], waits⟩
    · exact ⟨operation, by rwa [Interleaving.Threads.move_running_self], waits⟩

/-- A step that changes no stage. -/
theorem Holds.stay (holds : ghost.Holds threads) {operation : Operation}
    (running : threads.running thread = some operation)
    {result : TcpClient × Option Operation} (explains : ghost.Explains result.1)
    (logs : ghost.Logs result.1)
    (own : ∀ next, result.2 = some next → ghost.Stands thread next)
    (waits : ∀ codec, operation.waits = some codec →
      ∃ next, result.2 = some next ∧ next.waits = some codec) :
    ghost.Holds (threads.move thread result) := by
  refine holds.move explains logs own (fun _ _ _ _ => rfl) (fun _ _ _ _ => rfl)
    (fun _ _ => rfl) fun codec other async isPosted => ?_
  by_cases same : other = thread
  · subst same
    exact .inr ⟨rfl, waits codec (holds.waits_of_posted running isPosted)⟩
  · exact .inl ⟨same, isPosted⟩

/-- The dispatcher moves an asynchronous request on. -/
theorem Holds.rephase (holds : ghost.Holds threads) {operation : Operation}
    (running : threads.running thread = some operation) (waits : operation.waits = none)
    {async : AsyncRef} {phase : Phase ι} {result : TcpClient × Option Operation}
    (explains : (ghost.setPhase async phase).Explains result.1)
    (logs : (ghost.setPhase async phase).Logs result.1)
    (own : ∀ next, result.2 = some next → (ghost.setPhase async phase).Stands thread next)
    (mine : ∀ other, other ≠ thread →
      ghost.phase async ≠ .taken other ∧ ghost.phase async ≠ .decoded other) :
    (ghost.setPhase async phase).Holds (threads.move thread result) := by
  refine holds.move explains logs own (fun _ _ _ _ => rfl) ?_ (fun _ _ => rfl)
    fun codec other found isPosted => ?_
  · intro other found different here
    have := mine other different
    grind
  · refine .inl ⟨?_, isPosted⟩
    rintro rfl
    have := holds.waits_of_posted running isPosted
    rw [waits] at this
    cases this

/-- A call of `request` returns. -/
theorem Holds.retire (holds : ghost.Holds threads) {operation : Operation}
    (running : threads.running thread = some operation) {codec : CodecId} {async : AsyncRef}
    {phase : Phase ι} {client : TcpClient}
    (isPosted : ghost.stage codec = .posted thread async)
    (explains : ((ghost.setPhase async phase).setStage codec .returned).Explains client)
    (logs : ((ghost.setPhase async phase).setStage codec .returned).Logs client)
    (mine : ∀ other, ghost.phase async ≠ .taken other ∧ ghost.phase async ≠ .decoded other) :
    ((ghost.setPhase async phase).setStage codec .returned).Holds
      (threads.move thread (client, none)) := by
  refine holds.move explains logs nofun ?_ ?_ (fun _ _ => rfl) fun other holder found posted => ?_
  · intro other found different here
    grind
  · intro other found different here
    have := mine other
    grind
  · have different : other ≠ codec := by grind
    have before : ghost.stage other = .posted holder found := by grind
    refine .inl ⟨?_, before⟩
    rintro rfl
    have first := holds.waits_of_posted running before
    rw [holds.waits_of_posted running isPosted] at first
    exact different (Option.some.inj first).symm

/-- A wait ends. It is successful only if no task is left, which is so once the answer was
decoded. -/
theorem Holds.waitEnds (holds : ghost.Holds threads) {operation : Operation}
    (running : threads.running thread = some operation) {codec : CodecId} {reqId : RequestId}
    {async : AsyncRef} (isPosted : ghost.stage codec = .posted thread async)
    (ownId : ghost.reqId async = reqId) {ok : Bool}
    (done : ok = true → threads.shared.taskCount async = 0) :
    ∃ after : Ghost ι, after.Holds (threads.move thread
      (threads.shared.waited codec reqId async ok)) := by
  have ownCodec := (holds.explains.posted codec thread async isPosted).1
  cases ok with
  | false =>
      refine ⟨ghost, holds.stay running holds.explains holds.logs ?_ ?_⟩
      · rintro _ ⟨⟩
        exact ⟨isPosted, ownId⟩
      · intro other waits
        refine ⟨_, rfl, ?_⟩
        rwa [holds.waits_of_posted running isPosted] at waits
  | true =>
      have finished : ghost.phase async = .finished := by
        refine (holds.explains.posted codec thread async isPosted).2.resolve_left fun active => ?_
        have one := (holds.explains.active async active).1
        rw [done rfl] at one
        cases one
      refine ⟨(ghost.setPhase async .finished).setStage codec .returned,
        holds.retire running isPosted ?_ ?_ ?_⟩
      · refine holds.explains.retire isPosted rfl rfl rfl (.inr ⟨rfl, done rfl⟩) fun id other => ?_
        rw [← finished, setPhase_self]
        exact holds.explains.stored id other
      · rw [← finished, setPhase_self, ← ownId]
        refine holds.logs.retire ownCodec (fun other answered same => ?_) (iff_of_true rfl ?_)
        · exact holds.explains.single other async answered.ne_free
            (holds.explains.ne_free isPosted) (same.trans ownCodec.symm)
        · rw [finished]
          trivial
      · rw [finished]
        exact fun other => ⟨nofun, nofun⟩

/-- The entry of a call whose wait failed is still there when the call takes it out. -/
theorem Holds.popFailed (holds : ghost.Holds threads) {codec : CodecId} {reqId : RequestId}
    {async : AsyncRef} (running : threads.running thread = some (.popFailed codec reqId async))
    (found : threads.shared.asyncManager.lookup reqId = some async) :
    ∃ after : Ghost ι, after.Holds (threads.move thread
      ((threads.shared.taken reqId async).record (.returned codec reqId false), none)) := by
  obtain ⟨isPosted, ownId⟩ := holds.stands thread _ running
  have ownCodec := (holds.explains.posted codec thread async isPosted).1
  have stored := ((holds.explains.stored reqId async).mp found).1
  refine ⟨(ghost.setPhase async .dropped).setStage codec .returned,
    holds.retire running isPosted ?_ ?_ ?_⟩
  · refine holds.explains.retire isPosted rfl rfl rfl (.inl rfl) fun id other => ?_
    have := holds.explains.stored id other
    have := holds.explains.stored reqId async
    rw [record_asyncManager, taken, record_asyncManager]
    grind
  · rw [← ownId]
    refine (holds.logs.take stored rfl id).retire ownCodec (fun other answered same => ?_)
      (iff_of_false nofun ?_)
    · rw [setPhase_phase] at answered
      split at answered
      · assumption
      · exact holds.explains.single other async answered.ne_free
          (holds.explains.ne_free isPosted) (same.trans ownCodec.symm)
    · grind [Phase.Answered]
  · rw [stored]
    exact fun other => ⟨nofun, nofun⟩

/-- An asynchronous request in the map is taken out for the answer with its id. -/
theorem Holds.popAnswered (holds : ghost.Holds threads) {reqId : RequestId} {decodes : Bool}
    {async : AsyncRef} (running : threads.running thread = some (.popAnswered reqId decodes))
    (found : threads.shared.asyncManager.lookup reqId = some async) :
    ∃ after : Ghost ι, after.Holds (threads.move thread
      (threads.shared.taken reqId async, some (.decode async reqId decodes))) := by
  obtain ⟨stored, ownId⟩ := (holds.explains.stored reqId async).mp found
  have active : (ghost.phase async).Active := by
    rw [stored]
    trivial
  refine ⟨ghost.setPhase async (.taken thread), holds.rephase running rfl ?_
    (holds.logs.take stored rfl id) ?_ ?_⟩
  · refine holds.explains.rephase active rfl rfl (fun _ => rfl) (fun _ _ => rfl)
      (.inl ⟨trivial, (holds.explains.active async active).1⟩) fun id other => ?_
    have := holds.explains.stored id other
    rw [taken, record_asyncManager]
    grind
  · rintro _ ⟨⟩
    exact ⟨by grind, ownId⟩
  · rw [stored]
    exact fun other _ => ⟨nofun, nofun⟩

theorem Holds.decode (holds : ghost.Holds threads) {reqId : RequestId} {async : AsyncRef}
    (running : threads.running thread = some (.decode async reqId true)) :
    ∃ after : Ghost ι, after.Holds (threads.move thread
      (threads.shared.decode async reqId true, some (.finish async))) := by
  obtain ⟨isTaken, ownId⟩ := holds.stands thread _ running
  have active : (ghost.phase async).Active := by
    rw [isTaken]
    trivial
  refine ⟨ghost.setPhase async (.decoded thread), holds.rephase running rfl ?_ ?_ ?_ ?_⟩
  · refine holds.explains.rephase active rfl rfl (fun _ => rfl) (fun _ _ => rfl)
      (.inl ⟨trivial, (holds.explains.active async active).1⟩) fun id other => ?_
    have := holds.explains.stored id other
    grind [TcpClient.decode]
  · rw [← ownId]
    exact holds.logs.decode holds.explains isTaken
  · rintro _ ⟨⟩
    change (ghost.setPhase async (.decoded thread)).phase async = _
    rw [setPhase_phase, if_pos rfl]
  · rw [isTaken]
    refine fun other different => ⟨?_, nofun⟩
    rintro ⟨⟩
    exact different rfl

theorem Holds.finish (holds : ghost.Holds threads) {async : AsyncRef}
    (running : threads.running thread = some (.finish async)) :
    ∃ after : Ghost ι, after.Holds (threads.move thread
      (threads.shared.finishOne async, none)) := by
  have isDecoded : ghost.phase async = .decoded thread := holds.stands thread _ running
  have active : (ghost.phase async).Active := by
    rw [isDecoded]
    trivial
  refine ⟨ghost.setPhase async .finished, holds.rephase running rfl ?_
    (holds.logs.finish isDecoded) nofun ?_⟩
  · have one := (holds.explains.active async active).1
    refine holds.explains.rephase active rfl rfl (fun _ => by rw [finishOne_rspCodec])
      (fun other different => by rw [finishOne_taskCount, if_neg different])
      (.inr ⟨rfl, by rw [finishOne_taskCount, if_pos rfl, one]; rfl⟩) fun id other => ?_
    have := holds.explains.stored id other
    change threads.shared.asyncManager.lookup id = some other ↔ _
    grind
  · rw [isDecoded]
    refine fun other different => ⟨nofun, ?_⟩
    rintro ⟨⟩
    exact different rfl

theorem Holds.post (holds : ghost.Holds threads) {codec : CodecId} {reqId : RequestId}
    (running : threads.running thread = some (.post codec reqId))
    (absent : threads.shared.asyncManager.lookup reqId = none) :
    ∃ after : Ghost ι, after.Holds (threads.move thread
      (threads.shared.put reqId codec, some (.wait codec reqId threads.shared.fresh))) := by
  have unposted : ghost.stage codec = .unposted thread := holds.stands thread _ running
  have new := holds.explains.free threads.shared.fresh (Nat.le_refl _)
  refine ⟨ghost.post thread codec threads.shared.fresh reqId, holds.move
    (holds.explains.post absent unposted) (holds.logs.post holds.explains unposted)
    ?_ ?_ ?_ ?_ ?_⟩
  · rintro _ ⟨⟩
    exact ⟨by grind, by grind⟩
  · intro other found different here
    grind
  · intro other found different here
    grind
  · intro found used
    grind
  · intro found other async isPosted
    by_cases own : found = codec
    · exact .inr ⟨by grind, _, rfl, by rw [own]; rfl⟩
    · refine .inl ⟨?_, by grind⟩
      rintro rfl
      have before : ghost.stage found = .posted other async := by grind
      cases holds.waits_of_posted running before

/-- **One step.** A step that is orderly leaves every thread where the stages say. -/
theorem Holds.advance (holds : ghost.Holds threads) {operation : Operation}
    (running : threads.running thread = some operation)
    (orderly : threads.shared.Orderly operation) (input : Input) :
    ∃ after : Ghost ι, after.Holds (threads.move thread
      (threads.shared.advance input operation)) := by
  have stands := holds.stands thread operation running
  cases operation with
  | increment codec =>
      refine ⟨ghost, holds.stay running { holds.explains with } { holds.logs with } ?_ nofun⟩
      rintro _ ⟨⟩
      exact stands
  | read codec =>
      refine ⟨ghost, holds.stay running holds.explains holds.logs ?_ nofun⟩
      rintro _ ⟨⟩
      exact stands
  | post codec reqId =>
      have step : threads.shared.advance input (.post codec reqId) =
          (threads.shared.put reqId codec, some (.wait codec reqId threads.shared.fresh)) := by
        simp only [TcpClient.advance, postAsync_of_absent orderly]
      rw [step]
      exact holds.post running orderly
  | wait codec reqId async =>
      rw [TcpClient.advance]
      split
      · refine ⟨ghost, holds.stay running holds.explains holds.logs ?_ ?_⟩
        · rintro _ ⟨⟩
          exact stands
        · exact fun other waits => ⟨_, rfl, waits⟩
      · exact holds.waitEnds running stands.1 stands.2 beq_iff_eq.mp
  | sleep codec reqId async =>
      cases input with
      | timesOut => exact holds.waitEnds running stands.1 stands.2 nofun
      | goesOn => exact holds.waitEnds running stands.1 stands.2 beq_iff_eq.mp
  | popFailed codec reqId async =>
      have step : threads.shared.advance input (.popFailed codec reqId async) =
          ((threads.shared.taken reqId async).record (.returned codec reqId false), none) := by
        simp only [TcpClient.advance, popAsync_of_found orderly]
      rw [step]
      exact holds.popFailed running orderly
  | popAnswered reqId decodes =>
      cases found : threads.shared.asyncManager.lookup reqId with
      | none =>
          have step : threads.shared.advance input (.popAnswered reqId decodes) =
              (threads.shared, none) := by
            simp only [TcpClient.advance, popAsync, found]
          rw [step]
          exact ⟨ghost, holds.stay running holds.explains holds.logs nofun nofun⟩
      | some async =>
          have step : threads.shared.advance input (.popAnswered reqId decodes) =
              (threads.shared.taken reqId async, some (.decode async reqId decodes)) := by
            simp only [TcpClient.advance, popAsync_of_found found]
          rw [step]
          exact holds.popAnswered running found
  | decode async reqId decodes =>
      obtain rfl : decodes = true := orderly
      exact holds.decode running
  | finish async => exact holds.finish running

/-- A thread makes a call. -/
theorem Holds.enter (holds : ghost.Holds threads) (idle : threads.running thread = none)
    (call : Call) : ∃ after : Ghost ι, after.Holds (threads.move thread
      ((threads.shared.enter call).1, some (threads.shared.enter call).2)) := by
  have others {codec : CodecId} {other : ι} {async : AsyncRef}
      (isPosted : ghost.stage codec = .posted other async) : other ≠ thread := by
    rintro rfl
    obtain ⟨operation, running, _⟩ := holds.waited codec other async isPosted
    rw [idle] at running
    cases running
  cases call with
  | request =>
      have new := holds.explains.uncalled threads.shared.calls (Nat.le_refl _)
      refine ⟨ghost.setStage threads.shared.calls (.unposted thread), holds.move
        (holds.explains.call thread) (holds.logs.call holds.explains thread) ?_ ?_
        (fun _ _ _ _ => rfl) (fun _ _ => rfl) ?_⟩
      · rintro _ ⟨⟩
        change (ghost.setStage threads.shared.calls (.unposted thread)).stage _ = _
        rw [setStage_stage, if_pos rfl]
      · intro other codec different here
        grind
      · intro codec other async isPosted
        have before : ghost.stage codec = .posted other async := by grind
        exact .inl ⟨others before, before⟩
  | answer reqId decodes =>
      refine ⟨ghost, holds.move holds.explains holds.logs ?_ (fun _ _ _ _ => rfl)
        (fun _ _ _ _ => rfl) (fun _ _ => rfl) fun codec other async isPosted =>
          .inl ⟨others isPosted, isPosted⟩⟩
      rintro _ ⟨⟩
      trivial

end Step

/-- Nothing has happened. -/
def start : Ghost ι := ⟨fun _ => .uncalled, fun _ => .free, fun _ => 0⟩

theorem start_holds : (start : Ghost ι).Holds (Interleaving.Threads.idle TcpClient.start) where
  explains := by
    constructor
    · exact fun _ _ => rfl
    · exact fun _ _ => rfl
    · exact fun _ used => absurd rfl used
    · exact fun _ _ used => absurd rfl used
    · exact nofun
    · exact nofun
    · exact nofun
    · exact fun _ _ => ⟨nofun, nofun⟩
  logs := ⟨nofun, nofun, nofun, nofun, fun _ => rfl, .nil⟩
  stands := nofun
  waited := nofun

theorem Holds.pairsAnswers {ghost : Ghost ι} {threads : Threads ι} (holds : ghost.Holds threads) :
    PairsAnswers threads where
  paired := holds.logs.paired
  atMostOnce async := by
    rw [holds.logs.removed async]
    split <;> decide
  once quiescent async reqId event := by
    have used := holds.logs.put async reqId event
    have inactive : ¬ (ghost.phase async).Active := fun active => by
      obtain ⟨_, thread, isPosted⟩ := holds.explains.active async active
      obtain ⟨operation, running, _⟩ := holds.waited _ thread async isPosted
      rw [quiescent thread] at running
      cases running
    have removed : (ghost.phase async).Removed = true := by grind [Phase.Active, Phase.Removed]
    rw [holds.logs.removed async, if_pos removed]

end Ghost

/-! ## Every interleaving -/

section Runs

variable [DecidableEq ι]

theorem Ghost.Holds.step {ghost : Ghost ι} {threads : Threads ι} (holds : ghost.Holds threads)
    {choice : Choice ι} (orderly : OrderlyStep threads choice) :
    ∃ after : Ghost ι, after.Holds ((program ι).step threads choice) := by
  rcases (program ι).step_cases threads choice with
    ⟨unchanged, _⟩ | ⟨thread, call, rfl, idle⟩ | ⟨thread, input, operation, rfl, running⟩
  · exact ⟨ghost, unchanged.symm ▸ holds⟩
  · rw [Interleaving.Program.step_call idle]
    exact holds.enter idle call
  · rw [Interleaving.Program.step_advance running]
    exact holds.advance running (orderly thread input operation rfl running) input

/-- **Requests and answers.** In every interleaving whose steps are orderly, a request returns
success exactly if its answer was decoded into its codec, no codec is written once its request
has returned, and everything put in the map is taken out once. -/
theorem answers_paired (choices : List (Choice ι))
    (orderly : Run.Steps (program ι).step OrderlyStep (.idle start) choices) :
    Run.Always (program ι).step PairsAnswers (fun _ _ => True) (.idle start) choices :=
  Run.always_of_steps (fun threads => ∃ ghost : Ghost ι, ghost.Holds threads)
    (fun _ ⟨_, holds⟩ => holds.pairsAnswers)
    (fun _ _ ⟨_, holds⟩ good => ⟨trivial, holds.step good⟩)
    ⟨Ghost.start, Ghost.start_holds⟩ orderly

end Runs

/-- Threads 0 and 1 make a request each, the dispatcher answers the second one first, and the
first request runs out of time; its answer comes when it has returned. -/
def oneAnswered : List (Choice Nat) :=
  [.call 0 .request, .advance 0 .goesOn, .advance 0 .goesOn, .call 1 .request,
    .advance 1 .goesOn, .advance 1 .goesOn, .advance 0 .goesOn, .advance 1 .goesOn,
    .advance 0 .goesOn, .advance 1 .goesOn, .call 2 (.answer 2 true), .advance 2 .goesOn,
    .advance 0 .timesOut, .advance 2 .goesOn, .advance 2 .goesOn, .advance 1 .goesOn,
    .advance 0 .goesOn, .call 2 (.answer 1 true), .advance 2 .goesOn]

theorem answers_paired_oneAnswered :
    Run.Always (program Nat).step PairsAnswers (fun _ _ => True) (.idle start) oneAnswered :=
  answers_paired oneAnswered (by decide)

theorem Paired.waiting {log : List RequestEvent} {codec : CodecId} {reqId : RequestId} {ok : Bool}
    (paired : Paired (log ++ [.decoded codec reqId ok])) (id : RequestId) (result : Bool) :
    .returned codec id result ∉ log := by
  generalize split : log ++ [.decoded codec reqId ok] = whole at paired
  cases paired with
  | nil => exact absurd (List.append_eq_nil_iff.mp split).2 (List.cons_ne_nil _ _)
  | put _ async other => cases (List.append_inj' split rfl).2
  | removed _ async => cases (List.append_inj' split rfl).2
  | decoded _ other otherId otherOk waiting =>
      obtain ⟨rfl, same⟩ := List.append_inj' split rfl
      cases same
      exact waiting id result
  | returned _ other otherId otherOk _ => cases (List.append_inj' split rfl).2

/-- The dispatcher takes the request of thread 0 out of the map, the time of thread 0 is up and
its request returns, and then the dispatcher decodes the answer. -/
def decodedLate : List (Choice Bool) :=
  [.call false .request, .advance false .goesOn, .advance false .goesOn, .advance false .goesOn,
    .advance false .goesOn, .call true (.answer 1 true), .advance true .goesOn,
    .advance false .timesOut, .advance false .goesOn, .advance true .goesOn]

/-- The codec of a request that has returned is written. -/
theorem answers_not_paired :
    ¬ Run.Always (program Bool).step PairsAnswers (fun _ _ => True) (.idle start)
      decodedLate := by
  intro always
  have paired := always.final.paired
  have log : (Run.final (program Bool).step (.idle start) decodedLate).shared.log =
      [.put 0 1, .removed 0, .returned 0 1 false] ++ [.decoded 0 1 true] := by decide
  rw [log] at paired
  exact paired.waiting 1 false (by decide)

end Cube.Eco.Net.TcpClient
