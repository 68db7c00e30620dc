import Mathlib.Data.List.Nodup
import Cube.Eco.Thread.Timer

/-! # Cancelled timers

A timer that is not repeated is silent once it was cancelled and its completion was processed. The
handler of a repeated timer arms the next wait also when it was aborted, and that wait is one of a
timer that the object does not know.
-/

namespace Cube.Eco.Timer

open State

/-- How often the task of a call was invoked. -/
def State.count (s : State) (call : Nat) : Nat :=
  (s.invocations.filter fun invocation => decide (invocation.call = call)).length

/-- From here on the task of a call is not invoked and no wait is armed for it. -/
def Silent (s : State) (call : Nat) : Prop :=
  ∀ actions, ¬ (Run.final step s actions).Armed call ∧
    (Run.final step s actions).invocations.filter (fun invocation => decide (invocation.call = call)) =
      s.invocations.filter fun invocation => decide (invocation.call = call)

/-- The calls that were cancelled and settled are silent, and the tasks that are not repeated were
invoked at most once. -/
def Silences (s : State) : Prop :=
  ∀ (call : Nat) (found : Call), s.calls[call]? = some found →
    (found.settled = true → Silent s call) ∧ (found.repeated = false → s.count call ≤ 1)

/-! ## What a step does -/

/-- A call is new, and a wait for it is armed. -/
structure Added (s s' : State) : Prop where
  waits : ∃ wait, s'.waits = s.waits ++ [wait] ∧ wait.call = s.calls.length ∧
    ∃ found, s'.calls = s.calls ++ [found] ∧ found.repeated = wait.repeated ∧
      found.settled = false
  invocations : s'.invocations = s.invocations

/-- Only the objects and the states of the waits are changed. What is settled now was settled, or
no wait for it is armed. -/
structure Marked (s s' : State) : Prop where
  waits : s'.waits.map (fun wait => (wait.call, wait.repeated)) =
    s.waits.map fun wait => (wait.call, wait.repeated)
  invocations : s'.invocations = s.invocations
  calls : s'.calls.length = s.calls.length ∧ ∀ call found', s'.calls[call]? = some found' →
    ∃ found, s.calls[call]? = some found ∧ found.repeated = found'.repeated ∧
      (found'.settled = true → found.settled = true ∨ ¬ s.Armed call)

/-- The wait of a call is taken out, its task is invoked at most once, and the next wait is armed if
it is repeated. -/
structure Completed (s s' : State) (wait : Wait) : Prop where
  waits : ∃ front back, s.waits = front ++ wait :: back ∧
    (wait.repeated = false ∧ s'.waits = front ++ back ∨
      wait.repeated = true ∧ ∃ next, s'.waits = front ++ back ++ [next] ∧ next.call = wait.call ∧
        next.repeated = true)
  invocations : s'.invocations = s.invocations ++ invoked wait
  calls : s'.calls = s.calls.modify wait.call fun found =>
    { found with settled := found.settled || found.cancelled }

theorem marked_refl (s : State) : Marked s s where
  waits := rfl
  invocations := rfl
  calls := ⟨rfl, fun _ found' is => ⟨found', is, rfl, .inl⟩⟩

theorem waits_abort (s : State) (timer : Nat) :
    (s.abort timer).waits.map (fun wait => (wait.call, wait.repeated)) =
      s.waits.map fun wait => (wait.call, wait.repeated) := by
  rw [abort, List.map_map]
  apply List.map_congr_left
  intro wait _
  by_cases waiting : wait.timer = timer ∧ wait.status = .waiting
  · simp only [Function.comp_apply, if_pos waiting]
  · simp only [Function.comp_apply, if_neg waiting]

theorem marked_cancel (s : State) (call : Nat) : Marked s (s.cancel call) := by
  cases is : s.calls[call]? with
  | none =>
      rw [cancel, is]
      exact marked_refl s
  | some found =>
      have calls : (s.cancel call).calls = s.calls.modify call fun found =>
          { found with
            cancelled := true
            settled := found.settled || !decide (s.Armed call) } := by
        rw [cancel, is]
      constructor
      · rw [cancel, is]
        cases object : found.object with
        | none => simp only [object]
        | some timer =>
            simp only [object]
            exact waits_abort s timer
      · rw [cancel, is]
        cases object : found.object with
        | none => simp only [object]
        | some timer =>
            simp only [object]
            rfl
      · refine ⟨by rw [calls, List.length_modify], ?_⟩
        intro other found' is'
        rw [calls, List.getElem?_modify] at is'
        by_cases same : call = other
        · subst same
          rw [is] at is'
          simp only [if_true, Option.map_eq_map, Option.map_some, Option.some.injEq] at is'
          subst is'
          refine ⟨found, is, rfl, fun settled => ?_⟩
          simpa only [Bool.or_eq_true, Bool.not_eq_true', decide_eq_false_iff_not] using settled
        · simp only [if_neg same, Option.map_eq_map, Option.map_id_fun', id_eq] at is'
          exact ⟨found', is', rfl, .inl⟩

theorem marked_release (s : State) (call : Nat) : Marked s (s.release call) := by
  have cancelled := marked_cancel s call
  refine ⟨cancelled.waits, cancelled.invocations, ?_, ?_⟩
  · rw [release, List.length_modify]
    exact cancelled.calls.1
  · intro other found' is'
    rw [release] at is'
    simp only [List.getElem?_modify] at is'
    by_cases same : call = other
    · simp only [if_pos same, Option.map_eq_map, Option.map_eq_some_iff] at is'
      obtain ⟨found, is, rfl⟩ := is'
      exact cancelled.calls.2 other found is
    · simp only [if_neg same, Option.map_eq_map, Option.map_id_fun', id_eq] at is'
      exact cancelled.calls.2 other found' is'

theorem marked_expire (s : State) (index : Nat) : Marked s (s.expire index) := by
  refine ⟨?_, rfl, rfl, fun _ found' is => ⟨found', is, rfl, .inl⟩⟩
  apply List.ext_getElem?
  intro other
  rw [expire]
  simp only [List.getElem?_map, List.getElem?_modify]
  by_cases same : index = other
  · simp only [if_pos same]
    cases s.waits[other]? with
    | none => rfl
    | some wait =>
        simp only [Option.map_eq_map, Option.map_some]
        split <;> rfl
  · simp only [if_neg same, Option.map_eq_map, Option.map_id_fun', id_eq]

theorem completed_or_same (s : State) (index : Nat) :
    s.complete index = s ∨ ∃ wait, Completed s (s.complete index) wait := by
  rw [complete]
  cases is : s.waits[index]? with
  | none => exact .inl rfl
  | some wait =>
      by_cases waiting : wait.status = .waiting
      · exact .inl (if_pos waiting)
      · refine .inr ⟨wait, ?_⟩
        simp only [if_neg waiting]
        obtain ⟨inside, wait_eq⟩ := List.getElem?_eq_some_iff.mp is
        have split : s.waits = s.waits.take index ++ wait :: s.waits.drop (index + 1) := by
          rw [← wait_eq, ← List.drop_eq_getElem_cons inside, List.take_append_drop]
        have erased : s.waits.eraseIdx index = s.waits.take index ++ s.waits.drop (index + 1) :=
          List.eraseIdx_eq_take_drop_succ ..
        cases again : wait.repeated with
        | false =>
            exact ⟨⟨_, _, split, .inl ⟨again, erased⟩⟩, rfl, rfl⟩
        | true =>
            refine ⟨⟨_, _, split, .inr ⟨again,
              ⟨s.nextTimer, wait.call, wait.kind, wait.millsecs, true, .waiting⟩, ?_, rfl, rfl⟩⟩,
              rfl, rfl⟩
            simp only [arm, erased, if_true]

/-- Everything that a step can do. -/
theorem step_cases (s : State) (action : Action) :
    Added s (step s action) ∨ Marked s (step s action) ∨
      ∃ wait, Completed s (step s action) wait := by
  cases action with
  | addTimer kind millsecs repeated =>
      exact .inl ⟨⟨_, rfl, rfl, _, rfl, rfl, rfl⟩, rfl⟩
  | cancel call => exact .inr (.inl (marked_cancel s call))
  | release call => exact .inr (.inl (marked_release s call))
  | expire index => exact .inr (.inl (marked_expire s index))
  | complete index =>
      rcases completed_or_same s index with same | completed
      · refine .inr (.inl ?_)
        rw [step, same]
        exact marked_refl s
      · exact .inr (.inr completed)

/-! ## One wait for each task -/

/-- What holds in every state: each call has at most one wait, a repeated one has exactly one, and
one that is not repeated has none once it was invoked, or cancelled and settled. -/
structure Sound (s : State) : Prop where
  once : (s.waits.map Wait.call).Nodup
  known : ∀ wait ∈ s.waits, ∃ found, s.calls[wait.call]? = some found ∧
    found.repeated = wait.repeated
  past : ∀ invocation ∈ s.invocations, invocation.call < s.calls.length
  single : ∀ call found, s.calls[call]? = some found → found.repeated = false →
    s.count call ≤ 1 ∧ (s.Armed call → s.count call = 0)
  settled : ∀ call found, s.calls[call]? = some found → found.repeated = false →
    found.settled = true → ¬ s.Armed call
  again : ∀ call found, s.calls[call]? = some found → found.repeated = true → s.Armed call

theorem sound_start : Sound start where
  once := List.nodup_nil
  known := nofun
  past := nofun
  single _ _ is := by cases is
  settled _ _ is := by cases is
  again _ _ is := by cases is

variable {s s' : State}

theorem count_of_past (sound : Sound s) {call : Nat} (new : s.calls.length ≤ call) :
    s.count call = 0 := by
  rw [State.count, List.length_eq_zero_iff, List.filter_eq_nil_iff]
  intro invocation member is
  have before := sound.past invocation member
  rw [of_decide_eq_true is] at before
  exact Nat.not_lt.mpr new before

theorem lt_of_armed (sound : Sound s) {call : Nat} (armed : s.Armed call) :
    call < s.calls.length := by
  obtain ⟨wait, member, rfl⟩ := List.mem_map.mp armed
  obtain ⟨found, is, -⟩ := sound.known wait member
  exact (List.getElem?_eq_some_iff.mp is).1

theorem Added.armed_iff (added : Added s s') (call : Nat) :
    s'.Armed call ↔ s.Armed call ∨ call = s.calls.length := by
  obtain ⟨wait, waits, new, -⟩ := added.waits
  rw [Armed, Armed, waits, List.map_append, List.mem_append, List.map_singleton,
    List.mem_singleton, new]

/-- A call is an earlier one, or the one that is added. -/
theorem call_cases {calls : List Call} {added found : Call} {call : Nat}
    (is : (calls ++ [added])[call]? = some found) :
    call < calls.length ∧ calls[call]? = some found ∨ call = calls.length ∧ found = added := by
  rcases Nat.lt_trichotomy call calls.length with before | rfl | after
  · rw [List.getElem?_append_left before] at is
    exact .inl ⟨before, is⟩
  · rw [List.getElem?_concat_length] at is
    exact .inr ⟨rfl, (Option.some.inj is).symm⟩
  · rw [List.getElem?_eq_none (by rw [List.length_append]; exact after)] at is
    cases is

theorem Sound.added (sound : Sound s) (added : Added s s') : Sound s' := by
  have armed := added.armed_iff
  obtain ⟨wait, waits, new, found, calls, repeated, unsettled⟩ := added.waits
  have counts : ∀ call, s'.count call = s.count call := by
    intro call
    rw [State.count, State.count, added.invocations]
  have unarmed : ¬ s.Armed s.calls.length := fun is => Nat.lt_irrefl _ (lt_of_armed sound is)
  constructor
  · rw [waits, List.map_append, List.map_singleton, new]
    exact List.nodup_append.mpr ⟨sound.once, List.nodup_singleton _, fun call member other is =>
      fun same => unarmed (List.mem_singleton.mp is ▸ same ▸ member)⟩
  · intro other member
    rw [waits, List.mem_append, List.mem_singleton] at member
    rcases member with earlier | rfl
    · obtain ⟨known, is, same⟩ := sound.known other earlier
      refine ⟨known, ?_, same⟩
      rw [calls, List.getElem?_append_left (List.getElem?_eq_some_iff.mp is).1, is]
    · refine ⟨found, ?_, repeated⟩
      rw [calls, new]
      exact List.getElem?_concat_length
  · intro invocation member
    rw [added.invocations] at member
    rw [calls, List.length_append]
    exact Nat.lt_add_right _ (sound.past invocation member)
  · intro call found' is once
    rw [counts]
    rcases call_cases (calls ▸ is) with ⟨before, is⟩ | ⟨rfl, rfl⟩
    · obtain ⟨few, none⟩ := sound.single call found' is once
      exact ⟨few, fun now => none (((armed call).mp now).resolve_right (Nat.ne_of_lt before))⟩
    · have zero := count_of_past sound (Nat.le_refl s.calls.length)
      exact ⟨by omega, fun _ => zero⟩
  · intro call found' is once settled now
    rcases call_cases (calls ▸ is) with ⟨before, is⟩ | ⟨rfl, rfl⟩
    · exact sound.settled call found' is once settled
        (((armed call).mp now).resolve_right (Nat.ne_of_lt before))
    · rw [unsettled] at settled
      cases settled
  · intro call found' is again
    rcases call_cases (calls ▸ is) with ⟨before, is⟩ | ⟨rfl, rfl⟩
    · exact (armed call).mpr (.inl (sound.again call found' is again))
    · exact (armed _).mpr (.inr rfl)

theorem Marked.armed_iff (marked : Marked s s') (call : Nat) : s'.Armed call ↔ s.Armed call := by
  have calls := congrArg (List.map Prod.fst) marked.waits
  rw [List.map_map, List.map_map] at calls
  rw [Armed, Armed]
  exact iff_of_eq (congrArg (call ∈ ·) calls)

theorem Sound.marked (sound : Sound s) (marked : Marked s s') : Sound s' := by
  have armed := marked.armed_iff
  have counts : ∀ call, s'.count call = s.count call := by
    intro call
    rw [State.count, State.count, marked.invocations]
  have waits := congrArg (List.map Prod.fst) marked.waits
  rw [List.map_map, List.map_map] at waits
  constructor
  · exact (congrArg List.Nodup waits).mpr sound.once
  · intro wait member
    have pair : (wait.call, wait.repeated) ∈ s.waits.map fun wait => (wait.call, wait.repeated) := by
      rw [← marked.waits]
      exact List.mem_map_of_mem member
    obtain ⟨before, earlier, same⟩ := List.mem_map.mp pair
    obtain ⟨found, is, repeated⟩ := sound.known before earlier
    rw [Prod.mk.injEq] at same
    rw [same.1] at is
    have inside := (List.getElem?_eq_some_iff.mp is).1
    obtain ⟨found', is'⟩ : ∃ found', s'.calls[wait.call]? = some found' :=
      ⟨_, List.getElem?_eq_getElem (marked.calls.1.symm ▸ inside)⟩
    obtain ⟨found₀, is₀, repeated₀, -⟩ := marked.calls.2 wait.call found' is'
    obtain rfl := Option.some.inj (is.symm.trans is₀)
    exact ⟨found', is', repeated₀.symm.trans (repeated.trans same.2)⟩
  · intro invocation member
    rw [marked.invocations] at member
    rw [marked.calls.1]
    exact sound.past invocation member
  · intro call found' is' once
    obtain ⟨found, is, repeated, -⟩ := marked.calls.2 call found' is'
    rw [counts, armed]
    exact sound.single call found is (repeated.trans once)
  · intro call found' is' once settled
    obtain ⟨found, is, repeated, before⟩ := marked.calls.2 call found' is'
    rw [armed]
    exact (before settled).elim (sound.settled call found is (repeated.trans once)) id
  · intro call found' is' again
    obtain ⟨found, is, repeated, -⟩ := marked.calls.2 call found' is'
    exact (armed call).mpr (sound.again call found is (repeated.trans again))

theorem invoked_call {wait : Wait} {invocation : Invocation}
    (member : invocation ∈ invoked wait) : invocation.call = wait.call := by
  unfold invoked at member
  split at member
  · rw [List.mem_singleton.mp member]
  · rw [List.mem_singleton.mp member]
  · rw [List.mem_singleton.mp member]
  · cases member

theorem length_invoked_le (wait : Wait) : (invoked wait).length ≤ 1 := by
  unfold invoked
  split <;> first | exact Nat.le_refl 1 | exact Nat.zero_le 1

theorem Completed.armed_iff {wait : Wait} (sound : Sound s) (completed : Completed s s' wait)
    (call : Nat) : s'.Armed call ↔
      call ≠ wait.call ∧ s.Armed call ∨ call = wait.call ∧ wait.repeated = true := by
  obtain ⟨front, back, split, last | ⟨again, next, waits, nextCall, -⟩⟩ := completed.waits
  all_goals
    have once := sound.once
    rw [split, List.map_append, List.map_cons, List.nodup_middle, List.nodup_cons] at once
  · obtain ⟨single, waits⟩ := last
    rw [Armed, Armed, waits, split, single]
    simp only [List.map_append, List.map_cons, List.mem_append, List.mem_cons] at once ⊢
    grind
  · rw [Armed, Armed, waits, split, again]
    simp only [List.map_append, List.map_cons, List.mem_append, List.mem_cons, List.map_nil,
      List.not_mem_nil, or_false, nextCall] at once ⊢
    grind

theorem Completed.filter_invocations {wait : Wait} (completed : Completed s s' wait) {call : Nat}
    (other : call ≠ wait.call) :
    s'.invocations.filter (fun invocation => decide (invocation.call = call)) =
      s.invocations.filter fun invocation => decide (invocation.call = call) := by
  have none : (invoked wait).filter (fun invocation => decide (invocation.call = call)) = [] := by
    rw [List.filter_eq_nil_iff]
    intro invocation member is
    exact other ((of_decide_eq_true is).symm.trans (invoked_call member))
  rw [completed.invocations, List.filter_append, none, List.append_nil]

theorem Completed.count_le {wait : Wait} (completed : Completed s s' wait) (call : Nat) :
    s'.count call ≤ s.count call + 1 := by
  have few := Nat.le_trans (List.length_filter_le
    (fun invocation : Invocation => decide (invocation.call = call)) (invoked wait))
    (length_invoked_le wait)
  rw [State.count, State.count, completed.invocations, List.filter_append, List.length_append]
  omega

theorem Completed.member {wait : Wait} (completed : Completed s s' wait) : wait ∈ s.waits := by
  obtain ⟨front, back, split, -⟩ := completed.waits
  rw [split]
  exact List.mem_append_right _ List.mem_cons_self

theorem Completed.armed {wait : Wait} (completed : Completed s s' wait) : s.Armed wait.call :=
  List.mem_map_of_mem completed.member

theorem Completed.length_calls {wait : Wait} (completed : Completed s s' wait) :
    s'.calls.length = s.calls.length := by
  rw [completed.calls, List.length_modify]

/-- The record of a call keeps whether it is repeated, and that of others is the same. -/
theorem Completed.before {wait : Wait} (completed : Completed s s' wait) {call : Nat}
    {found' : Call} (is' : s'.calls[call]? = some found') :
    ∃ found, s.calls[call]? = some found ∧ found.repeated = found'.repeated ∧
      (call ≠ wait.call → found = found') := by
  rw [completed.calls, List.getElem?_modify] at is'
  by_cases same : wait.call = call
  · simp only [if_pos same, Option.map_eq_map, Option.map_eq_some_iff] at is'
    obtain ⟨found, is, rfl⟩ := is'
    exact ⟨found, is, rfl, fun other => (other same.symm).elim⟩
  · simp only [if_neg same, Option.map_eq_map, Option.map_id_fun', id_eq] at is'
    exact ⟨found', is', rfl, fun _ => rfl⟩

theorem Completed.after {wait : Wait} (completed : Completed s s' wait) {call : Nat}
    {found : Call} (is : s.calls[call]? = some found) :
    ∃ found', s'.calls[call]? = some found' ∧ found'.repeated = found.repeated := by
  have inside := (List.getElem?_eq_some_iff.mp is).1
  have is' := List.getElem?_eq_getElem (completed.length_calls.symm ▸ inside)
  obtain ⟨found₀, is₀, repeated, -⟩ := completed.before is'
  obtain rfl := Option.some.inj (is.symm.trans is₀)
  exact ⟨_, is', repeated.symm⟩

/-- The call of a wait is repeated if the wait is. -/
theorem Sound.owner {wait : Wait} (sound : Sound s) (member : wait ∈ s.waits) {found : Call}
    (is : s.calls[wait.call]? = some found) : found.repeated = wait.repeated := by
  obtain ⟨owner, ownerIs, repeated⟩ := sound.known wait member
  exact (congrArg Call.repeated (Option.some.inj (is.symm.trans ownerIs))).trans repeated

theorem Completed.once {wait : Wait} (sound : Sound s) (completed : Completed s s' wait) :
    (s'.waits.map Wait.call).Nodup := by
  obtain ⟨front, back, split, taken⟩ := completed.waits
  have once := sound.once
  rw [split, List.map_append, List.map_cons, List.nodup_middle, List.nodup_cons,
    ← List.map_append] at once
  rcases taken with ⟨-, waits⟩ | ⟨-, next, waits, nextCall, -⟩
  · rw [waits]
    exact once.2
  · rw [waits, List.map_append, List.map_singleton, nextCall]
    refine List.nodup_append.mpr ⟨once.2, List.nodup_singleton _, ?_⟩
    rintro call earlier other is rfl
    exact once.1 (List.mem_singleton.mp is ▸ earlier)

/-- A wait behind a completion was there, or it is the next one of the same call. -/
theorem Completed.wait_cases {wait : Wait} (completed : Completed s s' wait) {other : Wait}
    (here : other ∈ s'.waits) :
    other ∈ s.waits ∨ other.call = wait.call ∧ other.repeated = wait.repeated := by
  obtain ⟨front, back, split, taken⟩ := completed.waits
  have earlier : other ∈ front ++ back → other ∈ s.waits := by
    rw [split, List.mem_append, List.mem_append, List.mem_cons]
    exact Or.imp_right .inr
  rcases taken with ⟨-, waits⟩ | ⟨again, next, waits, nextCall, nextRepeated⟩
  · rw [waits] at here
    exact .inl (earlier here)
  · rw [waits, List.mem_append, List.mem_singleton] at here
    rcases here with here | rfl
    · exact .inl (earlier here)
    · exact .inr ⟨nextCall, nextRepeated.trans again.symm⟩

theorem Completed.known {wait : Wait} (sound : Sound s) (completed : Completed s s' wait)
    (other : Wait) (here : other ∈ s'.waits) :
    ∃ found, s'.calls[other.call]? = some found ∧ found.repeated = other.repeated := by
  rcases completed.wait_cases here with earlier | ⟨call, again⟩
  · obtain ⟨found, is, repeated⟩ := sound.known other earlier
    obtain ⟨found', is', same⟩ := completed.after is
    exact ⟨found', is', same.trans repeated⟩
  · obtain ⟨found, is, repeated⟩ := sound.known wait completed.member
    obtain ⟨found', is', same⟩ := completed.after is
    rw [call, again]
    exact ⟨found', is', same.trans repeated⟩

theorem Completed.single {wait : Wait} (sound : Sound s) (completed : Completed s s' wait)
    (call : Nat) (found' : Call) (is' : s'.calls[call]? = some found')
    (once : found'.repeated = false) : s'.count call ≤ 1 ∧ (s'.Armed call → s'.count call = 0) := by
  have armed := completed.armed_iff sound call
  obtain ⟨found, is, repeated, -⟩ := completed.before is'
  obtain ⟨few, none⟩ := sound.single call found is (repeated.trans once)
  by_cases same : call = wait.call
  · subst same
    have zero := none completed.armed
    have most := completed.count_le wait.call
    have single : wait.repeated = false :=
      (sound.owner completed.member is).symm.trans (repeated.trans once)
    refine ⟨by omega, fun now => ?_⟩
    rcases armed.mp now with ⟨other, -⟩ | ⟨-, again⟩
    · exact (other rfl).elim
    · exact absurd (again.symm.trans single) (by decide)
  · have counts : s'.count call = s.count call :=
      congrArg List.length (completed.filter_invocations same)
    rw [counts]
    refine ⟨few, fun now => none ?_⟩
    exact ((armed.mp now).resolve_right fun is => same is.1).2

theorem Sound.completed {wait : Wait} (sound : Sound s) (completed : Completed s s' wait) :
    Sound s' := by
  have armed := completed.armed_iff sound
  refine ⟨completed.once sound, completed.known sound, ?_, completed.single sound, ?_, ?_⟩
  · intro invocation here
    rw [completed.invocations, List.mem_append] at here
    rw [completed.length_calls]
    rcases here with here | here
    · exact sound.past invocation here
    · rw [invoked_call here]
      exact lt_of_armed sound completed.armed
  · intro call found' is' once settled now
    obtain ⟨found, is, repeated, others⟩ := completed.before is'
    rcases (armed call).mp now with ⟨other, earlier⟩ | ⟨rfl, again⟩
    · rw [← others other] at settled
      exact sound.settled call found is (repeated.trans once) settled earlier
    · have single : wait.repeated = false :=
        (sound.owner completed.member is).symm.trans (repeated.trans once)
      exact absurd (again.symm.trans single) (by decide)
  · intro call found' is' again
    obtain ⟨found, is, repeated, -⟩ := completed.before is'
    rw [armed]
    by_cases same : call = wait.call
    · subst same
      exact .inr ⟨rfl, (sound.owner completed.member is).symm.trans (repeated.trans again)⟩
    · exact .inl ⟨same, sound.again call found is (repeated.trans again)⟩

theorem Sound.step (sound : Sound s) (action : Action) : Sound (step s action) := by
  rcases step_cases s action with added | marked | ⟨wait, completed⟩
  · exact sound.added added
  · exact sound.marked marked
  · exact sound.completed completed

/-! ## Silence -/

/-- A call for which no wait is armed stays so, and its task is not invoked. -/
theorem unarmed_step (sound : Sound s) {call : Nat} (inside : call < s.calls.length)
    (unarmed : ¬ s.Armed call) (action : Action) :
    call < (step s action).calls.length ∧ ¬ (step s action).Armed call ∧
      (step s action).invocations.filter (fun invocation => decide (invocation.call = call)) =
        s.invocations.filter fun invocation => decide (invocation.call = call) := by
  rcases step_cases s action with added | marked | ⟨wait, completed⟩
  · obtain ⟨_, _, _, _, calls, _⟩ := added.waits
    refine ⟨?_, ?_, by rw [added.invocations]⟩
    · rw [calls, List.length_append]
      exact Nat.lt_add_right _ inside
    · rw [added.armed_iff, not_or]
      exact ⟨unarmed, Nat.ne_of_lt inside⟩
  · refine ⟨marked.calls.1.symm ▸ inside, ?_, by rw [marked.invocations]⟩
    rwa [marked.armed_iff]
  · have other : call ≠ wait.call := fun same => unarmed (same ▸ completed.armed)
    refine ⟨?_, ?_, completed.filter_invocations other⟩
    · rw [completed.length_calls]
      exact inside
    · rw [completed.armed_iff sound, not_or]
      exact ⟨fun now => unarmed now.2, fun now => other now.1⟩

theorem silent_of_unarmed (sound : Sound s) {call : Nat} (inside : call < s.calls.length)
    (unarmed : ¬ s.Armed call) : Silent s call := by
  intro actions
  induction actions generalizing s with
  | nil => exact ⟨unarmed, rfl⟩
  | cons action actions ih =>
      obtain ⟨inside', unarmed', same⟩ := unarmed_step sound inside unarmed action
      obtain ⟨later, invocations⟩ := ih (sound.step action) inside' unarmed'
      exact ⟨later, invocations.trans same⟩

/-- **Cancelled timers.** In every run, the calls that were cancelled and settled are silent from
there on and the tasks that are not repeated were invoked at most once, if and only if none of the
calls that were cancelled and settled is repeated. -/
theorem silent_iff (actions : List Action) :
    Silences (Run.final step start actions) ↔
      ∀ (call : Nat) (found : Call),
        (Run.final step start actions).calls[call]? = some found →
          found.settled = true → found.repeated = false := by
  have sound := Run.final_of_kept Sound (fun _ action is => is.step action) sound_start actions
  generalize Run.final step start actions = s at sound ⊢
  constructor
  · intro silent call found is settled
    have unarmed := ((silent call found is).1 settled []).1
    cases again : found.repeated with
    | false => rfl
    | true => exact (unarmed (sound.again call found is again)).elim
  · intro single call found is
    refine ⟨fun settled => ?_, fun once => (sound.single call found is once).1⟩
    exact silent_of_unarmed sound (List.getElem?_eq_some_iff.mp is).1
      (sound.settled call found is (single call found is settled) settled)

/-- A repeated timer is cancelled before it expires, and its completion is processed: the next wait
is armed, and its expiry invokes the task. -/
theorem cancelled_invoked :
    ¬ Silences (Run.final step start [.addTimer .closure 10 true, .cancel 0, .complete 0]) ∧
      (Run.final step start [.addTimer .closure 10 true, .cancel 0, .complete 0, .expire 0,
        .complete 0]).invocations = [⟨0, true⟩, ⟨0, false⟩] := by
  refine ⟨fun silences => ?_, by decide⟩
  have silent := (silences 0 ⟨some 0, true, true, true⟩ (by decide)).1 rfl
  exact absurd (silent []).1 (by decide)

end Cube.Eco.Timer
