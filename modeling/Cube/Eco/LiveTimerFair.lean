import Cube.Eco.LiveTimer

/-! # The fairness of the live timer

A pass of the timer ends, visits every being once that stays registered, and visits no being that
was removed, however beings are added and removed in between; but for an `eco::Error` that leaves
`on_live` and ends the pass.
-/

namespace Cube.Eco.LiveTimer

open Thread (AtomicState)

variable {ι β : Type} [DecidableEq β] {record : Record ι β}

/-- Beings are added that are not registered, and no `eco::Error` leaves `on_live`. -/
def Quiet (record : Record ι β) : Operation β → Prop
  | .addBeing be => be ∉ record.eco.beings.items
  | .onLiveTimer => record.timer.isError = false
  | _ => True

instance decidableQuiet : ∀ operation, Decidable (Quiet record operation)
  | .addBeing _ => inferInstanceAs (Decidable (_ ∉ _))
  | .onLiveTimer => inferInstanceAs (Decidable (_ = _))
  | .removeBeing _ | .waits _ => isTrue trivial

/-! ## The invariant -/

/-- The steps that the timer still takes for the being where it is. -/
def TimerPoint.rank : TimerPoint β → Nat
  | .gets => 1
  | .visits _ => 5
  | .lives _ _ => 4
  | .clears => 3
  | .notifies => 2
  | _ => 0

/-- The beings that the timer has passed, and those that are ahead of it. -/
structure Sound (record : Record ι β) (behind ahead : List β) : Prop where
  parts : record.eco.beings = .ofParts behind ahead
  unique : (behind ++ ahead).Nodup
  current : ∀ be, record.timer.being = some be →
    behind.getLast? = some be ∧ record.eco.running.isOk = true
  idle : record.timer = .idle → behind = []
  stayed : record.timer.isEnded = false → ∀ be ∈ record.pass.beings, be ∉ record.pass.removed →
    be ∈ behind ++ ahead ∧ record.pass.visited.count be = if be ∈ behind then 1 else 0
  once : record.timer = .idle → ∀ be ∈ record.pass.beings, be ∉ record.pass.removed →
    record.pass.visited.count be = 1
  steps : record.timer.isEnded = false →
    record.pass.steps + 5 * ahead.length + record.timer.rank ≤
      5 * (record.pass.beings.length + record.pass.added) + 1
  bound : record.pass.steps ≤ 5 * (record.pass.beings.length + record.pass.added) + 1
  alive : record.timer ≠ .gone

/-- The last item stays when another one is erased. -/
theorem getLast?_erase_of_ne {items : List β} {item last : β} (atEnd : items.getLast? = some last)
    (differs : last ≠ item) : (items.erase item).getLast? = some last := by
  obtain ⟨first, rfl⟩ := List.getLast?_eq_some_iff.mp atEnd
  by_cases member : item ∈ first
  · rw [List.erase_append_left _ member]
    simp
  · rw [List.erase_append_right _ member, List.erase_of_not_mem (by simpa using Ne.symm differs)]
    simp

namespace Sound

variable {behind ahead : List β}

/-- The timer comes to the next being, or ends the pass. -/
theorem gets (sound : Sound record behind ahead) (timer : record.timer = .gets)
    (free : record.eco.locked = false) (liveTicks : β → LiveTicks) (outcome : LiveOutcome)
    (pick : Nat) :
    ∃ behind' ahead', Sound (record.onLiveTimer liveTicks outcome pick) behind' ahead' := by
  have running : record.timer.isEnded = false := by rw [timer]; rfl
  have steps := sound.steps running
  rw [timer] at steps
  cases ahead with
  | nil =>
      obtain ⟨next, ended⟩ :=
        Record.onLiveTimer_of_last timer free sound.parts liveTicks outcome pick
      rw [ended]
      refine ⟨[], behind, next, by simpa using sound.unique, by rintro _ ⟨⟩, fun _ => rfl,
        by rintro ⟨⟩, fun _ be member stays => ?_, by rintro ⟨⟩, ?_, by rintro ⟨⟩⟩
      · obtain ⟨here, count⟩ := sound.stayed running be member stays
        rw [List.append_nil] at here
        simpa [Record.goesOn, here] using count
      · simpa [Record.goesOn, TimerPoint.rank] using steps
  | cons be rest =>
      obtain ⟨next, visited⟩ :=
        Record.onLiveTimer_of_next timer free sound.parts liveTicks outcome pick
      rw [visited]
      have unique := sound.unique
      have apart : be ∉ behind := fun member =>
        (List.nodup_append.mp unique).2.2 be member be List.mem_cons_self rfl
      simp only [List.length_cons, TimerPoint.rank] at steps
      refine ⟨behind ++ [be], rest, next, by simpa using unique, ?_, by rintro ⟨⟩,
        fun _ other member stays => ?_, by rintro ⟨⟩, fun _ => ?_, ?_, by rintro ⟨⟩⟩
      · rintro _ ⟨⟩
        exact ⟨by simp, AtomicState.ok_isOk _⟩
      · obtain ⟨here, count⟩ := sound.stayed running other member stays
        refine ⟨by simpa using here, ?_⟩
        simp only [Record.visits, List.count_append, count]
        by_cases same : other = be
        · simp [same, apart]
        · simp [same, Ne.symm same]
      · simp only [Record.visits, TimerPoint.rank]
        omega
      · simp only [Record.visits]
        omega

/-- The timer goes on with the being where it is. -/
theorem moves (sound : Sound record behind ahead) (running : record.timer.isEnded = false)
    {eco : EcoState ι β} {timer : TimerPoint β} (beings : eco.beings = record.eco.beings)
    (called : ∀ be, timer.being = some be →
      record.timer.being = some be ∧ eco.running = record.eco.running)
    (goesOn : timer.isEnded = false) (rank : timer.rank < record.timer.rank) :
    Sound (record.goesOn eco timer) behind ahead := by
  have steps := sound.steps running
  refine ⟨beings.trans sound.parts, sound.unique, fun be atBeing => ?_, fun idle => ?_,
    fun _ => sound.stayed running, fun idle => ?_, fun _ => ?_, ?_, fun gone => ?_⟩
  · obtain ⟨before, same⟩ := called be atBeing
    obtain ⟨last, ok⟩ := sound.current be before
    exact ⟨last, by rw [Record.goesOn, same, ok]⟩
  · rw [show timer = .idle from idle] at goesOn
    cases goesOn
  · rw [show timer = .idle from idle] at goesOn
    cases goesOn
  · simp only [Record.goesOn]
    omega
  · simp only [Record.goesOn]
    omega
  · rw [show timer = .gone from gone] at goesOn
    cases goesOn

/-- A pass begins. -/
theorem ticks (sound : Sound record behind ahead) (timer : record.timer = .idle) :
    Sound record.ticks behind ahead := by
  have first := sound.idle timer
  subst first
  have items : record.eco.beings.items = ahead := by rw [sound.parts, CursorList.items_ofParts]; rfl
  refine ⟨sound.parts, sound.unique, nofun, fun _ => rfl, fun _ be member _ => ?_, nofun,
    fun _ => ?_, Nat.zero_le _, nofun⟩
  · change be ∈ record.eco.beings.items at member
    rw [items] at member
    exact ⟨member, rfl⟩
  · simp [Record.ticks, items, TimerPoint.rank]

/-- The timer goes on, if no `eco::Error` leaves `on_live`. -/
theorem onLiveTimer (sound : Sound record behind ahead) (quiet : record.timer.isError = false)
    (liveTicks : β → LiveTicks) (outcome : LiveOutcome) (pick : Nat) :
    ∃ behind' ahead', Sound (record.onLiveTimer liveTicks outcome pick) behind' ahead' := by
  cases timer : record.timer with
  | idle =>
      refine ⟨behind, ahead, ?_⟩
      simpa only [Record.onLiveTimer, timer] using sound.ticks timer
  | gets =>
      cases free : record.eco.locked with
      | false => exact sound.gets timer free liveTicks outcome pick
      | true =>
          refine ⟨behind, ahead, ?_⟩
          simpa only [Record.onLiveTimer, timer, free, if_true] using sound
  | visits be =>
      refine ⟨behind, ahead, ?_⟩
      simp only [Record.onLiveTimer, timer]
      refine sound.moves (by rw [timer]; rfl) rfl (fun other called => ⟨?_, rfl⟩) ?_ ?_
      · rw [timer]
        split at called
        · exact called
        · cases called
      · split <;> rfl
      · rw [timer]
        split <;> simp [TimerPoint.rank]
  | lives be ends =>
      refine ⟨behind, ahead, ?_⟩
      cases ends with
      | error =>
          rw [timer] at quiet
          cases quiet
      | returns =>
          simp only [Record.onLiveTimer, timer]
          exact sound.moves (by rw [timer]; rfl) rfl (by rintro _ ⟨⟩) rfl (by simp [timer, TimerPoint.rank])
      | exception =>
          simp only [Record.onLiveTimer, timer]
          exact sound.moves (by rw [timer]; rfl) rfl (by rintro _ ⟨⟩) rfl (by simp [timer, TimerPoint.rank])
  | clears =>
      refine ⟨behind, ahead, ?_⟩
      simp only [Record.onLiveTimer, timer]
      exact sound.moves (by rw [timer]; rfl) rfl (by rintro _ ⟨⟩) rfl (by simp [timer, TimerPoint.rank])
  | notifies =>
      refine ⟨behind, ahead, ?_⟩
      simp only [Record.onLiveTimer, timer]
      exact sound.moves (by rw [timer]; rfl) rfl (by rintro _ ⟨⟩) rfl (by simp [timer, TimerPoint.rank])
  | gone => exact absurd timer sound.alive

/-- A being is added that is not registered. -/
theorem adds (sound : Sound record behind ahead) {be : β} (absent : be ∉ record.eco.beings.items) :
    Sound (record.adds be) behind (ahead ++ [be]) := by
  rw [sound.parts, CursorList.items_ofParts] at absent
  refine ⟨?_, ?_, sound.current, sound.idle, fun running other member stays => ?_, sound.once,
    fun running => ?_, ?_, sound.alive⟩
  · rw [Record.adds, EcoState.addBeing, sound.parts, CursorList.append_ofParts]
  · rw [← List.append_assoc, List.nodup_append]
    exact ⟨sound.unique, by simp, fun other member last single same =>
      absent (List.mem_singleton.mp single ▸ same ▸ member)⟩
  · obtain ⟨here, count⟩ := sound.stayed running other member stays
    exact ⟨by rw [← List.append_assoc]; exact List.mem_append_left _ here, count⟩
  · have steps := sound.steps running
    simp only [Record.adds, List.length_append, List.length_singleton]
    omega
  · have bound := sound.bound
    simp only [Record.adds]
    omega

/-- A being is removed that is not running. -/
theorem removes (sound : Sound record behind ahead) {be : β}
    (rests : record.eco.isRunning be = false) :
    ∃ behind' ahead', Sound (record.removes be) behind' ahead' := by
  have otherCalled (other : β) (called : record.timer.being = some other) : other ≠ be := by
    rintro rfl
    obtain ⟨last, ok⟩ := sound.current other called
    simp [EcoState.isRunning, EcoState.getCurrentBeing, sound.parts, last, ok] at rests
  have staysOther {other : β} (stays : other ∉ record.pass.removed ++ [be]) :
      other ∉ record.pass.removed ∧ other ≠ be := by simpa using stays
  by_cases passed : be ∈ behind
  · refine ⟨behind.erase be, ahead, ?_, ?_, fun other called => ?_, fun idle => ?_,
      fun running other member stays => ?_, fun idle other member stays => ?_, sound.steps,
      sound.bound, sound.alive⟩
    · exact Record.beings_removes_of_behind sound.parts passed
    · exact sound.unique.sublist (List.erase_sublist.append_right ahead)
    · obtain ⟨last, ok⟩ := sound.current other called
      exact ⟨getLast?_erase_of_ne last (otherCalled other called), ok⟩
    · rw [sound.idle idle] at passed
      cases passed
    · obtain ⟨before, differs⟩ := staysOther stays
      obtain ⟨here, count⟩ := sound.stayed running other member before
      simp only [List.mem_append, List.mem_erase_of_ne differs]
      exact ⟨List.mem_append.mp here, count⟩
    · exact sound.once idle other member (staysOther stays).1
  · refine ⟨behind, ahead.erase be, ?_, ?_, sound.current, sound.idle,
      fun running other member stays => ?_, fun idle other member stays => ?_, fun running => ?_,
      sound.bound, sound.alive⟩
    · exact Record.beings_removes_of_ahead sound.parts passed
    · exact sound.unique.sublist (List.erase_sublist.append_left behind)
    · obtain ⟨before, differs⟩ := staysOther stays
      obtain ⟨here, count⟩ := sound.stayed running other member before
      simp only [List.mem_append, List.mem_erase_of_ne differs]
      exact ⟨List.mem_append.mp here, count⟩
    · exact sound.once idle other member (staysOther stays).1
    · have steps := sound.steps running
      have shorter : (ahead.erase be).length ≤ ahead.length := List.erase_sublist.length_le
      simp only [Record.removes]
      omega

end Sound

/-! ## Runs -/

/-- The invariant of the shared state, for some parts of the list. -/
def Parted (record : Record ι β) : Prop := ∃ behind ahead, Sound record behind ahead

variable [DecidableEq ι] {liveTicks : β → LiveTicks} {timer : ι}

/-- Every quiet step of a thread keeps the invariant. -/
theorem Parted.step (parted : Parted record) {thread : ι} {operation : Operation β} {input : Input}
    (quiet : Quiet record operation) :
    Parted (record.step liveTicks thread operation input).1 := by
  obtain ⟨behind, ahead, sound⟩ := parted
  cases operation with
  | onLiveTimer =>
      cases input with
      | goesOn outcome pick => exact sound.onLiveTimer quiet liveTicks outcome pick
      | wakesUp => exact ⟨behind, ahead, sound⟩
  | addBeing be =>
      simp only [Record.step]
      split
      · exact ⟨behind, ahead, sound⟩
      · exact ⟨behind, _, sound.adds quiet⟩
  | removeBeing be =>
      cases input with
      | goesOn outcome pick =>
          simp only [Record.step]
          split
          · exact ⟨behind, ahead, sound⟩
          · split
            · exact ⟨behind, ahead, { sound with }⟩
            next rests => exact sound.removes (Bool.eq_false_iff.mpr rests)
      | wakesUp => exact ⟨behind, ahead, { sound with }⟩
  | waits be => exact ⟨behind, ahead, { sound with }⟩

/-- What holds of the threads: the timer is in its function, besides the invariant. -/
structure Running (timer : ι) (threads : Threads ι β) : Prop where
  shared : Parted threads.shared
  timer : threads.running timer = some .onLiveTimer

/-- The timer stays in its function. -/
theorem Running.step {threads : Threads ι β} (running : Running timer threads)
    {choice : Choice ι β} (quiet : Interleaving.Meets Quiet threads choice) :
    Running timer ((program liveTicks).step threads choice) where
  shared := (program liveTicks).step_shared running.shared
    (fun thread call _ => by cases call <;> exact running.shared)
    fun thread input operation chosen atOperation =>
      running.shared.step (quiet thread input operation chosen atOperation)
  timer := by
    rcases (program liveTicks).step_cases threads choice with
      ⟨unchanged, _⟩ | ⟨thread, call, rfl, idle⟩ | ⟨thread, input, operation, rfl, standing⟩
    · rw [unchanged]
      exact running.timer
    · have other : timer ≠ thread := fun same => by simp [← same, running.timer] at idle
      rw [Interleaving.Program.step_call idle, Interleaving.Threads.move_running_of_ne _ _ other]
      exact running.timer
    · rw [Interleaving.Program.step_advance standing]
      by_cases same : timer = thread
      · subst same
        rw [running.timer] at standing
        cases standing
        rw [Interleaving.Threads.move_running_self]
        cases input <;> rfl
      · rw [Interleaving.Threads.move_running_of_ne _ _ same]
        exact running.timer

end Cube.Eco.LiveTimer
