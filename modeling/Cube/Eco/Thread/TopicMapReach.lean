import Cube.Eco.Thread.TopicMap

/-! # Subscriptions reach the topic in the map

Whether a subscription reaches the topic that later publications find is decided by the steps
that enter a subscription, take one away or take the topic out of the map. All other steps
leave it as it is.
-/

namespace Cube.Eco.Thread.TopicMap

variable {S ι : Type} {map after : TopicMap S}

/-! ## Histories -/

/-- The histories of calls and subscriptions only grow. -/
structure Later (map after : TopicMap S) : Prop where
  begun : map.begun <+: after.begun
  entered : map.entered <+: after.entered

theorem Later.refl (map : TopicMap S) : Later map map := ⟨List.prefix_rfl, List.prefix_rfl⟩

theorem Disturbed.later {subscribed : Subscribed S} (disturbed : map.Disturbed subscribed)
    (begun : map.begun <+: after.begun) : after.Disturbed subscribed := by
  obtain ⟨rest, same⟩ := begun
  rw [Disturbed, ← same, List.drop_append]
  exact disturbed.imp (List.mem_append_left _) (List.mem_append_left _)

theorem take_of_initial {α : Type} {first second : List α} (initial : first <+: second)
    {count : Nat} (bound : count ≤ first.length) : second.take count = first.take count := by
  obtain ⟨rest, rfl⟩ := initial
  exact List.take_append_of_le_length bound

/-- What a publication knows on its way: it found the topic that the subscriptions entered
before it began are subscribed to, unless they were disturbed. -/
def Aware (map : TopicMap S) : Operation S → Prop
  | .find _ began => began ≤ map.entered.length
  | .append topic began => began ≤ map.entered.length ∧
      ∀ subscribed ∈ map.entered.take began, ¬ map.Disturbed subscribed →
        topic = subscribed.topic
  | _ => True

theorem Aware.later {operation : Operation S} (aware : map.Aware operation)
    (later : Later map after) : after.Aware operation := by
  have grows := later.entered.length_le
  cases operation with
  | find make began => exact Nat.le_trans aware grows
  | append topic began =>
      refine ⟨Nat.le_trans aware.1 grows, fun subscribed member undisturbed => ?_⟩
      rw [take_of_initial later.entered aware.1] at member
      exact aware.2 subscribed member fun disturbed => undisturbed (disturbed.later later.begun)
  | _ => trivial

/-- What should hold, and that everything in the lists was entered and every publication began
at some time. -/
structure Sound (map : TopicMap S) : Prop extends map.Reaches where
  known : ∀ subscribed ∈ map.live, subscribed ∈ map.entered
  bounded : ∀ publication ∈ map.appended, publication.began ≤ map.entered.length

theorem sound_start : (start : TopicMap S).Sound where
  mapped := nofun
  published := nofun
  single := List.nodup_nil
  known := nofun
  bounded := nofun

/-- More calls have begun that take subscriptions away. -/
theorem Sound.begin (sound : map.Sound) (disturbance : Disturbance S) :
    ({ map with begun := map.begun ++ [disturbance] } : TopicMap S).Sound where
  mapped subscribed member undisturbed := sound.mapped subscribed member fun disturbed =>
    undisturbed (disturbed.later (List.prefix_append ..))
  published publication member subscribed before undisturbed :=
    sound.published publication member subscribed before fun disturbed =>
      undisturbed (disturbed.later (List.prefix_append ..))
  single := sound.single
  known := sound.known
  bounded := sound.bounded

/-! ## Steps -/

/-- `get_topic` finds the topic in the map. A new one is made when no subscription is left that
could be elsewhere. -/
theorem Sound.getTopic (sound : map.Sound) (make : Option TopicKind) :
    (map.getTopic make).2.Sound ∧ Later map (map.getTopic make).2 ∧
      (map.getTopic make).2.entered = map.entered ∧
      ∀ topic, (map.getTopic make).1 = some topic →
        (map.getTopic make).2.entry = some topic := by
  cases entry : map.entry with
  | some topic =>
      have step : map.getTopic make = (some topic, map) := by
        simp only [TopicMap.getTopic, entry]
      rw [step]
      refine ⟨sound, .refl map, rfl, ?_⟩
      rintro _ ⟨⟩
      exact entry
  | none =>
      cases make with
      | none =>
          have step : map.getTopic none = (none, map) := by
            simp only [TopicMap.getTopic, entry]
          rw [step]
          exact ⟨sound, .refl map, rfl, nofun⟩
      | some kind =>
          have step : map.getTopic (some kind) = (some map.fresh, { map with
              entry := some map.fresh
              kind := Function.update map.kind map.fresh kind
              fresh := map.fresh + 1 }) := by
            simp only [TopicMap.getTopic, entry]
          rw [step]
          refine ⟨{ sound with mapped := fun subscribed member undisturbed => ?_ },
            ⟨List.prefix_rfl, List.prefix_rfl⟩, rfl, ?_⟩
          · have mapped := (sound.mapped subscribed member undisturbed).2
            rw [entry] at mapped
            cases mapped
          · rintro _ ⟨⟩
            rfl

/-- A subscription is entered in the topic that is in the map. -/
theorem Sound.enterSubscription (sound : map.Sound) {topic : TopicRef} {subscriber : S}
    {began : Nat} (timely : (∀ subscribed ∈ map.live,
        ¬ (subscribed.topic = topic ∧ subscribed.subscriber = subscriber)) ∧
      (map.entry = some topic ∨ map.Disturbed ⟨map.freshNode, topic, subscriber, began⟩)) :
    (map.enterSubscription topic subscriber began).Sound where
  mapped := by
    intro subscribed member undisturbed
    rcases List.mem_append.mp member with before | here
    · obtain ⟨live, entry⟩ := sound.mapped subscribed before undisturbed
      exact ⟨List.mem_append_left _ live, entry⟩
    · rw [List.mem_singleton.mp here] at undisturbed ⊢
      exact ⟨List.mem_append_right _ (List.mem_singleton_self _),
        timely.2.resolve_right undisturbed⟩
  published := by
    intro publication member subscribed before undisturbed
    change subscribed ∈ (map.entered ++ [_]).take publication.began at before
    rw [List.take_append_of_le_length (sound.bounded publication member)] at before
    exact sound.published publication member subscribed before undisturbed
  single := by
    change ((map.live ++ [_]).map _).Nodup
    rw [List.map_append, List.map_singleton]
    refine List.nodup_append.mpr ⟨sound.single, List.nodup_singleton _, ?_⟩
    rintro _ member _ here rfl
    obtain ⟨subscribed, live, same⟩ := List.mem_map.mp member
    rw [List.mem_singleton] at here
    exact timely.1 subscribed live (Prod.mk.inj (same.trans here))
  known := by
    intro subscribed member
    rcases List.mem_append.mp member with before | here
    · exact List.mem_append_left _ (sound.known subscribed before)
    · exact List.mem_append_right _ here
  bounded := by
    intro publication member
    refine Nat.le_trans (sound.bounded publication member) ?_
    exact (List.prefix_append map.entered [_]).length_le

/-- Subscriptions that were disturbed go away, and all others stay. -/
theorem Sound.remove (sound : map.Sound) {live : List (Subscribed S)} (sublist : live.Sublist map.live)
    (kept : ∀ subscribed ∈ map.live, map.entry = some subscribed.topic →
      ¬ map.Disturbed subscribed → subscribed ∈ live) :
    ({ map with live } : TopicMap S).Sound where
  mapped subscribed member undisturbed := by
    obtain ⟨before, entry⟩ := sound.mapped subscribed member undisturbed
    exact ⟨kept subscribed before entry undisturbed, entry⟩
  published := sound.published
  single := sound.single.sublist (sublist.map _)
  known subscribed member := sound.known subscribed (sublist.subset member)
  bounded := sound.bounded

/-- The topic leaves the map when all that are subscribed to it were disturbed. -/
theorem Sound.unmap (sound : map.Sound) (timely : ∀ subscribed ∈ map.live,
    map.entry = some subscribed.topic → map.Disturbed subscribed) :
    ({ map with entry := none } : TopicMap S).Sound :=
  { sound with
    mapped := fun subscribed member undisturbed => by
      obtain ⟨live, entry⟩ := sound.mapped subscribed member undisturbed
      exact absurd (timely subscribed live entry) undisturbed }

theorem Sound.append (sound : map.Sound) {topic : TopicRef} {began : Nat}
    (aware : map.Aware (.append topic began)) : (map.append topic began).Sound :=
  { sound with
    published := fun publication member subscribed before undisturbed => by
      rcases List.mem_append.mp member with earlier | here
      · exact sound.published publication earlier subscribed before undisturbed
      · rw [List.mem_singleton.mp here] at before ⊢
        exact aware.2 subscribed before undisturbed
    bounded := fun publication member => by
      rcases List.mem_append.mp member with earlier | here
      · exact sound.bounded publication earlier
      · rw [List.mem_singleton.mp here]
        exact aware.1 }

theorem Sound.clear (sound : map.Sound) (topic : TopicRef) : (map.clear topic).Sound := by
  rw [TopicMap.clear]
  split
  · exact sound
  · refine sound.remove List.filter_sublist fun other member entry _ => ?_
    refine List.mem_filter.mpr ⟨member, decide_eq_true ?_⟩
    rintro rfl
    exact absurd entry ‹_›

/-- What a step keeps: the map stays sound, its histories grow, and the operation knows where it
goes on what it should. -/
structure Keeps (map : TopicMap S) (result : TopicMap S × Option (Operation S)) : Prop where
  sound : result.1.Sound
  later : Later map result.1
  aware : ∀ next, result.2 = some next → result.1.Aware next

theorem Sound.goesOn (sound : after.Sound) (later : Later map after) {operation : Operation S}
    (aware : after.Aware operation) : Keeps map (after, some operation) where
  sound := sound
  later := later
  aware := by
    rintro _ ⟨⟩
    exact aware

/-- A thread that has to wait stays where it is. -/
theorem Sound.waits (sound : map.Sound) {operation : Operation S} (aware : map.Aware operation) :
    Keeps map (map, some operation) := sound.goesOn (.refl map) aware

theorem Sound.ends (sound : after.Sound) (later : Later map after) : Keeps map (after, none) :=
  ⟨sound, later, nofun⟩

/-- What was subscribed to the topic that left the map was disturbed. -/
theorem Sound.disturbed_of_unmapped (sound : map.Sound)
    (reaches : ({ map with entry := none } : TopicMap S).Reaches) {subscribed : Subscribed S}
    (live : subscribed ∈ map.live) : map.Disturbed subscribed := by
  by_contra undisturbed
  cases (reaches.mapped subscribed (sound.known subscribed live) undisturbed).2

/-- The map is sound, and publications on their way know what they should. -/
def outline : Interleaving.Outline ι (TopicMap S) (Operation S) := ⟨Sound, fun _ => Aware⟩

theorem Keeps.outline {thread : ι} {result : TopicMap S × Option (Operation S)}
    (keeps : Keeps map result) : outline.Keeps thread map result where
  shared := keeps.sound
  own := keeps.aware
  others _ _ _ aware := aware.later keeps.later

theorem Sound.keeps_begin (sound : map.Sound) (call : Call S) :
    Keeps map ((map.begin call).1, some (map.begin call).2) := by
  cases call with
  | subscribe subscriber make => exact sound.waits trivial
  | unsubscribe subscriber =>
      exact (sound.begin _).goesOn ⟨List.prefix_append .., List.prefix_rfl⟩ trivial
  | eraseTopic => exact (sound.begin _).goesOn ⟨List.prefix_append .., List.prefix_rfl⟩ trivial
  | publish make => exact sound.waits (Nat.le_refl _)
  | clear topic => exact sound.waits trivial

variable [DecidableEq S]

theorem Sound.unsubscribe (sound : map.Sound) {subscribed : Subscribed S}
    (disturbed : map.Disturbed subscribed) : (map.unsubscribe subscribed).Sound :=
  sound.remove List.erase_sublist fun other member _ undisturbed => by
    refine (List.mem_erase_of_ne ?_).mpr member
    rintro rfl
    exact undisturbed disturbed

theorem find_spec {topic : TopicRef} {subscriber : S} {subscribed : Subscribed S}
    (found : map.find topic subscriber = some subscribed) :
    subscribed ∈ map.live ∧ subscribed.topic = topic ∧ subscribed.subscriber = subscriber := by
  change map.live.reverse.find? _ = _ at found
  refine ⟨List.mem_reverse.mp (List.mem_of_find?_eq_some found), ?_⟩
  have same := List.find?_some found
  rwa [decide_eq_true_eq] at same

/-! ## Every step -/

theorem Sound.advance_getTopic (sound : map.Sound) (subscriber : S) (make : Option TopicKind)
    (began : Nat) : Keeps map (map.advance (.getTopic subscriber make began)) := by
  obtain ⟨soundAfter, later, _, _⟩ := sound.getTopic make
  rw [advance]
  split
  · exact sound.waits trivial
  · split
    next topic after step =>
        rw [step] at soundAfter later
        exact soundAfter.goesOn later trivial
    next after step =>
        rw [step] at soundAfter later
        exact soundAfter.ends later

/-- A publication finds the topic of every subscription that was entered before it began. -/
theorem Sound.advance_find (sound : map.Sound) {make : Option TopicKind} {began : Nat}
    (aware : map.Aware (.find make began)) : Keeps map (map.advance (.find make began)) := by
  obtain ⟨soundAfter, later, entered, entry⟩ := sound.getTopic make
  rw [advance]
  split
  · exact sound.waits aware
  · split
    next topic after step =>
        rw [step] at soundAfter later entered entry
        refine soundAfter.goesOn later
          ⟨entered ▸ aware, fun subscribed member undisturbed => ?_⟩
        have mapped :=
          (soundAfter.mapped subscribed (List.mem_of_mem_take member) undisturbed).2
        exact Option.some.inj ((entry topic rfl).symm.trans mapped)
    next after step =>
        rw [step] at soundAfter later
        exact soundAfter.ends later

theorem Sound.advance_unsubscribe (sound : map.Sound) {subscriber : S}
    (timely : map.Timely (.unsubscribe subscriber)) :
    Keeps map (map.advance (.unsubscribe subscriber)) := by
  have stays : Keeps map (map, none) := sound.ends (.refl map)
  rw [advance]
  split
  · exact sound.waits trivial
  next unlocked =>
    split
    · exact stays
    next topic entry =>
      split
      · exact stays
      next subscribed found =>
        have removed := sound.unsubscribe
          (timely (Bool.eq_false_iff.mpr unlocked) topic entry subscribed found)
        split
        · apply Sound.goesOn
          · exact { removed with }
          · exact ⟨List.prefix_rfl, List.prefix_rfl⟩
          · trivial
        · exact removed.ends ⟨List.prefix_rfl, List.prefix_rfl⟩

theorem Sound.advance_popTopic (sound : map.Sound) (timely : map.Timely .popTopic) :
    Keeps map (map.advance .popTopic) := by
  rw [advance]
  split
  · exact sound.waits trivial
  next unlocked =>
    split
    · apply Sound.goesOn
      · exact sound.unmap (timely (Bool.eq_false_iff.mpr unlocked))
      · exact ⟨List.prefix_rfl, List.prefix_rfl⟩
      · trivial
    · exact sound.ends (.refl map)

/-- **One step.** A timely step keeps the map sound. -/
theorem Sound.advance (sound : map.Sound) {operation : Operation S} (aware : map.Aware operation)
    (timely : map.Timely operation) : Keeps map (map.advance operation) := by
  cases operation with
  | getTopic subscriber make began => exact sound.advance_getTopic subscriber make began
  | hasSubscriber subscriber topic began =>
      rw [TopicMap.advance]
      split
      · exact sound.ends (.refl map)
      · exact sound.goesOn (.refl map) trivial
  | enter subscriber topic began =>
      apply Sound.goesOn
      · exact sound.enterSubscription timely
      · exact ⟨List.prefix_rfl, List.prefix_append ..⟩
      · trivial
  | unsubscribe subscriber => exact sound.advance_unsubscribe timely
  | hasAnySubscriber topic =>
      rw [TopicMap.advance]
      split
      · exact Sound.ends { sound with } ⟨List.prefix_rfl, List.prefix_rfl⟩
      · exact sound.goesOn (.refl map) trivial
  | dropTopic =>
      exact Sound.ends { sound.unmap timely with } ⟨List.prefix_rfl, List.prefix_rfl⟩
  | popTopic => exact sound.advance_popTopic timely
  | find make began => exact sound.advance_find aware
  | append topic began =>
      apply Sound.goesOn
      · exact sound.append aware
      · exact ⟨List.prefix_rfl, List.prefix_rfl⟩
      · trivial
  | post => exact sound.ends (.refl map)
  | clear topic =>
      refine (sound.clear topic).ends ?_
      rw [TopicMap.clear]
      split
      · exact .refl map
      · exact ⟨List.prefix_rfl, List.prefix_rfl⟩

/-! ## Steps that are not timely -/

/-- If subscriptions still reach the map when one has been entered, it was not there, and in the
topic in the map. -/
theorem timely_of_enter {subscriber : S} {topic : TopicRef} {began : Nat}
    (reaches : (map.enterSubscription topic subscriber began).Reaches) :
    map.Timely (.enter subscriber topic began) := by
  constructor
  · rintro subscribed live ⟨rfl, rfl⟩
    have nodup := reaches.single
    change ((map.live ++ [_]).map _).Nodup at nodup
    rw [List.map_append, List.map_singleton, List.nodup_append] at nodup
    exact nodup.2.2 _ (List.mem_map_of_mem live) _ (List.mem_singleton_self _) rfl
  · by_cases disturbed : map.Disturbed ⟨map.freshNode, topic, subscriber, began⟩
    · exact .inr disturbed
    · exact .inl (reaches.mapped _ (List.mem_append_right _ (List.mem_singleton_self _))
        disturbed).2

/-- What is not there any more was disturbed. -/
theorem Sound.disturbed_of_removed (sound : map.Sound) {subscribed : Subscribed S}
    (live : subscribed ∈ map.live) (reaches : (map.unsubscribe subscribed).Reaches) :
    map.Disturbed subscribed := by
  by_contra undisturbed
  have stays := (reaches.mapped subscribed (sound.known subscribed live) undisturbed).1
  exact (List.Nodup.not_mem_erase sound.single.of_map) stays

theorem Sound.timely_of_reaches (sound : map.Sound) {operation : Operation S}
    (reaches : (map.advance operation).1.Reaches) : map.Timely operation := by
  cases operation with
  | enter subscriber topic began => exact timely_of_enter reaches
  | unsubscribe subscriber =>
      intro unlocked topic entry subscribed found
      apply sound.disturbed_of_removed (find_spec found).1
      have step : (map.advance (.unsubscribe subscriber)).1 = map.unsubscribe subscribed ∨
          (map.advance (.unsubscribe subscriber)).1 =
            { map.unsubscribe subscribed with locked := true } := by
        simp only [TopicMap.advance, unlocked, entry, found, Bool.false_eq_true, ↓reduceIte]
        split
        · exact .inr rfl
        · exact .inl rfl
      rcases step with same | same
      · exact same ▸ reaches
      · rw [same] at reaches
        exact { reaches with }
  | dropTopic =>
      intro subscribed live _
      exact sound.disturbed_of_unmapped { reaches with } live
  | popTopic =>
      intro unlocked subscribed live entry
      have step : (map.advance .popTopic).1 = { map with entry := none } := by
        simp only [TopicMap.advance, unlocked, entry, Bool.false_eq_true, ↓reduceIte]
      exact sound.disturbed_of_unmapped (step ▸ reaches) live
  | _ => trivial

/-! ## Every interleaving -/

section Runs

variable [DecidableEq ι]

/-- Subscriptions reach the topic in the map in a state of the threads. -/
def ReachesNow (threads : Threads ι S) : Prop := threads.shared.Reaches

def TimelyStep (threads : Threads ι S) (choice : Choice ι S) : Prop :=
  Interleaving.Meets Timely threads choice

theorem holds_step {threads : Threads ι S} {choice : Choice ι S}
    (holds : (outline (ι := ι) (S := S)).Holds threads) (timely : TimelyStep threads choice) :
    outline.Holds ((program ι S).step threads choice) := by
  refine holds.step (fun thread call _ _ => (holds.shared.keeps_begin call).outline)
    fun thread input operation isAdvance running aware => ?_
  exact (holds.shared.advance aware (timely thread input operation isAdvance running)).outline

theorem timelyStep_of_reaches {threads : Threads ι S} {choice : Choice ι S}
    (holds : (outline (ι := ι) (S := S)).Holds threads)
    (reaches : ReachesNow ((program ι S).step threads choice)) : TimelyStep threads choice := by
  rintro thread input operation rfl running
  rw [Interleaving.Program.step_advance running] at reaches
  exact holds.shared.timely_of_reaches reaches

/-- **Subscriptions and the topic map.** In every interleaving the subscriptions that were
entered and that no later call takes away reach the topic in the map all along, once for each
subscriber and topic, exactly when every step is timely. -/
theorem subscriptions_reach_iff (choices : List (Choice ι S)) :
    Run.Always (program ι S).step ReachesNow (fun _ _ => True) (.idle start) choices ↔
      Run.Steps (program ι S).step TimelyStep (.idle start) choices :=
  Run.always_iff_steps (fun threads => outline.Holds threads)
    (fun _ holds => holds.shared.toReaches)
    (fun _ _ holds timely => ⟨trivial, holds_step holds timely⟩)
    (fun _ _ holds untimely ⟨_, reaches⟩ => untimely (timelyStep_of_reaches holds reaches))
    (.idle sound_start) choices

end Runs

/-- Subscriber 1 has subscribed to a topic that keeps the latest content. Subscriber 2 has found
the topic, subscriber 1 unsubscribes, which takes the topic out of the map, and subscriber 2
is entered in it. -/
def enteredInDropped : List (Choice Bool Nat) :=
  [.call false (.subscribe 1 (some .oneTopic)), .advance false (), .advance false (),
    .advance false (), .advance false (), .call true (.subscribe 2 (some .oneTopic)),
    .advance true (), .advance true (), .call false (.unsubscribe 1), .advance false (),
    .advance false (), .advance false (), .advance true (), .advance true ()]

/-- Two threads subscribe the same subscriber, and both ask whether the topic has it before
either enters it. -/
def enteredTwice : List (Choice Bool Nat) :=
  [.call false (.subscribe 1 (some .otherTopic)), .advance false (), .advance false (),
    .call true (.subscribe 1 (some .otherTopic)), .advance true (), .advance true (),
    .advance false (), .advance true (), .advance false (), .advance true ()]

/-- Subscriber 2 hangs on a topic that no publication finds, and subscriber 1 is subscribed
twice. -/
theorem subscriptions_not_reach :
    ¬ Run.Always (program Bool Nat).step ReachesNow (fun _ _ => True) (.idle start)
      enteredInDropped ∧
    ¬ Run.Always (program Bool Nat).step ReachesNow (fun _ _ => True) (.idle start)
      enteredTwice := by
  constructor
  · intro always
    have mapped := always.final.mapped ⟨1, 0, 2, 0⟩ (by decide) (by decide)
    exact absurd mapped.2 (by decide)
  · intro always
    exact absurd always.final.single (by decide)

end Cube.Eco.Thread.TopicMap
