import Cube.Base.TQueuePosts

/-! # Getting from the ticket queue

Every step of a get keeps the invariant, the recycling of a page among them: the thread that counts
the last message of a page is the only one that can still lead to it.
-/

namespace Cube.Base.TQueue

variable {ι μ : Type} {pageBits : Nat} {record : Record ι μ}

/-! ## Stages of one ticket -/

theorem le_update_succ (laps : Nat → Nat) (index other : Nat) :
    laps other ≤ Function.update laps index (laps index + 1) other := by
  rcases eq_or_ne other index with rfl | different
  · rw [Function.update_self]
    exact Nat.le_succ _
  · rw [Function.update_of_ne different]

theorem getter_done_iff {getter : Nat → GetStage ι} {ticket : Nat} (stage : GetStage ι)
    (before : getter ticket ≠ .done) (after : stage ≠ .done) (other : Nat) :
    Function.update getter ticket stage other = .done ↔ getter other = .done := by
  rcases eq_or_ne other ticket with rfl | different
  · rw [Function.update_self]
    exact ⟨fun done => absurd done after, fun done => absurd done before⟩
  · rw [Function.update_of_ne different]

theorem isCounted_update {getter : Nat → GetStage ι} {ticket : Nat} {stage : GetStage ι}
    (same : stage.isCounted = (getter ticket).isCounted) (other : Nat) :
    (Function.update getter ticket stage other).isCounted = (getter other).isCounted := by
  rcases eq_or_ne other ticket with rfl | different
  · rw [Function.update_self, same]
  · rw [Function.update_of_ne different]

/-- Another stage that is counted as before does not change what is counted of a page. -/
theorem countedOf_congr {other : Record ι μ}
    (same : ∀ ticket, (other.getter ticket).isCounted = (record.getter ticket).isCounted)
    (number : Nat) : other.countedOf number = record.countedOf number := by
  apply Finset.filter_congr
  intro index _
  rw [same]

theorem GetStage.ne_done_of_isCounted {stage : GetStage ι} (notCounted : stage.isCounted = false) :
    stage ≠ .done := by
  rintro rfl
  cases notCounted

/-- **A get that goes on**, and has not counted its message yet. -/
theorem Sound.getsOn (sound : Sound pageBits record) {ticket next : Nat} {stage : GetStage ι}
    (before : (record.getter ticket).isCounted = false) (after : stage.isCounted = false)
    (ordered : next ≤ record.queue.postIndex)
    (getting : ∀ other, Function.update record.getter ticket stage other = .untaken ↔ next ≤ other)
    (lap : stage.isFound = true →
      turn pageBits ticket ≤ record.laps (pageIndex pageBits ticket))
    (isSeen : stage.isSeen = true → record.poster ticket = .done)
    (holds : ∀ page, stage.page = some page →
      record.queue.pageIndexes (pageIndex pageBits ticket) = some page) :
    Sound pageBits (record.gets { record.queue with getIndex := next } ticket stage) := by
  have update_done := getter_done_iff stage (GetStage.ne_done_of_isCounted before)
    (GetStage.ne_done_of_isCounted after)
  exact
    { sound with
      ordered := ordered
      getting := getting
      turns := fun other lookedUp => by
        rcases lookedUp with found | found
        · exact sound.turns other (.inl found)
        · change GetStage.isFound (Function.update record.getter _ _ other) = true at found
          rcases eq_or_ne other ticket with rfl | different
          · rw [Function.update_self] at found
            exact lap found
          · rw [Function.update_of_ne different] at found
            exact sound.turns other (.inr found)
      past := fun other earlier => (update_done other).mpr (sound.past other earlier)
      seen := fun other seen => by
        change GetStage.isSeen (Function.update record.getter _ _ other) = true at seen
        rcases eq_or_ne other ticket with rfl | different
        · rw [Function.update_self] at seen
          exact isSeen seen
        · rw [Function.update_of_ne different] at seen
          exact sound.seen other seen
      getPage := fun other page held => by
        change GetStage.page (Function.update record.getter _ _ other) = _ at held
        rcases eq_or_ne other ticket with rfl | different
        · rw [Function.update_self] at held
          exact holds page held
        · rw [Function.update_of_ne different] at held
          exact sound.getPage other page held
      counts := fun other current => by
        rw [countedOf_congr (isCounted_update (after.trans before.symm))]
        exact sound.counts other current
      unread := fun other current => by
        obtain ⟨third, page, unread⟩ := sound.unread other current
        exact ⟨third, page, fun done => unread ((update_done third).mp done)⟩
      recycler := fun other thread counted third samePage apart => by
        refine (update_done third).mpr (sound.recycler other thread ?_ third samePage apart)
        change Function.update record.getter _ _ other = _ at counted
        rcases eq_or_ne other ticket with rfl | different
        · rw [Function.update_self] at counted
          rw [counted] at after
          cases after
        · rw [Function.update_of_ne different] at counted
          exact counted
      returned := fun other => (sound.returned other).trans (update_done other).symm }

/-- A get of a ticket that was taken goes on. -/
theorem Sound.getting_update (sound : Sound pageBits record) {ticket : Nat} {stage : GetStage ι}
    (taken : record.getter ticket ≠ .untaken) (stays : stage ≠ .untaken) (other : Nat) :
    Function.update record.getter ticket stage other = .untaken ↔
      record.queue.getIndex ≤ other := by
  rcases eq_or_ne other ticket with rfl | different
  · rw [Function.update_self]
    exact ⟨fun untaken => absurd untaken stays,
      fun untaken => absurd ((sound.getting other).mpr untaken) taken⟩
  · rw [Function.update_of_ne different]
    exact sound.getting other

theorem PostStage.isFound_of_page {stage : PostStage ι} {page : Nat}
    (held : stage.page = some page) : stage.isFound = true := by
  cases stage with
  | untaken => cases held
  | taken => cases held
  | _ => rfl

theorem GetStage.isFound_of_page {stage : GetStage ι} {page : Nat}
    (held : stage.page = some page) : stage.isFound = true := by
  cases stage with
  | untaken => cases held
  | taken => cases held
  | _ => rfl

theorem GetStage.isFound_of_isCounted {stage : GetStage ι} (counted : stage.isCounted = true) :
    stage.isFound = true := by
  cases stage with
  | untaken => cases counted
  | taken => cases counted
  | _ => rfl

/-! ## Before a message is read -/

/-- A get takes a ticket. -/
theorem Sound.getExchange (sound : Sound pageBits record) (thread : ι) {index : Nat}
    (posted : index < record.queue.postIndex) :
    Sound pageBits (record.step pageBits thread (.getExchange index)).1 := by
  rw [Record.step]
  split
  next same =>
    have untaken := (sound.getting index).mpr (Nat.le_of_eq same)
    apply sound.getsOn
    · rw [untaken]
      rfl
    · rfl
    · exact posted
    · intro other
      rcases eq_or_ne other index with rfl | different
      · rw [Function.update_self]
        exact ⟨by rintro ⟨⟩, fun later => absurd later (Nat.not_succ_le_self _)⟩
      · rw [Function.update_of_ne different, sound.getting, same]
        exact ⟨fun later => Nat.lt_of_le_of_ne later different.symm, Nat.le_of_succ_le⟩
    · rintro ⟨⟩
    · rintro ⟨⟩
    · rintro _ ⟨⟩
  next => exact sound

theorem Sound.getLookup (sound : Sound pageBits record) {ticket : Nat} {thread : ι}
    (stage : record.getter ticket = .taken thread)
    (recycled : turn pageBits ticket ≤ record.laps (pageIndex pageBits ticket)) :
    Sound pageBits (record.step pageBits thread (.getLookup ticket)).1 := by
  obtain ⟨looked, there⟩ := sound.getMsgPage (pageIndex pageBits ticket)
  apply looked.getsOn
  · rw [stage]
    rfl
  · rfl
  · exact looked.ordered
  · apply looked.getting_update
    · rw [stage]
      exact nofun
    · exact nofun
  · exact fun _ => recycled
  · exact nofun
  · rintro page ⟨⟩
    exact there

/-- A flag that is set says that the post is done. -/
theorem Sound.getTest (sound : Sound pageBits record) {ticket page : Nat} {thread : ι}
    (stage : record.getter ticket = .found thread page) :
    Sound pageBits (record.step pageBits thread (.getTest ticket page)).1 := by
  have there := sound.getPage ticket page (by rw [stage]; rfl)
  have current := sound.current_of_getter (by rw [stage]; rfl) (by rw [stage]; rintro ⟨⟩)
  rw [Record.step, sound.uses_eq there]
  split
  next flag =>
    apply sound.getsOn
    · rw [stage]
      rfl
    · rfl
    · exact sound.ordered
    · apply sound.getting_update
      · rw [stage]
        rintro ⟨⟩
      · rintro ⟨⟩
    · exact fun _ => Nat.le_of_eq current
    · exact fun _ => (sound.flags ticket page current there).mp flag
    · rintro _ ⟨⟩
      exact there
  next => exact sound

theorem Sound.getSlot (sound : Sound pageBits record) {ticket page : Nat} {thread : ι}
    (stage : record.getter ticket = .flagged thread page) :
    Sound pageBits (record.step pageBits thread (.getSlot ticket page)).1 := by
  have there := sound.getPage ticket page (by rw [stage]; rfl)
  have current := sound.current_of_getter (by rw [stage]; rfl) (by rw [stage]; rintro ⟨⟩)
  rw [Record.step, sound.uses_eq there]
  apply sound.getsOn
  · rw [stage]
    rfl
  · rfl
  · exact sound.ordered
  · apply sound.getting_update
    · rw [stage]
      rintro ⟨⟩
    · rintro ⟨⟩
  · exact fun _ => Nat.le_of_eq current
  · exact fun _ => sound.seen ticket (by rw [stage]; rfl)
  · rintro _ ⟨⟩

/-- What is read is what was posted. -/
theorem Sound.slot_eq (sound : Sound pageBits record) {ticket page : Nat} {thread : ι}
    (stage : record.getter ticket = .flagged thread page) :
    (record.queue.pages page (msgIndex ticket)).msg = record.posted ticket := by
  have there := sound.getPage ticket page (by rw [stage]; rfl)
  have current := sound.current_of_getter (by rw [stage]; rfl) (by rw [stage]; exact nofun)
  have done := sound.seen ticket (by rw [stage]; rfl)
  exact sound.msgs ticket page current there (by rw [done]; rfl)

/-! ## Counting a message -/

theorem pageMsgCount_pos : 0 < pageMsgCount := Nat.zero_lt_succ _

theorem msgIndex_lt (ticket : Nat) : msgIndex ticket < pageMsgCount := by
  rw [msgIndex_eq]
  exact Nat.mod_lt _ pageMsgCount_pos

/-- A ticket is the place in its page, and the page. -/
theorem ticket_parts {number ticket : Nat} (page : pageNumber ticket = number) :
    number * pageMsgCount + msgIndex ticket = ticket := by
  rw [← page, Nat.mul_comm, msgIndex_eq]
  exact Nat.div_add_mod ticket pageMsgCount

theorem mem_countedOf (record : Record ι μ) {number ticket : Nat} (page : pageNumber ticket = number) :
    msgIndex ticket ∈ record.countedOf number ↔ (record.getter ticket).isCounted = true := by
  rw [Record.countedOf, Finset.mem_filter, Finset.mem_range, ticket_parts page,
    and_iff_right (msgIndex_lt ticket)]

theorem pageNumber_parts (number : Nat) {index : Nat} (below : index < pageMsgCount) :
    pageNumber (number * pageMsgCount + index) = number := by
  rw [pageNumber, Nat.add_comm, Nat.add_mul_div_right _ _ pageMsgCount_pos,
    Nat.div_eq_of_lt below, Nat.zero_add]

theorem msgIndex_parts (number : Nat) {index : Nat} (below : index < pageMsgCount) :
    msgIndex (number * pageMsgCount + index) = index := by
  rw [msgIndex_eq, Nat.mul_comm, Nat.mul_add_mod, Nat.mod_eq_of_lt below]

section Counting

variable {ticket : Nat} {stage : GetStage ι} {other : Record ι μ}

/-- A ticket of another page does not change what is counted of a page. -/
theorem countedOf_of_ne (getters : other.getter = Function.update record.getter ticket stage)
    {number : Nat} (page : pageNumber ticket ≠ number) :
    other.countedOf number = record.countedOf number := by
  apply Finset.filter_congr
  intro index below
  have different : number * pageMsgCount + index ≠ ticket := by
    rintro rfl
    exact page (pageNumber_parts number (Finset.mem_range.mp below))
  rw [getters, Function.update_of_ne different]

/-- A ticket that is counted for the first time is one more of its page. -/
theorem card_countedOf (other : Record ι μ)
    (getters : other.getter = Function.update record.getter ticket stage)
    (before : (record.getter ticket).isCounted = false) (counted : stage.isCounted = true) :
    (other.countedOf (pageNumber ticket)).card =
      (record.countedOf (pageNumber ticket)).card + 1 := by
  have absent : msgIndex ticket ∉ record.countedOf (pageNumber ticket) := by
    rw [mem_countedOf record rfl, before]
    exact nofun
  have grows : other.countedOf (pageNumber ticket) =
      insert (msgIndex ticket) (record.countedOf (pageNumber ticket)) := by
    ext index
    rw [Finset.mem_insert]
    by_cases below : index < pageMsgCount
    · have page := pageNumber_parts (pageNumber ticket) below
      have place := msgIndex_parts (pageNumber ticket) below
      have memOther := mem_countedOf other page
      have mem := mem_countedOf record page
      rw [place, getters] at memOther
      rw [place] at mem
      rw [memOther, mem]
      rcases eq_or_ne index (msgIndex ticket) with rfl | different
      · rw [ticket_parts rfl, Function.update_self]
        simp only [counted, true_or]
      · rw [Function.update_of_ne, or_iff_right different]
        intro same
        rw [same] at place
        exact different place.symm
    · have outside {either : Record ι μ} : index ∉ either.countedOf (pageNumber ticket) := fun member =>
        below (Finset.mem_range.mp (Finset.mem_filter.mp member).1)
      refine ⟨fun member => absurd member outside, ?_⟩
      rintro (rfl | member)
      · exact absurd (msgIndex_lt ticket) below
      · exact absurd member outside
  rw [grows, Finset.card_insert_of_notMem absent]

/-- All tickets of a page are counted if as many are counted as there are. -/
theorem isCounted_of_card {number : Nat} (all : (record.countedOf number).card = pageMsgCount)
    {ticket : Nat} (page : pageNumber ticket = number) :
    (record.getter ticket).isCounted = true := by
  have whole : record.countedOf number = Finset.range pageMsgCount :=
    Finset.eq_of_subset_of_card_le (Finset.filter_subset _ _) (by rw [all, Finset.card_range])
  rw [← mem_countedOf record page, whole, Finset.mem_range]
  exact msgIndex_lt ticket

end Counting

section Reading

variable {ticket : Nat} {thread : ι} (sound : Sound pageBits record)
  (stage : record.getter ticket = .read thread)
include sound stage

/-- While a message is being read, the other tickets of its page that are counted are done. -/
theorem Sound.done_of_isCounted {other : Nat} (page : pageNumber other = pageNumber ticket)
    (counted : (record.getter other).isCounted = true) : record.getter other = .done := by
  cases stageOther : record.getter other with
  | done => rfl
  | counted recycling =>
      have apart : ticket ≠ other := by
        rintro rfl
        rw [stage] at stageOther
        cases stageOther
      have done := sound.recycler other recycling stageOther ticket page.symm apart
      rw [stage] at done
      cases done
  | _ =>
      rw [stageOther] at counted
      cases counted

/-- The counter of the page after the message was counted. -/
theorem Sound.counts_read {other : Record ι μ} {third : Nat}
    (currentThird : other.Current pageBits third) (laps : other.laps = record.laps)
    {after : GetStage ι} (getters : other.getter = Function.update record.getter ticket after)
    (counted : after.isCounted = true)
    (counter : other.queue.pageCounter = Function.update record.queue.pageCounter
      (pageIndex pageBits ticket) (record.queue.pageCounter (pageIndex pageBits ticket) + 1)) :
    other.queue.pageCounter (pageIndex pageBits third) =
      (other.countedOf (pageNumber third)).card := by
  have current := sound.current_of_getter (by rw [stage]; rfl) (by rw [stage]; exact nofun)
  rw [Record.Current, laps] at currentThird
  rw [counter]
  by_cases same : pageIndex pageBits third = pageIndex pageBits ticket
  · rw [current.same_page currentThird same, same, Function.update_self,
      card_countedOf other getters (by rw [stage]; rfl) counted]
    exact congrArg (· + 1) (sound.counts ticket current)
  · have apart : pageNumber ticket ≠ pageNumber third := fun page =>
      same (pageIndex_of_pageNumber page.symm)
    rw [Function.update_of_ne same, countedOf_of_ne getters apart]
    exact sound.counts third currentThird

/-- A message that is not the last of its page to be counted leaves others unread. -/
theorem Sound.unread_of_count
    (more : record.queue.pageCounter (pageIndex pageBits ticket) ≠ pageMsgIndexMask) :
    ∃ other, pageNumber other = pageNumber ticket ∧
      Function.update record.getter ticket .done other ≠ .done := by
  by_contra nothing
  have all {other : Nat} (page : pageNumber other = pageNumber ticket) :
      Function.update record.getter ticket .done other = .done :=
    Classical.byContradiction fun unread => nothing ⟨other, page, unread⟩
  have current := sound.current_of_getter (by rw [stage]; rfl) (by rw [stage]; exact nofun)
  have counted := card_countedOf (record.gets record.queue ticket .done) rfl
    (by rw [stage]; rfl) rfl
  have whole : (record.gets record.queue ticket .done).countedOf (pageNumber ticket) =
      Finset.range pageMsgCount := by
    apply Finset.filter_true_of_mem
    intro index below
    change GetStage.isCounted (Function.update record.getter _ _ _) = true
    rw [all (pageNumber_parts _ (Finset.mem_range.mp below))]
    rfl
  rw [whole, Finset.card_range, ← sound.counts ticket current] at counted
  exact more (Nat.succ.inj counted.symm)

end Reading

/-! ## Returning a message -/

section Returning

variable {ticket : Nat} {msg : Option μ}

theorem getter_done (getter : Nat → GetStage ι) {other : Nat} (done : getter other = .done) :
    Function.update getter ticket .done other = .done := by
  rcases eq_or_ne other ticket with rfl | different
  · exact Function.update_self ..
  · exact (Function.update_of_ne different ..).trans done

/-- A get that has returned its message is no other get that is under way. -/
theorem of_update_done {getter : Nat → GetStage ι} {other : Nat} {stage : GetStage ι}
    (standing : Function.update getter ticket .done other = stage) (underWay : stage ≠ .done) :
    other ≠ ticket ∧ getter other = stage := by
  rcases eq_or_ne other ticket with rfl | different
  · rw [Function.update_self] at standing
    exact absurd standing.symm underWay
  · exact ⟨different, (Function.update_of_ne different ..).symm.trans standing⟩

/-- Returning a message looks no page up. -/
theorem lookedUp_update {stage : GetStage ι} {after : Record ι μ} {other : Nat}
    (lookedUp : after.LookedUp other) (before : (record.getter ticket).isFound = true)
    (posters : after.poster = record.poster)
    (getters : after.getter = Function.update record.getter ticket stage) :
    record.LookedUp other := by
  rw [Record.LookedUp, posters, getters] at lookedUp
  rcases lookedUp with found | found
  · exact .inl found
  · rcases eq_or_ne other ticket with rfl | different
    · exact .inr before
    · rw [Function.update_of_ne different] at found
      exact .inr found

variable (sound : Sound pageBits record)
include sound

theorem Sound.returned_update (other : Nat) :
    other ∈ (record.results ++ [(ticket, msg)]).map Prod.fst ↔
      Function.update record.getter ticket .done other = .done := by
  rw [List.map_append, List.mem_append, List.map_singleton, List.mem_singleton, sound.returned]
  rcases eq_or_ne other ticket with rfl | different
  · simp only [or_true, Function.update_self]
  · simp only [different, or_false, Function.update_of_ne different]

theorem Sound.once_append (underWay : record.getter ticket ≠ .done) :
    ((record.results ++ [(ticket, msg)]).map Prod.fst).Nodup := by
  rw [List.map_append, List.map_singleton, ← List.concat_eq_append]
  exact sound.once.concat fun member => underWay ((sound.returned ticket).mp member)

theorem Sound.values_append (posted : record.posted ticket = msg) :
    ∀ result ∈ record.results ++ [(ticket, msg)], record.posted result.1 = result.2 := by
  intro result member
  rcases List.mem_append.mp member with earlier | last
  · exact sound.values result earlier
  · rw [List.mem_singleton.mp last]
    exact posted

/-- A get under way that has returned its message leaves the other gets as they were. -/
theorem Sound.getting_done (taken : record.getter ticket ≠ .untaken) (other : Nat) :
    Function.update record.getter ticket .done other = .untaken ↔
      record.queue.getIndex ≤ other :=
  sound.getting_update taken (fun untaken => by cases untaken) other

theorem Sound.seen_done (isSeen : (record.getter ticket).isSeen = true) (other : Nat)
    (seen : (Function.update record.getter ticket .done other).isSeen = true) :
    record.poster other = .done := by
  rcases eq_or_ne other ticket with rfl | different
  · exact sound.seen other isSeen
  · rw [Function.update_of_ne different] at seen
    exact sound.seen other seen

theorem Sound.getPage_done (other page : Nat)
    (held : (Function.update record.getter ticket .done other).page = some page) :
    other ≠ ticket ∧ record.queue.pageIndexes (pageIndex pageBits other) = some page := by
  rcases eq_or_ne other ticket with rfl | different
  · rw [Function.update_self] at held
    cases held
  · rw [Function.update_of_ne different] at held
    exact ⟨different, sound.getPage other page held⟩

end Returning

/-- **The page counter.** The message is counted as read, and returned, unless it is the last of
its page. -/
theorem Sound.getCount (sound : Sound pageBits record) {ticket : Nat} {thread : ι} {msg : Option μ}
    (stage : record.getter ticket = .read thread) (posted : record.posted ticket = msg) :
    Sound pageBits (record.step pageBits thread (.getCount ticket msg)).1 := by
  have taken : record.getter ticket ≠ .untaken := by
    rw [stage]
    rintro ⟨⟩
  have underWay : record.getter ticket ≠ .done := by
    rw [stage]
    rintro ⟨⟩
  have isSeen : (record.getter ticket).isSeen = true := by rw [stage]; rfl
  have isFound : (record.getter ticket).isFound = true := by rw [stage]; rfl
  have current := sound.current_of_getter isFound underWay
  rw [Record.step]
  dsimp only
  split
  next last =>
    have update_done := getter_done_iff (.counted thread) underWay (by rintro ⟨⟩)
    have all {other : Nat} (page : pageNumber other = pageNumber ticket) (apart : other ≠ ticket) :
        record.getter other = .done := by
      apply sound.done_of_isCounted stage page
      have counted := card_countedOf (record.gets record.queue ticket (.counted thread))
        rfl (by rw [stage]; rfl) rfl
      rw [← sound.counts ticket current, last] at counted
      rw [← isCounted_of_card counted page]
      change _ = GetStage.isCounted (Function.update record.getter _ _ other)
      rw [Function.update_of_ne apart]
    exact
      { sound with
        getting := sound.getting_update taken (by rintro ⟨⟩)
        turns := fun other lookedUp => sound.turns other (lookedUp_update lookedUp isFound rfl rfl)
        past := fun other earlier => (update_done other).mpr (sound.past other earlier)
        seen := fun other seen => by
          change GetStage.isSeen (Function.update record.getter _ _ other) = true at seen
          rcases eq_or_ne other ticket with rfl | different
          · exact sound.seen other isSeen
          · rw [Function.update_of_ne different] at seen
            exact sound.seen other seen
        getPage := fun other page held => by
          change GetStage.page (Function.update record.getter _ _ other) = _ at held
          rcases eq_or_ne other ticket with rfl | different
          · rw [Function.update_self] at held
            cases held
          · rw [Function.update_of_ne different] at held
            exact sound.getPage other page held
        counts := fun _ currentOther => sound.counts_read stage currentOther rfl rfl rfl rfl
        unread := fun other currentOther => by
          obtain ⟨third, page, unread⟩ := sound.unread other currentOther
          exact ⟨third, page, fun done => unread ((update_done third).mp done)⟩
        recycler := fun other recycling counted third page apart => by
          apply (update_done third).mpr
          change Function.update record.getter _ _ other = _ at counted
          rcases eq_or_ne other ticket with rfl | different
          · exact all page apart
          · rw [Function.update_of_ne different] at counted
            exact sound.recycler other recycling counted third page apart
        returned := fun other => (sound.returned other).trans (update_done other).symm }
  next more =>
    exact
      { sound with
        getting := sound.getting_done taken
        turns := fun other lookedUp => sound.turns other (lookedUp_update lookedUp isFound rfl rfl)
        past := fun other earlier => getter_done record.getter (sound.past other earlier)
        seen := sound.seen_done isSeen
        getPage := fun other page held => (sound.getPage_done other page held).2
        counts := fun _ currentOther => sound.counts_read stage currentOther rfl rfl rfl rfl
        unread := fun other currentOther => by
          by_cases page : pageNumber ticket = pageNumber other
          · rw [← page]
            exact sound.unread_of_count stage more
          · obtain ⟨third, pageThird, unread⟩ := sound.unread other currentOther
            refine ⟨third, pageThird, fun done => unread ?_⟩
            have apart : third ≠ ticket := by
              rintro rfl
              exact page pageThird
            exact (Function.update_of_ne apart ..).symm.trans done
        recycler := fun other recycling counted third page apart =>
          getter_done record.getter (sound.recycler other recycling
            (of_update_done counted (by rintro ⟨⟩)).2 third page apart)
        returned := sound.returned_update
        once := sound.once_append underWay
        values := sound.values_append posted }

section NextPage

variable (sound : Sound pageBits record) {ticket : Nat}
include sound

/-- No page was looked up yet for a ticket that leads to the next page at the index. -/
theorem Sound.not_lookedUp_next {other : Nat}
    (index : pageIndex pageBits other = pageIndex pageBits ticket)
    (next : turn pageBits other = record.laps (pageIndex pageBits ticket) + 1) :
    ¬ record.LookedUp other := by
  intro lookedUp
  have turns := sound.turns other lookedUp
  rw [index, next] at turns
  exact Nat.not_succ_le_self _ turns

/-- A recycled page index is used for the next page; every other one as before. -/
theorem Sound.current_recycled {other : Nat} {after : Record ι μ}
    (laps : after.laps = Function.update record.laps (pageIndex pageBits ticket)
      (record.laps (pageIndex pageBits ticket) + 1))
    (current : after.Current pageBits other) :
    pageIndex pageBits other = pageIndex pageBits ticket ∧ ¬ record.LookedUp other ∨
      pageIndex pageBits other ≠ pageIndex pageBits ticket ∧ record.Current pageBits other := by
  rw [Record.Current, laps] at current
  by_cases index : pageIndex pageBits other = pageIndex pageBits ticket
  · rw [index, Function.update_self] at current
    exact .inl ⟨index, sound.not_lookedUp_next index current⟩
  · rw [Function.update_of_ne index] at current
    exact .inr ⟨index, current⟩

end NextPage

section Recycling

variable (sound : Sound pageBits record) {ticket : Nat} {thread : ι}
  (stage : record.getter ticket = .counted thread)
include sound stage

/-- **The last reader of a page.** Every other ticket that leads to the page is done. -/
theorem Sound.alone {other : Nat} (index : pageIndex pageBits other = pageIndex pageBits ticket)
    (lookedUp : record.LookedUp other) (apart : other ≠ ticket) :
    record.getter other = .done := by
  by_contra underWay
  have current := sound.current_of_getter (by rw [stage]; rfl) (by rw [stage]; exact nofun)
  have page := current.same_page (sound.current lookedUp underWay) index
  exact underWay (sound.recycler ticket thread stage other page apart)

/-- There is a page to be recycled. -/
theorem Sound.page_of_counted :
    ∃ page, record.queue.pageIndexes (pageIndex pageBits ticket) = some page := by
  have current := sound.current_of_getter (by rw [stage]; rfl) (by rw [stage]; exact nofun)
  have done := sound.seen ticket (by rw [stage]; rfl)
  exact Option.ne_none_iff_exists'.mp (sound.donePage ticket current done)

/-- No post leads to a page that is recycled. -/
theorem Sound.postPage_ne {other page : Nat} (held : (record.poster other).page = some page) :
    pageIndex pageBits other ≠ pageIndex pageBits ticket := by
  intro index
  have poster : record.poster other = .done := by
    rcases eq_or_ne other ticket with rfl | apart
    · exact sound.seen other (by rw [stage]; rfl)
    · have lookedUp : record.LookedUp other := .inl (PostStage.isFound_of_page held)
      exact sound.seen other (by rw [sound.alone stage index lookedUp apart]; rfl)
  rw [poster] at held
  cases held

/-- No other get leads to a page that is recycled. -/
theorem Sound.getPage_ne {other page : Nat} (held : (record.getter other).page = some page) :
    pageIndex pageBits other ≠ pageIndex pageBits ticket := by
  intro index
  have apart : other ≠ ticket := by
    rintro rfl
    rw [stage] at held
    cases held
  rw [sound.alone stage index (.inr (GetStage.isFound_of_page held)) apart] at held
  cases held

/-- Nothing is counted of a page before its tickets are taken. -/
theorem Sound.countedOf_next {other : Nat} {after : Record ι μ}
    (getters : after.getter = Function.update record.getter ticket .done)
    (index : pageIndex pageBits other = pageIndex pageBits ticket)
    (next : turn pageBits other = record.laps (pageIndex pageBits ticket) + 1) :
    (after.countedOf (pageNumber other)).card = 0 := by
  rw [Finset.card_eq_zero]
  apply Finset.filter_eq_empty_iff.mpr
  intro place below
  have page := pageNumber_parts (pageNumber other) (Finset.mem_range.mp below)
  have absent := sound.not_lookedUp_next ((pageIndex_of_pageNumber page).trans index)
    ((turn_of_pageNumber page).trans next)
  have apart : pageNumber other * pageMsgCount + place ≠ ticket := by
    rintro same
    rw [same] at absent
    exact absent (.inr (by rw [stage]; rfl))
  rw [getters, Function.update_of_ne apart]
  exact fun counted => absent (.inr (GetStage.isFound_of_isCounted counted))

/-- The messages of the page that is recycled are past. -/
theorem Sound.past_recycled (other : Nat)
    (earlier : turn pageBits other < Function.update record.laps (pageIndex pageBits ticket)
      (record.laps (pageIndex pageBits ticket) + 1) (pageIndex pageBits other)) :
    Function.update record.getter ticket .done other = .done := by
  have current := sound.current_of_getter (by rw [stage]; rfl) (by rw [stage]; exact nofun)
  rcases eq_or_ne other ticket with rfl | apart
  · exact Function.update_self ..
  · rw [Function.update_of_ne apart]
    by_cases index : pageIndex pageBits other = pageIndex pageBits ticket
    · rw [index, Function.update_self] at earlier
      rcases Nat.lt_or_eq_of_le (Nat.le_of_lt_succ earlier) with before | now
      · exact sound.past other (by rw [index]; exact before)
      · have page := pageNumber_eq index (now.trans current.symm)
        exact sound.recycler ticket thread stage other page apart
    · rw [Function.update_of_ne index] at earlier
      exact sound.past other earlier

section After

variable {after : Record ι μ}
  (laps : after.laps = Function.update record.laps (pageIndex pageBits ticket)
    (record.laps (pageIndex pageBits ticket) + 1))
  (getters : after.getter = Function.update record.getter ticket .done)
include laps getters

/-- The counter of a page index starts again with the next page. -/
theorem Sound.counts_recycled
    (counter : after.queue.pageCounter =
      Function.update record.queue.pageCounter (pageIndex pageBits ticket) 0)
    {other : Nat} (currentOther : after.Current pageBits other) :
    after.queue.pageCounter (pageIndex pageBits other) =
      (after.countedOf (pageNumber other)).card := by
  rw [counter]
  rcases sound.current_recycled laps currentOther with ⟨index, _⟩ | ⟨index, before⟩
  · rw [Record.Current, laps, index, Function.update_self] at currentOther
    rw [index, Function.update_self, sound.countedOf_next stage getters index currentOther]
  · have apart : pageNumber ticket ≠ pageNumber other := fun page =>
      index (pageIndex_of_pageNumber page.symm)
    rw [Function.update_of_ne index, countedOf_of_ne getters apart]
    exact sound.counts other before

/-- Nothing of the next page was read. -/
theorem Sound.unread_recycled {other : Nat} (currentOther : after.Current pageBits other) :
    ∃ third, pageNumber third = pageNumber other ∧ after.getter third ≠ .done := by
  rw [getters]
  rcases sound.current_recycled laps currentOther with ⟨_, lookedUp⟩ | ⟨index, before⟩
  · have apart : other ≠ ticket := by
      rintro rfl
      exact lookedUp (.inr (by rw [stage]; rfl))
    refine ⟨other, rfl, ?_⟩
    rw [Function.update_of_ne apart]
    exact fun done => lookedUp (.inr (by rw [done]; rfl))
  · obtain ⟨third, page, unread⟩ := sound.unread other before
    have apart : third ≠ ticket := by
      rintro rfl
      exact index (pageIndex_of_pageNumber page.symm)
    refine ⟨third, page, ?_⟩
    rw [Function.update_of_ne apart]
    exact unread

end After

end Recycling

/-- **Recycling.** The page whose last message was counted is deleted, and its index is used for
the next page. -/
theorem Sound.getRecycle (sound : Sound pageBits record) {ticket : Nat} {thread : ι}
    {msg : Option μ} (stage : record.getter ticket = .counted thread)
    (posted : record.posted ticket = msg) :
    Sound pageBits (record.step pageBits thread (.getRecycle ticket msg)).1 := by
  have isFound : (record.getter ticket).isFound = true := by rw [stage]; rfl
  obtain ⟨page, there⟩ := sound.page_of_counted stage
  rw [Record.step]
  dsimp only
  rw [recycleMsgPage, there]
  dsimp only
  exact
    { sound with
      getting := sound.getting_done (by rw [stage]; rintro ⟨⟩)
      turns := fun other lookedUp =>
        Nat.le_trans (sound.turns other (lookedUp_update lookedUp isFound rfl rfl))
          (le_update_succ ..)
      past := sound.past_recycled stage
      seen := sound.seen_done (by rw [stage]; rfl)
      postPage := fun other found held =>
        (Function.update_of_ne (sound.postPage_ne stage held) _ _).trans
          (sound.postPage other found held)
      getPage := fun other found held => by
        obtain ⟨apart, thereOther⟩ := sound.getPage_done other found held
        change GetStage.page (Function.update record.getter _ _ other) = _ at held
        rw [Function.update_of_ne apart] at held
        exact (Function.update_of_ne (sound.getPage_ne stage held) _ _).trans thereOther
      donePage := fun other currentOther done => by
        rcases sound.current_recycled rfl currentOther with ⟨_, lookedUp⟩ | ⟨index, before⟩
        · exact absurd (.inl (by rw [show record.poster other = .done from done]; rfl)) lookedUp
        · change Function.update record.queue.pageIndexes _ _ _ ≠ none
          rw [Function.update_of_ne index]
          exact sound.donePage other before done
      flags := fun other found currentOther thereOther => by
        obtain ⟨different, before⟩ := of_update_none thereOther
        rcases sound.current_recycled rfl currentOther with ⟨index, _⟩ | ⟨_, currentBefore⟩
        · exact absurd index different
        · exact sound.flags other found currentBefore before
      msgs := fun other found currentOther thereOther => by
        obtain ⟨different, before⟩ := of_update_none thereOther
        rcases sound.current_recycled rfl currentOther with ⟨index, _⟩ | ⟨_, currentBefore⟩
        · exact absurd index different
        · exact sound.msgs other found currentBefore before
      live := fun other found thereOther => by
        obtain ⟨different, before⟩ := of_update_none thereOther
        obtain ⟨allocated, deleted⟩ := sound.live other found before
        have apart : found ≠ page := by
          rintro rfl
          exact different (sound.apart other _ found before there)
        exact ⟨allocated, (Function.update_of_ne apart _ _).trans deleted⟩
      apart := fun first second found thereFirst thereSecond =>
        sound.apart first second found (of_update_none thereFirst).2 (of_update_none thereSecond).2
      fresh := fun found later => by
        have apart : found ≠ page := Nat.ne_of_gt
          (Nat.lt_of_lt_of_le (sound.live _ page there).1 later)
        exact (Function.update_of_ne apart _ _).trans (sound.fresh found later)
      counts := fun _ => sound.counts_recycled stage rfl rfl rfl
      unread := fun _ => sound.unread_recycled stage rfl rfl
      recycler := fun other recycling counted third page apart =>
        getter_done record.getter (sound.recycler other recycling
          (of_update_done counted (by rintro ⟨⟩)).2 third page apart)
      returned := sound.returned_update
      once := sound.once_append (by rw [stage]; rintro ⟨⟩)
      values := sound.values_append posted
      safe := by
        change (record.fault || !true) = false
        rw [sound.safe]
        rfl }

end Cube.Base.TQueue
