import Mathlib.Tactic.ByContra
import Cube.Base.TQueue

/-! # Posting to the ticket queue

Every step of a post keeps the invariant, if the post looks its page up only once the page index
has been recycled as often as it was used before.
-/

namespace Cube.Base.TQueue

variable {ι μ : Type} {pageBits : Nat} {record : Record ι μ}

theorem init_pageIndexes {index page : Nat}
    (found : (init : TQueue μ).pageIndexes index = some page) : index = 0 := by
  by_contra other
  change Function.update (fun _ => none) 0 (some 0) index = some page at found
  rw [Function.update_of_ne other] at found
  cases found

theorem sound_new : Sound pageBits (Record.new : Record ι μ) where
  ordered := Nat.le_refl 0
  posting ticket := ⟨fun _ => Nat.zero_le ticket, fun _ => rfl⟩
  getting ticket := ⟨fun _ => Nat.zero_le ticket, fun _ => rfl⟩
  turns _ lookedUp := by
    rcases lookedUp with found | found
    · cases found
    · cases found
  past _ before := absurd before (Nat.not_lt_zero _)
  seen := nofun
  postPage := nofun
  getPage := nofun
  donePage := nofun
  flags ticket page _ _ := ⟨nofun, nofun⟩
  msgs := nofun
  live index page found := by
    rw [init_pageIndexes found] at found
    cases found
    exact ⟨Nat.zero_lt_one, rfl⟩
  apart first second page foundFirst foundSecond :=
    (init_pageIndexes foundFirst).trans (init_pageIndexes foundSecond).symm
  fresh _ _ := rfl
  counts ticket _ := by
    refine (Finset.card_eq_zero.mpr (Finset.filter_eq_empty_iff.mpr fun index _ => ?_)).symm
    exact nofun
  unread ticket _ := ⟨ticket, rfl, nofun⟩
  recycler := nofun
  returned _ := ⟨nofun, nofun⟩
  once := List.nodup_nil
  values := nofun
  safe := rfl

/-! ## What the invariant says of a ticket -/

section Tickets

variable (sound : Sound pageBits record) {ticket : Nat}
include sound

/-- A ticket whose page was looked up and whose get is not done leads to the page that is at its
index. -/
theorem Sound.current (lookedUp : record.LookedUp ticket)
    (getting : record.getter ticket ≠ .done) : record.Current pageBits ticket :=
  Nat.le_antisymm (sound.turns ticket lookedUp)
    (Nat.le_of_not_lt fun before => getting (sound.past ticket before))

theorem Sound.taken_of_poster (stage : record.poster ticket ≠ .untaken) :
    ticket < record.queue.postIndex :=
  Nat.lt_of_not_le fun untaken => stage ((sound.posting ticket).mpr untaken)

theorem Sound.taken_of_getter (stage : record.getter ticket ≠ .untaken) :
    ticket < record.queue.postIndex :=
  Nat.lt_of_lt_of_le (Nat.lt_of_not_le fun untaken => stage ((sound.getting ticket).mpr untaken))
    sound.ordered

/-- A post that is under way leads to the page that is at its index. -/
theorem Sound.current_of_poster (found : (record.poster ticket).isFound = true)
    (underWay : record.poster ticket ≠ .done) : record.Current pageBits ticket := by
  apply sound.current (.inl found)
  intro done
  exact underWay (sound.seen ticket (by rw [done]; rfl))

theorem Sound.current_of_getter (found : (record.getter ticket).isFound = true)
    (underWay : record.getter ticket ≠ .done) : record.Current pageBits ticket :=
  sound.current (.inr found) underWay

end Tickets

/-- Tickets that lead to one page index now lead to one page. -/
theorem Record.Current.same_page {ticket other : Nat} (current : record.Current pageBits ticket)
    (currentOther : record.Current pageBits other)
    (same : pageIndex pageBits other = pageIndex pageBits ticket) :
    pageNumber other = pageNumber ticket := by
  apply pageNumber_eq same
  rw [show turn pageBits other = _ from currentOther, same]
  exact current.symm

/-! ## Posting -/

/-- A post that goes on, and has not set the flag yet. -/
theorem Sound.postsOn (sound : Sound pageBits record) {ticket : Nat} {stage : PostStage ι}
    (taken : record.poster ticket ≠ .untaken) (underWay : record.poster ticket ≠ .done)
    (stays : stage ≠ .untaken) (goesOn : stage ≠ .done)
    (lap : stage.isFound = true →
      turn pageBits ticket ≤ record.laps (pageIndex pageBits ticket))
    (holds : ∀ page, stage.page = some page →
      record.queue.pageIndexes (pageIndex pageBits ticket) = some page)
    (written : stage.isWritten = true → ∀ page,
      record.queue.pageIndexes (pageIndex pageBits ticket) = some page →
      (record.queue.pages page (msgIndex ticket)).msg = record.posted ticket) :
    Sound pageBits { record with poster := Function.update record.poster ticket stage } := by
  have update_done (other : Nat) :
      Function.update record.poster ticket stage other = .done ↔ record.poster other = .done := by
    rcases eq_or_ne other ticket with rfl | different
    · rw [Function.update_self]
      exact ⟨fun done => absurd done goesOn, fun done => absurd done underWay⟩
    · rw [Function.update_of_ne different]
  refine
    { sound with
      posting := fun other => ?_
      turns := fun other lookedUp => ?_
      seen := fun other isSeen => (update_done other).mpr (sound.seen other isSeen)
      postPage := fun other page => ?_
      donePage := fun other current done =>
        sound.donePage other current ((update_done other).mp done)
      flags := fun other page current found =>
        (sound.flags other page current found).trans (update_done other).symm
      msgs := fun other page current found => ?_ }
  · dsimp only
    rcases eq_or_ne other ticket with rfl | different
    · rw [Function.update_self]
      exact ⟨fun untaken => absurd untaken stays,
        fun untaken => absurd ((sound.posting other).mpr untaken) taken⟩
    · rw [Function.update_of_ne different]
      exact sound.posting other
  · rcases lookedUp with found | found
    · dsimp only at found
      rcases eq_or_ne other ticket with rfl | different
      · rw [Function.update_self] at found
        exact lap found
      · rw [Function.update_of_ne different] at found
        exact sound.turns other (.inl found)
    · exact sound.turns other (.inr found)
  · dsimp only
    rcases eq_or_ne other ticket with rfl | different
    · rw [Function.update_self]
      exact holds page
    · rw [Function.update_of_ne different]
      exact sound.postPage other page
  · dsimp only
    rcases eq_or_ne other ticket with rfl | different
    · rw [Function.update_self]
      exact fun isWritten => written isWritten page found
    · rw [Function.update_of_ne different]
      exact sound.msgs other page current found

/-- A post takes a ticket. -/
theorem Sound.postTicket (sound : Sound pageBits record) (msg : μ) (thread : ι) :
    Sound pageBits (record.step pageBits thread (.postTicket msg)).1 := by
  have untaken : record.poster record.queue.postIndex = .untaken :=
    (sound.posting _).mpr (Nat.le_refl _)
  have update_done (other : Nat) :
      Function.update record.poster record.queue.postIndex (.taken thread) other = .done ↔
        record.poster other = .done := by
    rcases eq_or_ne other record.queue.postIndex with rfl | different
    · rw [Function.update_self, untaken]
      exact ⟨nofun, nofun⟩
    · rw [Function.update_of_ne different]
  refine
    { sound with
      ordered := Nat.le_succ_of_le sound.ordered
      posting := fun other => ?_
      turns := fun other lookedUp => ?_
      seen := fun other isSeen => (update_done other).mpr (sound.seen other isSeen)
      postPage := fun other page => ?_
      donePage := fun other current done =>
        sound.donePage other current ((update_done other).mp done)
      flags := fun other page current found =>
        (sound.flags other page current found).trans (update_done other).symm
      msgs := fun other page current found => ?_
      values := fun result member => ?_ }
  · change Function.update _ _ _ other = _ ↔ record.queue.postIndex + 1 ≤ other
    rcases eq_or_ne other record.queue.postIndex with rfl | different
    · rw [Function.update_self]
      exact ⟨nofun, fun later => absurd later (Nat.not_succ_le_self _)⟩
    · rw [Function.update_of_ne different, sound.posting]
      exact ⟨fun later => Nat.lt_of_le_of_ne later different.symm, Nat.le_of_succ_le⟩
  · apply sound.turns other
    rcases lookedUp with found | found
    · change PostStage.isFound (Function.update record.poster _ _ other) = true at found
      rcases eq_or_ne other record.queue.postIndex with rfl | different
      · rw [Function.update_self] at found
        cases found
      · rw [Function.update_of_ne different] at found
        exact .inl found
    · exact .inr found
  · change PostStage.page (Function.update record.poster _ _ other) = _ → _
    rcases eq_or_ne other record.queue.postIndex with rfl | different
    · rw [Function.update_self]
      exact nofun
    · rw [Function.update_of_ne different]
      exact sound.postPage other page
  · change PostStage.isWritten (Function.update record.poster _ _ other) = true →
      (record.queue.pages page (msgIndex other)).msg = Function.update record.posted _ _ other
    rcases eq_or_ne other record.queue.postIndex with rfl | different
    · rw [Function.update_self]
      exact nofun
    · rw [Function.update_of_ne different, Function.update_of_ne different]
      exact sound.msgs other page current found
  · have done := (sound.returned result.1).mp (List.mem_map_of_mem member)
    have before : result.1 < record.queue.postIndex :=
      sound.taken_of_getter (by rw [done]; exact nofun)
    exact (Function.update_of_ne (Nat.ne_of_lt before) _ _).trans (sound.values result member)

/-- **Looking a page up.** A page is at the index afterwards, and one that was not there before
is new. -/
theorem Sound.getMsgPage (sound : Sound pageBits record) (index : Nat) :
    Sound pageBits { record with queue := (record.queue.getMsgPage index).1 } ∧
      (record.queue.getMsgPage index).1.pageIndexes index =
        some (record.queue.getMsgPage index).2 := by
  rw [TQueue.getMsgPage]
  cases found : record.queue.pageIndexes index with
  | some page => exact ⟨sound, found⟩
  | none =>
      have at_ {other page : Nat} (same : other ≠ index)
          (there : Function.update record.queue.pageIndexes index (some record.queue.allocated)
            other = some page) : record.queue.pageIndexes other = some page := by
        rw [Function.update_of_ne same] at there
        exact there
      have isNew {page : Nat}
          (there : Function.update record.queue.pageIndexes index (some record.queue.allocated)
            index = some page) : page = record.queue.allocated := by
        rw [Function.update_self] at there
        exact (Option.some.inj there).symm
      have older {other page : Nat} (there : record.queue.pageIndexes other = some page) :
          page ≠ record.queue.allocated := Nat.ne_of_lt (sound.live other page there).1
      have absent {other page : Nat} (there : record.queue.pageIndexes other = some page) :
          other ≠ index := by
        rintro rfl
        rw [found] at there
        cases there
      refine ⟨?_, Function.update_self ..⟩
      exact
        { sound with
          postPage := fun ticket page holds => by
            have there := sound.postPage ticket page holds
            exact (Function.update_of_ne (absent there) _ _).trans there
          getPage := fun ticket page holds => by
            have there := sound.getPage ticket page holds
            exact (Function.update_of_ne (absent there) _ _).trans there
          donePage := fun ticket current done => by
            obtain ⟨page, there⟩ := Option.ne_none_iff_exists'.mp
              (sound.donePage ticket current done)
            dsimp only
            rw [Function.update_of_ne (absent there), there]
            exact nofun
          flags := fun ticket page current there => by
            dsimp only at there ⊢
            by_cases same : pageIndex pageBits ticket = index
            · rw [same] at there
              rw [isNew there, Function.update_self]
              refine ⟨nofun, fun done => ?_⟩
              exact absurd (same ▸ found) (sound.donePage ticket current done)
            · have before := at_ same there
              rw [Function.update_of_ne (older before)]
              exact sound.flags ticket page current before
          msgs := fun ticket page current there isWritten => by
            dsimp only at there ⊢
            by_cases same : pageIndex pageBits ticket = index
            · exfalso
              cases stage : record.poster ticket with
              | written thread held =>
                  have holds := sound.postPage ticket held (by rw [stage]; rfl)
                  exact absent holds same
              | done => exact absurd (same ▸ found) (sound.donePage ticket current stage)
              | _ =>
                  rw [stage] at isWritten
                  cases isWritten
            · have before := at_ same there
              rw [Function.update_of_ne (older before)]
              exact sound.msgs ticket page current before isWritten
          live := fun other page there => by
            dsimp only at there ⊢
            by_cases same : other = index
            · rw [same] at there
              rw [isNew there]
              exact ⟨Nat.lt_succ_self _, sound.fresh _ (Nat.le_refl _)⟩
            · obtain ⟨before, deleted⟩ := sound.live other page (at_ same there)
              exact ⟨Nat.lt_succ_of_lt before, deleted⟩
          apart := fun first second page thereFirst thereSecond => by
            dsimp only at thereFirst thereSecond
            by_cases sameFirst : first = index
            · by_cases sameSecond : second = index
              · rw [sameFirst, sameSecond]
              · rw [sameFirst] at thereFirst
                exact absurd (isNew thereFirst) (older (at_ sameSecond thereSecond))
            · by_cases sameSecond : second = index
              · rw [sameSecond] at thereSecond
                exact absurd (isNew thereSecond) (older (at_ sameFirst thereFirst))
              · exact sound.apart first second page (at_ sameFirst thereFirst)
                  (at_ sameSecond thereSecond)
          fresh := fun page later => sound.fresh page (Nat.le_of_succ_le later) }

/-! ## The memory of the pages -/

section Memory

variable {queue : TQueue μ} {page other index place : Nat}

theorem setMsg_flag (msg : μ) :
    ((queue.setMsg page index msg).pages other place).flag = (queue.pages other place).flag := by
  rw [setMsg]
  dsimp only
  rcases eq_or_ne other page with rfl | different
  · rw [Function.update_self]
    rcases eq_or_ne place index with rfl | apart
    · rw [Function.update_self]
    · rw [Function.update_of_ne apart]
  · rw [Function.update_of_ne different]

theorem setMsg_msg_self (msg : μ) : ((queue.setMsg page index msg).pages page index).msg = some msg := by
  rw [setMsg]
  dsimp only
  rw [Function.update_self, Function.update_self]

theorem setMsg_other (msg : μ) (apart : ¬ (other = page ∧ place = index)) :
    (queue.setMsg page index msg).pages other place = queue.pages other place := by
  rw [setMsg]
  dsimp only
  rcases eq_or_ne other page with rfl | different
  · rw [Function.update_self, Function.update_of_ne fun same => apart ⟨rfl, same⟩]
  · rw [Function.update_of_ne different]

theorem setFlag_msg :
    ((queue.setFlag page index).pages other place).msg = (queue.pages other place).msg := by
  rw [setFlag]
  dsimp only
  rcases eq_or_ne other page with rfl | different
  · rw [Function.update_self]
    rcases eq_or_ne place index with rfl | apart
    · rw [Function.update_self]
    · rw [Function.update_of_ne apart]
  · rw [Function.update_of_ne different]

theorem setFlag_flag_self : ((queue.setFlag page index).pages page index).flag = true := by
  rw [setFlag]
  dsimp only
  rw [Function.update_self, Function.update_self]

theorem setFlag_other (apart : ¬ (other = page ∧ place = index)) :
    (queue.setFlag page index).pages other place = queue.pages other place := by
  rw [setFlag]
  dsimp only
  rcases eq_or_ne other page with rfl | different
  · rw [Function.update_self, Function.update_of_ne fun same => apart ⟨rfl, same⟩]
  · rw [Function.update_of_ne different]

end Memory

/-- Tickets that lead to the same place of the same page now are the same. -/
theorem Sound.same_ticket (sound : Sound pageBits record) {ticket other page : Nat}
    (current : record.Current pageBits ticket) (currentOther : record.Current pageBits other)
    (there : record.queue.pageIndexes (pageIndex pageBits ticket) = some page)
    (thereOther : record.queue.pageIndexes (pageIndex pageBits other) = some page)
    (place : msgIndex other = msgIndex ticket) : other = ticket :=
  ticket_eq (current.same_page currentOther (sound.apart _ _ page thereOther there)) place

/-- A page that is at an index was not deleted. -/
theorem Sound.uses_eq (sound : Sound pageBits record) {index page : Nat}
    (there : record.queue.pageIndexes index = some page) : record.uses page = record := by
  rw [Record.uses, (sound.live index page there).2, Bool.or_false]

theorem Sound.postLookup (sound : Sound pageBits record) {ticket : Nat} {thread : ι} (msg : μ)
    (stage : record.poster ticket = .taken thread)
    (recycled : turn pageBits ticket ≤ record.laps (pageIndex pageBits ticket)) :
    Sound pageBits (record.step pageBits thread (.postLookup msg ticket)).1 := by
  obtain ⟨looked, there⟩ := sound.getMsgPage (pageIndex pageBits ticket)
  apply looked.postsOn
  · rw [stage]
    exact nofun
  · rw [stage]
    exact nofun
  · exact nofun
  · exact nofun
  · exact fun _ => recycled
  · rintro page ⟨⟩
    exact there
  · exact nofun

theorem Sound.postWrite (sound : Sound pageBits record) {ticket page : Nat} {thread : ι} {msg : μ}
    (stage : record.poster ticket = .found thread page) (posted : record.posted ticket = some msg) :
    Sound pageBits (record.step pageBits thread (.postWrite msg ticket page)).1 := by
  have there := sound.postPage ticket page (by rw [stage]; rfl)
  have current := sound.current_of_poster (by rw [stage]; rfl) (by rw [stage]; exact nofun)
  have wrote : Sound pageBits
      { record with queue := record.queue.setMsg page (msgIndex ticket) msg } :=
    { sound with
      flags := fun other found currentOther thereOther => by
        dsimp only
        rw [setMsg_flag]
        exact sound.flags other found currentOther thereOther
      msgs := fun other found currentOther thereOther isWritten => by
        dsimp only
        rw [setMsg_other]
        · exact sound.msgs other found currentOther thereOther isWritten
        · rintro ⟨rfl, place⟩
          have same := sound.same_ticket current currentOther there thereOther place
          rw [same, stage] at isWritten
          cases isWritten }
  rw [Record.step, sound.uses_eq there]
  apply wrote.postsOn
  · rw [stage]
    exact nofun
  · rw [stage]
    exact nofun
  · exact nofun
  · exact nofun
  · exact fun _ => Nat.le_of_eq current
  · rintro _ ⟨⟩
    exact there
  · intro _ found thereAgain
    rw [show found = page from Option.some.inj (thereAgain.symm.trans there), posted]
    exact setMsg_msg_self msg

theorem Sound.postFlag (sound : Sound pageBits record) {ticket page : Nat} {thread : ι}
    (stage : record.poster ticket = .written thread page) :
    Sound pageBits (record.step pageBits thread (.postFlag ticket page)).1 := by
  have there := sound.postPage ticket page (by rw [stage]; rfl)
  have current := sound.current_of_poster (by rw [stage]; rfl) (by rw [stage]; exact nofun)
  rw [Record.step, sound.uses_eq there]
  refine
    { sound with
      posting := fun other => ?_
      turns := fun other lookedUp => ?_
      seen := fun other isSeen => ?_
      postPage := fun other found => ?_
      donePage := fun other currentOther => ?_
      flags := fun other found currentOther thereOther => ?_
      msgs := fun other found currentOther thereOther => ?_ }
  · change Function.update record.poster _ _ other = _ ↔ record.queue.postIndex ≤ other
    rcases eq_or_ne other ticket with rfl | different
    · have taken : other < record.queue.postIndex :=
        sound.taken_of_poster (by rw [stage]; exact nofun)
      rw [Function.update_self]
      exact ⟨nofun, fun later => absurd taken (Nat.not_lt_of_le later)⟩
    · rw [Function.update_of_ne different]
      exact sound.posting other
  · rcases eq_or_ne other ticket with rfl | different
    · exact Nat.le_of_eq current
    · apply sound.turns other
      rcases lookedUp with found | found
      · change PostStage.isFound (Function.update record.poster _ _ other) = true at found
        rw [Function.update_of_ne different] at found
        exact .inl found
      · exact .inr found
  · change Function.update record.poster _ _ other = _
    rcases eq_or_ne other ticket with rfl | different
    · exact Function.update_self ..
    · rw [Function.update_of_ne different]
      exact sound.seen other isSeen
  · change PostStage.page (Function.update record.poster _ _ other) = _ → _
    rcases eq_or_ne other ticket with rfl | different
    · rw [Function.update_self]
      exact nofun
    · rw [Function.update_of_ne different]
      exact sound.postPage other found
  · change Function.update record.poster _ _ other = _ →
      record.queue.pageIndexes (pageIndex pageBits other) ≠ none
    rcases eq_or_ne other ticket with rfl | different
    · rw [there]
      exact fun _ => nofun
    · rw [Function.update_of_ne different]
      exact sound.donePage other currentOther
  · change _ ↔ Function.update record.poster _ _ other = _
    rcases eq_or_ne other ticket with rfl | different
    · rw [show found = page from Option.some.inj (thereOther.symm.trans there),
        Function.update_self]
      exact ⟨fun _ => rfl, fun _ => setFlag_flag_self⟩
    · rw [Function.update_of_ne different]
      refine Iff.trans ?_ (sound.flags other found currentOther thereOther)
      change ((record.queue.setFlag page _).pages found _).flag = true ↔ _
      rw [setFlag_other]
      rintro ⟨rfl, place⟩
      exact different (sound.same_ticket current currentOther there thereOther place)
  · change PostStage.isWritten (Function.update record.poster _ _ other) = true →
      ((record.queue.setFlag page _).pages found _).msg = _
    rw [setFlag_msg]
    intro isWritten
    apply sound.msgs other found currentOther thereOther
    rcases eq_or_ne other ticket with rfl | different
    · rw [stage]
      rfl
    · rw [Function.update_of_ne different] at isWritten
      exact isWritten

end Cube.Base.TQueue
