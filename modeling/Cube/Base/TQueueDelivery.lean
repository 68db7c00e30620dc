import Mathlib.Tactic.SplitIfs
import Cube.Base.TQueueGets

/-! # Delivery by the ticket queue

In every interleaving of any number of threads every message is returned once, as it was posted,
and no page is deleted while it is used, as long as a page is looked up only after all messages of
the pages that had its index before were read.
-/

namespace Cube.Base.TQueue

open Interleaving (Outline Program)

variable {ι μ : Type} {pageBits : Nat} {record : Record ι μ} {thread : ι}

/-! ## Who is at a ticket -/

def PostStage.owner : PostStage ι → Option ι
  | .taken thread => some thread
  | .found thread _ => some thread
  | .written thread _ => some thread
  | _ => none

def GetStage.owner : GetStage ι → Option ι
  | .taken thread => some thread
  | .found thread _ => some thread
  | .flagged thread _ => some thread
  | .read thread => some thread
  | .counted thread => some thread
  | _ => none

/-- The ticket at which a message is being posted. -/
def Operation.posting : Operation μ → Option Nat
  | .postLookup _ ticket => some ticket
  | .postWrite _ ticket _ => some ticket
  | .postFlag ticket _ => some ticket
  | _ => none

/-- The ticket whose message is being got. -/
def Operation.getting : Operation μ → Option Nat
  | .getLookup ticket => some ticket
  | .getTest ticket _ => some ticket
  | .getSlot ticket _ => some ticket
  | .getCount ticket _ => some ticket
  | .getRecycle ticket _ => some ticket
  | _ => none

/-- The page that a thread has looked up and will access. -/
def Operation.page : Operation μ → Option Nat
  | .postWrite _ _ page => some page
  | .postFlag _ page => some page
  | .getTest _ page => some page
  | .getSlot _ page => some page
  | _ => none

/-! ## Where a thread stands -/

/-- What a thread relies on before its next step. -/
def Stands (thread : ι) (record : Record ι μ) : Operation μ → Prop
  | .postTicket _ => True
  | .postLookup msg ticket =>
      record.poster ticket = .taken thread ∧ record.posted ticket = some msg
  | .postWrite msg ticket page =>
      record.poster ticket = .found thread page ∧ record.posted ticket = some msg
  | .postFlag ticket page => record.poster ticket = .written thread page
  | .getRead => True
  | .getCheck index => index ≤ record.queue.getIndex
  | .getBound index again => index ≤ again ∧ again ≤ record.queue.getIndex
  | .getExchange index => index < record.queue.postIndex
  | .getLookup ticket => record.getter ticket = .taken thread
  | .getTest ticket page => record.getter ticket = .found thread page
  | .getSlot ticket page => record.getter ticket = .flagged thread page
  | .getCount ticket msg => record.getter ticket = .read thread ∧ record.posted ticket = msg
  | .getRecycle ticket msg => record.getter ticket = .counted thread ∧ record.posted ticket = msg

/-- A step of one thread leaves alone what belongs to the others. -/
structure Elsewhere (thread : ι) (before after : Record ι μ) : Prop where
  getIndex : before.queue.getIndex ≤ after.queue.getIndex
  postIndex : before.queue.postIndex ≤ after.queue.postIndex
  poster : ∀ ticket other, other ≠ thread → (before.poster ticket).owner = some other →
    after.poster ticket = before.poster ticket
  getter : ∀ ticket other, other ≠ thread → (before.getter ticket).owner = some other →
    after.getter ticket = before.getter ticket
  posted : ∀ ticket < before.queue.postIndex, after.posted ticket = before.posted ticket

theorem Elsewhere.refl (record : Record ι μ) : Elsewhere thread record record where
  getIndex := Nat.le_refl _
  postIndex := Nat.le_refl _
  poster _ _ _ _ := rfl
  getter _ _ _ _ := rfl
  posted _ _ := rfl

/-- The stage of a ticket that belongs to nobody else is changed. -/
theorem elsewhere_update {σ : Type} (owner : σ → Option ι) {stages : Nat → σ} {ticket : Nat}
    {stage : σ} (own : ∀ other, other ≠ thread → owner (stages ticket) ≠ some other) (at_ : Nat)
    (other : ι) (different : other ≠ thread) (owned : owner (stages at_) = some other) :
    Function.update stages ticket stage at_ = stages at_ := by
  apply Function.update_of_ne
  rintro rfl
  exact own other different owned

theorem getMsgPage_getIndex (queue : TQueue μ) (index : Nat) :
    (queue.getMsgPage index).1.getIndex = queue.getIndex := by
  rw [getMsgPage]
  split <;> rfl

theorem getMsgPage_postIndex (queue : TQueue μ) (index : Nat) :
    (queue.getMsgPage index).1.postIndex = queue.postIndex := by
  rw [getMsgPage]
  split <;> rfl

theorem recycleMsgPage_getIndex (queue : TQueue μ) (index : Nat) :
    (queue.recycleMsgPage index).1.getIndex = queue.getIndex := by
  rw [recycleMsgPage]
  split <;> rfl

theorem recycleMsgPage_postIndex (queue : TQueue μ) (index : Nat) :
    (queue.recycleMsgPage index).1.postIndex = queue.postIndex := by
  rw [recycleMsgPage]
  split <;> rfl

section Stages

variable {after : Record ι μ} {ticket : Nat}
  (getIndex : after.queue.getIndex = record.queue.getIndex)
  (postIndex : after.queue.postIndex = record.queue.postIndex)
  (posted : after.posted = record.posted)
include getIndex postIndex posted

theorem elsewhere_posts {stage : PostStage ι} (own : (record.poster ticket).owner = some thread)
    (posters : after.poster = Function.update record.poster ticket stage)
    (getters : after.getter = record.getter) : Elsewhere thread record after where
  getIndex := Nat.le_of_eq getIndex.symm
  postIndex := Nat.le_of_eq postIndex.symm
  poster := by
    rw [posters]
    apply elsewhere_update PostStage.owner
    intro other different owned
    exact different (Option.some.inj (owned.symm.trans own))
  getter _ _ _ _ := by rw [getters]
  posted _ _ := by rw [posted]

theorem elsewhere_gets {stage : GetStage ι} (own : (record.getter ticket).owner = some thread)
    (getters : after.getter = Function.update record.getter ticket stage)
    (posters : after.poster = record.poster) : Elsewhere thread record after where
  getIndex := Nat.le_of_eq getIndex.symm
  postIndex := Nat.le_of_eq postIndex.symm
  poster _ _ _ _ := by rw [posters]
  getter := by
    rw [getters]
    apply elsewhere_update GetStage.owner
    intro other different owned
    exact different (Option.some.inj (owned.symm.trans own))
  posted _ _ := by rw [posted]

end Stages

/-- **Steps leave the others alone.** -/
theorem Sound.elsewhere (sound : Sound pageBits record) {operation : Operation μ}
    (stands : Stands thread record operation) :
    Elsewhere thread record (record.step pageBits thread operation).1 := by
  cases operation with
  | postTicket msg =>
      have untaken := (sound.posting record.queue.postIndex).mpr (Nat.le_refl _)
      refine ⟨Nat.le_refl _, Nat.le_succ _, ?_, fun _ _ _ _ => rfl, fun ticket before => ?_⟩
      · apply elsewhere_update PostStage.owner
        intro other _ owned
        rw [untaken] at owned
        cases owned
      · exact Function.update_of_ne (Nat.ne_of_lt before) _ _
  | postLookup msg ticket =>
      have own : (record.poster ticket).owner = some thread := by rw [stands.1]; rfl
      exact elsewhere_posts (getMsgPage_getIndex ..) (getMsgPage_postIndex ..) rfl own rfl rfl
  | postWrite msg ticket page =>
      have own : (record.poster ticket).owner = some thread := by rw [stands.1]; rfl
      exact elsewhere_posts rfl rfl rfl own rfl rfl
  | postFlag ticket page =>
      have own : (record.poster ticket).owner = some thread := by rw [stands]; rfl
      exact elsewhere_posts rfl rfl rfl own rfl rfl
  | getRead => exact .refl record
  | getCheck index => exact .refl record
  | getBound index again =>
      rw [Record.step]
      split <;> exact .refl record
  | getExchange index =>
      rw [Record.step]
      split
      next same =>
        refine ⟨?_, Nat.le_refl _, fun _ _ _ _ => rfl, ?_, fun _ _ => rfl⟩
        · rw [same]
          exact Nat.le_succ _
        · apply elsewhere_update GetStage.owner
          intro other _ owned
          rw [(sound.getting index).mpr (Nat.le_of_eq same)] at owned
          cases owned
      next => exact .refl record
  | getLookup ticket =>
      have own : (record.getter ticket).owner = some thread := by rw [stands]; rfl
      exact elsewhere_gets (getMsgPage_getIndex ..) (getMsgPage_postIndex ..) rfl own rfl rfl
  | getTest ticket page =>
      have own : (record.getter ticket).owner = some thread := by rw [stands]; rfl
      rw [Record.step]
      split
      next => exact elsewhere_gets rfl rfl rfl own rfl rfl
      next =>
        have there := sound.getPage ticket page (by rw [stands]; rfl)
        rw [sound.uses_eq there]
        exact .refl record
  | getSlot ticket page =>
      have own : (record.getter ticket).owner = some thread := by rw [stands]; rfl
      exact elsewhere_gets rfl rfl rfl own rfl rfl
  | getCount ticket msg =>
      have own : (record.getter ticket).owner = some thread := by rw [stands.1]; rfl
      rw [Record.step]
      dsimp only
      split
      next => exact elsewhere_gets rfl rfl rfl own rfl rfl
      next => exact elsewhere_gets rfl rfl rfl own rfl rfl
  | getRecycle ticket msg =>
      have own : (record.getter ticket).owner = some thread := by rw [stands.1]; rfl
      exact elsewhere_gets (recycleMsgPage_getIndex ..) (recycleMsgPage_postIndex ..) rfl own rfl
        rfl

/-- What a thread relies on is left alone by the steps of others. -/
theorem Stands.elsewhere {other : ι} {after : Record ι μ} {operation : Operation μ}
    (stands : Stands other record operation) (sound : Sound pageBits record)
    (different : other ≠ thread) (elsewhere : Elsewhere thread record after) :
    Stands other after operation := by
  have poster {ticket : Nat} {stage : PostStage ι} (at_ : record.poster ticket = stage)
      (own : stage.owner = some other) : after.poster ticket = stage :=
    (elsewhere.poster ticket other different (by rw [at_, own])).trans at_
  have getter {ticket : Nat} {stage : GetStage ι} (at_ : record.getter ticket = stage)
      (own : stage.owner = some other) : after.getter ticket = stage :=
    (elsewhere.getter ticket other different (by rw [at_, own])).trans at_
  cases operation with
  | postTicket msg => trivial
  | postLookup msg ticket =>
      have taken : ticket < record.queue.postIndex :=
        sound.taken_of_poster (by rw [stands.1]; exact nofun)
      exact ⟨poster stands.1 rfl, (elsewhere.posted ticket taken).trans stands.2⟩
  | postWrite msg ticket page =>
      have taken : ticket < record.queue.postIndex :=
        sound.taken_of_poster (by rw [stands.1]; exact nofun)
      exact ⟨poster stands.1 rfl, (elsewhere.posted ticket taken).trans stands.2⟩
  | postFlag ticket page => exact poster stands rfl
  | getRead => trivial
  | getCheck index => exact Nat.le_trans stands elsewhere.getIndex
  | getBound index again => exact ⟨stands.1, Nat.le_trans stands.2 elsewhere.getIndex⟩
  | getExchange index => exact Nat.lt_of_lt_of_le stands elsewhere.postIndex
  | getLookup ticket => exact getter stands rfl
  | getTest ticket page => exact getter stands rfl
  | getSlot ticket page => exact getter stands rfl
  | getCount ticket msg =>
      have taken : ticket < record.queue.postIndex :=
        sound.taken_of_getter (by rw [stands.1]; exact nofun)
      exact ⟨getter stands.1 rfl, (elsewhere.posted ticket taken).trans stands.2⟩
  | getRecycle ticket msg =>
      have taken : ticket < record.queue.postIndex :=
        sound.taken_of_getter (by rw [stands.1]; exact nofun)
      exact ⟨getter stands.1 rfl, (elsewhere.posted ticket taken).trans stands.2⟩

/-- What a thread relies on next. -/
theorem Sound.stands_next (sound : Sound pageBits record) {operation next : Operation μ}
    (stands : Stands thread record operation)
    (goesOn : (record.step pageBits thread operation).2 = some next) :
    Stands thread (record.step pageBits thread operation).1 next := by
  cases operation with
  | postTicket msg =>
      cases goesOn
      exact ⟨Function.update_self .., Function.update_self ..⟩
  | postLookup msg ticket =>
      cases goesOn
      exact ⟨Function.update_self .., stands.2⟩
  | postWrite msg ticket page =>
      cases goesOn
      exact Function.update_self ..
  | postFlag ticket page => cases goesOn
  | getRead =>
      cases goesOn
      exact Nat.le_refl _
  | getCheck index =>
      cases goesOn
      exact ⟨stands, Nat.le_refl _⟩
  | getBound index again =>
      rw [Record.step] at goesOn ⊢
      split_ifs at goesOn ⊢ with reached
      cases goesOn
      exact Nat.lt_of_le_of_lt stands.1 (Nat.lt_of_not_le reached)
  | getExchange index =>
      rw [Record.step] at goesOn ⊢
      split_ifs at goesOn ⊢
      · cases goesOn
        exact Function.update_self ..
      · cases goesOn
        trivial
  | getLookup ticket =>
      cases goesOn
      exact Function.update_self ..
  | getTest ticket page =>
      rw [Record.step] at goesOn ⊢
      split_ifs at goesOn ⊢
      · cases goesOn
        exact Function.update_self ..
      · cases goesOn
        exact stands
  | getSlot ticket page =>
      cases goesOn
      exact ⟨Function.update_self .., (sound.slot_eq stands).symm⟩
  | getCount ticket msg =>
      rw [Record.step] at goesOn ⊢
      dsimp only at goesOn ⊢
      split_ifs at goesOn ⊢
      · cases goesOn
        exact ⟨Function.update_self .., stands.2⟩
  | getRecycle ticket msg => cases goesOn

/-! ## Pages that were read -/

/-- All messages of the pages that had the page index of a ticket before were read, and their
gets have returned. -/
def Record.ReadBefore (pageBits : Nat) (record : Record ι μ) (ticket : Nat) : Prop :=
  ∀ earlier < ticket, pageIndex pageBits earlier = pageIndex pageBits ticket →
    pageNumber earlier ≠ pageNumber ticket → earlier ∈ record.results.map Prod.fst

/-- A page is looked up only when the pages that had its index before were read. -/
def Record.PagesRead (pageBits : Nat) (record : Record ι μ) : Operation μ → Prop
  | .postLookup _ ticket => record.ReadBefore pageBits ticket
  | .getLookup ticket => record.ReadBefore pageBits ticket
  | _ => True

instance (ticket : Nat) : Decidable (record.ReadBefore pageBits ticket) :=
  inferInstanceAs (Decidable (∀ earlier < ticket, _ → _ → _))

instance : ∀ operation : Operation μ, Decidable (record.PagesRead pageBits operation)
  | .postLookup _ ticket => inferInstanceAs (Decidable (record.ReadBefore pageBits ticket))
  | .getLookup ticket => inferInstanceAs (Decidable (record.ReadBefore pageBits ticket))
  | .postTicket _ | .postWrite _ _ _ | .postFlag _ _ | .getRead | .getCheck _ | .getBound _ _
  | .getExchange _ | .getTest _ _ | .getSlot _ _ | .getCount _ _ | .getRecycle _ _ => isTrue trivial

theorem pageNumber_mul (number : Nat) : pageNumber (number * pageMsgCount) = number :=
  Nat.mul_div_cancel _ pageMsgCount_pos

/-- Some ticket leads to a page index at a turn. -/
theorem exists_ticket {index : Nat} (below : index < 2 ^ pageBits) (lap : Nat) :
    ∃ ticket, pageIndex pageBits ticket = index ∧ turn pageBits ticket = lap := by
  refine ⟨(2 ^ pageBits * lap + index) * pageMsgCount, ?_, ?_⟩
  · rw [pageIndex_eq, pageNumber_mul, Nat.mul_add_mod, Nat.mod_eq_of_lt below]
  · rw [turn, pageNumber_mul, Nat.mul_add_div (Nat.two_pow_pos _), Nat.div_eq_of_lt below,
      Nat.add_zero]

/-- A page index is recycled once all messages of its page were read. -/
theorem Sound.turn_le (sound : Sound pageBits record) {ticket : Nat}
    (read : record.ReadBefore pageBits ticket) :
    turn pageBits ticket ≤ record.laps (pageIndex pageBits ticket) := by
  by_contra behind
  have indexLt : pageIndex pageBits ticket < 2 ^ pageBits := by
    rw [pageIndex_eq]
    exact Nat.mod_lt _ (Nat.two_pow_pos _)
  obtain ⟨reached, index, lap⟩ := exists_ticket indexLt (record.laps (pageIndex pageBits ticket))
  have current : record.Current pageBits reached := by
    rw [Record.Current, index, lap]
  obtain ⟨other, page, unread⟩ := sound.unread _ current
  have before : pageNumber other < pageNumber ticket := by
    apply Nat.lt_of_not_le
    intro later
    have turns := Nat.div_le_div_right (c := 2 ^ pageBits) later
    rw [page] at turns
    exact behind (Nat.le_trans turns (Nat.le_of_eq lap))
  have earlier : other < ticket := by
    apply Nat.lt_of_not_le
    intro later
    exact Nat.not_lt_of_le (Nat.div_le_div_right later) before
  apply unread
  rw [← sound.returned]
  exact read other earlier ((pageIndex_of_pageNumber page).trans index) (Nat.ne_of_lt before)

/-- **Steps.** Every step keeps tickets, pages and counters together. -/
theorem Sound.step (sound : Sound pageBits record) {operation : Operation μ}
    (stands : Stands thread record operation) (read : record.PagesRead pageBits operation) :
    Sound pageBits (record.step pageBits thread operation).1 := by
  cases operation with
  | postTicket msg => exact sound.postTicket msg thread
  | postLookup msg ticket => exact sound.postLookup msg stands.1 (sound.turn_le read)
  | postWrite msg ticket page => exact sound.postWrite stands.1 stands.2
  | postFlag ticket page => exact sound.postFlag stands
  | getRead => exact sound
  | getCheck index => exact sound
  | getBound index again =>
      rw [Record.step]
      split <;> exact sound
  | getExchange index => exact sound.getExchange thread stands
  | getLookup ticket => exact sound.getLookup stands (sound.turn_le read)
  | getTest ticket page => exact sound.getTest stands
  | getSlot ticket page => exact sound.getSlot stands
  | getCount ticket msg => exact sound.getCount stands.1 stands.2
  | getRecycle ticket msg => exact sound.getRecycle stands.1 stands.2

/-! ## Threads attend to their tickets -/

/-- What is being posted or got, some thread is at. -/
structure Attended (threads : Threads ι μ) : Prop where
  posts : ∀ ticket owner, (threads.shared.poster ticket).owner = some owner →
    ∃ operation, threads.running owner = some operation ∧ operation.posting = some ticket
  gets : ∀ ticket owner, (threads.shared.getter ticket).owner = some owner →
    ∃ operation, threads.running owner = some operation ∧ operation.getting = some ticket

theorem owned_update {σ : Type} (owner : σ → Option ι) {stages : Nat → σ} {ticket at_ : Nat}
    {stage : σ} {other : ι} (owned : owner (Function.update stages ticket stage at_) = some other) :
    (at_ = ticket ∧ owner stage = some other) ∨
      (at_ ≠ ticket ∧ owner (stages at_) = some other) := by
  rcases eq_or_ne at_ ticket with rfl | different
  · rw [Function.update_self] at owned
    exact .inl ⟨rfl, owned⟩
  · rw [Function.update_of_ne different] at owned
    exact .inr ⟨different, owned⟩

/-- After a step, a ticket is being posted by the thread that took the step, or by one that did
so before. -/
theorem step_posting {operation : Operation μ} {ticket : Nat} {other : ι}
    (owned : ((record.step pageBits thread operation).1.poster ticket).owner = some other) :
    (other = thread ∧ ∃ next, (record.step pageBits thread operation).2 = some next ∧
        next.posting = some ticket) ∨
      (operation.posting ≠ some ticket ∧ (record.poster ticket).owner = some other) := by
  cases operation with
  | postTicket msg =>
      rcases owned_update PostStage.owner owned with ⟨rfl, ⟨⟩⟩ | ⟨_, before⟩
      · exact .inl ⟨rfl, _, rfl, rfl⟩
      · exact .inr ⟨by rintro ⟨⟩, before⟩
  | postLookup msg ticket =>
      rcases owned_update PostStage.owner owned with ⟨rfl, ⟨⟩⟩ | ⟨different, before⟩
      · exact .inl ⟨rfl, _, rfl, rfl⟩
      · exact .inr ⟨fun same => different (Option.some.inj same).symm, before⟩
  | postWrite msg ticket page =>
      rcases owned_update PostStage.owner owned with ⟨rfl, ⟨⟩⟩ | ⟨different, before⟩
      · exact .inl ⟨rfl, _, rfl, rfl⟩
      · exact .inr ⟨fun same => different (Option.some.inj same).symm, before⟩
  | postFlag ticket page =>
      rcases owned_update PostStage.owner owned with ⟨rfl, ⟨⟩⟩ | ⟨different, before⟩
      exact .inr ⟨fun same => different (Option.some.inj same).symm, before⟩
  | getBound index again =>
      rw [Record.step] at owned
      split at owned <;> exact .inr ⟨by rintro ⟨⟩, owned⟩
  | getExchange index =>
      rw [Record.step] at owned
      split at owned <;> exact .inr ⟨by rintro ⟨⟩, owned⟩
  | getTest ticket page =>
      rw [Record.step] at owned
      split at owned <;> exact .inr ⟨by rintro ⟨⟩, owned⟩
  | getCount ticket msg =>
      rw [Record.step] at owned
      dsimp only at owned
      split at owned <;> exact .inr ⟨by rintro ⟨⟩, owned⟩
  | _ => exact .inr ⟨by rintro ⟨⟩, owned⟩

/-- After a step, a ticket is being got by the thread that took the step, or by one that did so
before. -/
theorem step_getting {operation : Operation μ} {ticket : Nat} {other : ι}
    (owned : ((record.step pageBits thread operation).1.getter ticket).owner = some other) :
    (other = thread ∧ ∃ next, (record.step pageBits thread operation).2 = some next ∧
        next.getting = some ticket) ∨
      ((operation.getting = some ticket →
          (record.step pageBits thread operation).2 = some operation) ∧
        (record.getter ticket).owner = some other) := by
  cases operation with
  | getBound index again =>
      rw [Record.step] at owned
      split at owned <;> exact .inr ⟨by rintro ⟨⟩, owned⟩
  | getExchange index =>
      rw [Record.step] at owned ⊢
      split_ifs at owned ⊢
      · rcases owned_update GetStage.owner owned with ⟨rfl, ⟨⟩⟩ | ⟨_, before⟩
        · exact .inl ⟨rfl, _, rfl, rfl⟩
        · exact .inr ⟨by rintro ⟨⟩, before⟩
      · exact .inr ⟨by rintro ⟨⟩, owned⟩
  | getLookup ticket =>
      rcases owned_update GetStage.owner owned with ⟨rfl, ⟨⟩⟩ | ⟨different, before⟩
      · exact .inl ⟨rfl, _, rfl, rfl⟩
      · exact .inr ⟨fun same => absurd (Option.some.inj same).symm different, before⟩
  | getTest ticket page =>
      rw [Record.step] at owned ⊢
      split_ifs at owned ⊢
      · rcases owned_update GetStage.owner owned with ⟨rfl, ⟨⟩⟩ | ⟨different, before⟩
        · exact .inl ⟨rfl, _, rfl, rfl⟩
        · exact .inr ⟨fun same => absurd (Option.some.inj same).symm different, before⟩
      · exact .inr ⟨fun _ => rfl, owned⟩
  | getSlot ticket page =>
      rcases owned_update GetStage.owner owned with ⟨rfl, ⟨⟩⟩ | ⟨different, before⟩
      · exact .inl ⟨rfl, _, rfl, rfl⟩
      · exact .inr ⟨fun same => absurd (Option.some.inj same).symm different, before⟩
  | getCount ticket msg =>
      rw [Record.step] at owned ⊢
      dsimp only at owned ⊢
      split_ifs at owned ⊢
      · rcases owned_update GetStage.owner owned with ⟨rfl, ⟨⟩⟩ | ⟨different, before⟩
        · exact .inl ⟨rfl, _, rfl, rfl⟩
        · exact .inr ⟨fun same => absurd (Option.some.inj same).symm different, before⟩
      · rcases owned_update GetStage.owner owned with ⟨rfl, ⟨⟩⟩ | ⟨different, before⟩
        exact .inr ⟨fun same => absurd (Option.some.inj same).symm different, before⟩
  | getRecycle ticket msg =>
      rcases owned_update GetStage.owner owned with ⟨rfl, ⟨⟩⟩ | ⟨different, before⟩
      exact .inr ⟨fun same => absurd (Option.some.inj same).symm different, before⟩
  | _ => exact .inr ⟨by rintro ⟨⟩, owned⟩

theorem attended_start : Attended (start : Threads ι μ) where
  posts := nofun
  gets := nofun

/-! ## Delivery -/

/-- Every message is returned once, as it was posted. One that has not been returned is left to be
got, or some thread gets it; once it is in its page, it stays there. No page that a thread will
access is deleted, and none was used that was not there. -/
structure Delivered (pageBits : Nat) (threads : Threads ι μ) : Prop where
  values : ∀ result ∈ threads.shared.results, threads.shared.posted result.1 = result.2
  once : (threads.shared.results.map Prod.fst).Nodup
  kept : ∀ ticket < threads.shared.queue.postIndex,
    ticket ∈ threads.shared.results.map Prod.fst ∨ threads.shared.queue.getIndex ≤ ticket ∨
      ∃ thread operation, threads.running thread = some operation ∧
        operation.getting = some ticket
  intact : ∀ ticket < threads.shared.queue.postIndex,
    ticket ∉ threads.shared.results.map Prod.fst →
    (∃ thread operation, threads.running thread = some operation ∧
      operation.posting = some ticket) ∨
    ∃ page, threads.shared.queue.pageIndexes (pageIndex pageBits ticket) = some page ∧
      threads.shared.queue.pages page (msgIndex ticket) = ⟨threads.shared.posted ticket, true⟩
  held : ∀ thread operation page, threads.running thread = some operation →
    operation.page = some page → threads.shared.queue.deleted page = false
  safe : threads.shared.fault = false

/-- Tickets, pages and counters fit together, and every thread is where it stands. -/
def outline (pageBits : Nat) : Outline ι (Record ι μ) (Operation μ) where
  shared := Sound pageBits
  running := Stands

/-- The page that a thread has looked up is at its index. -/
theorem Sound.page_of_stands (sound : Sound pageBits record) {operation : Operation μ} {page : Nat}
    (stands : Stands thread record operation) (held : operation.page = some page) :
    record.queue.deleted page = false := by
  cases operation with
  | postWrite msg ticket at_ =>
      cases held
      exact (sound.live _ _ (sound.postPage ticket page (by rw [stands.1]; rfl))).2
  | postFlag ticket at_ =>
      cases held
      exact (sound.live _ _ (sound.postPage ticket page (by rw [stands]; rfl))).2
  | getTest ticket at_ =>
      cases held
      exact (sound.live _ _ (sound.getPage ticket page (by rw [stands]; rfl))).2
  | getSlot ticket at_ =>
      cases held
      exact (sound.live _ _ (sound.getPage ticket page (by rw [stands]; rfl))).2
  | _ => cases held

theorem delivered_of_holds {threads : Threads ι μ} (holds : (outline pageBits).Holds threads)
    (attended : Attended threads) :
    Delivered pageBits threads where
  values := holds.shared.values
  once := holds.shared.once
  kept ticket _ := by
    cases stage : threads.shared.getter ticket with
    | untaken => exact .inr (.inl ((holds.shared.getting ticket).mp stage))
    | done => exact .inl ((holds.shared.returned ticket).mpr stage)
    | _ => exact .inr (.inr ⟨_, attended.gets ticket _ (by rw [stage]; rfl)⟩)
  intact ticket before unread := by
    cases stage : threads.shared.poster ticket with
    | untaken => exact absurd before (Nat.not_lt_of_le ((holds.shared.posting ticket).mp stage))
    | done =>
        have current := holds.shared.current (.inl (by rw [stage]; rfl)) fun done =>
          unread ((holds.shared.returned ticket).mpr done)
        obtain ⟨page, there⟩ := Option.ne_none_iff_exists'.mp
          (holds.shared.donePage ticket current stage)
        refine .inr ⟨page, there, ?_⟩
        have flag := (holds.shared.flags ticket page current there).mpr stage
        have msg := holds.shared.msgs ticket page current there (by rw [stage]; rfl)
        rw [← flag, ← msg]
    | _ => exact .inl ⟨_, attended.posts ticket _ (by rw [stage]; rfl)⟩
  held thread operation page running held :=
    holds.shared.page_of_stands (holds.running thread operation running) held
  safe := holds.shared.safe

/-! ## Runs -/

section Runs

variable [DecidableEq ι] {threads : Threads ι μ} {choice : Choice ι μ}

theorem Attended.step (attended : Attended threads) (choice : Choice ι μ) :
    Attended ((program pageBits).step threads choice) := by
  rcases (program pageBits).step_cases threads choice with
    ⟨unchanged, _⟩ | ⟨thread, call, rfl, idle⟩ | ⟨thread, input, operation, rfl, running⟩
  · rw [unchanged]
    exact attended
  · rw [Program.step_call idle]
    have same : ((program pageBits).enter thread threads.shared call).1 = threads.shared := by
      cases call <;> rfl
    have others {owner : ι} {operation : Operation μ}
        (standing : threads.running owner = some operation) : owner ≠ thread := by
      rintro rfl
      rw [idle] at standing
      cases standing
    constructor
    · intro ticket owner owned
      change PostStage.owner (((program pageBits).enter thread threads.shared call).1.poster ticket)
        = _ at owned
      rw [same] at owned
      obtain ⟨operation, standing, posting⟩ := attended.posts ticket owner owned
      exact ⟨operation, (threads.move_running_of_ne _ (others standing)).trans standing, posting⟩
    · intro ticket owner owned
      change GetStage.owner (((program pageBits).enter thread threads.shared call).1.getter ticket)
        = _ at owned
      rw [same] at owned
      obtain ⟨operation, standing, getting⟩ := attended.gets ticket owner owned
      exact ⟨operation, (threads.move_running_of_ne _ (others standing)).trans standing, getting⟩
  · rw [Program.step_advance running]
    constructor
    · intro ticket owner owned
      rcases step_posting owned with ⟨rfl, next, goesOn, posting⟩ | ⟨apart, before⟩
      · exact ⟨next, (threads.move_running_self ..).trans goesOn, posting⟩
      · obtain ⟨standing, stands, posting⟩ := attended.posts ticket owner before
        have different : owner ≠ thread := by
          rintro rfl
          cases running.symm.trans stands
          exact apart posting
        exact ⟨standing, (threads.move_running_of_ne _ different).trans stands, posting⟩
    · intro ticket owner owned
      rcases step_getting owned with ⟨rfl, next, goesOn, getting⟩ | ⟨stays, before⟩
      · exact ⟨next, (threads.move_running_self ..).trans goesOn, getting⟩
      · obtain ⟨standing, stands, getting⟩ := attended.gets ticket owner before
        rcases eq_or_ne owner thread with rfl | different
        · cases running.symm.trans stands
          exact ⟨operation, (threads.move_running_self ..).trans (stays getting), getting⟩
        · exact ⟨standing, (threads.move_running_of_ne _ different).trans stands, getting⟩

/-- A step keeps the outline, if the pages that had the index of a page looked up were read. -/
theorem outline_step (holds : (outline pageBits).Holds threads)
    (read : Interleaving.Meets (Record.PagesRead pageBits) threads choice) :
    (outline pageBits).Holds ((program pageBits).step threads choice) := by
  apply holds.step
  · intro thread call _ _
    cases call with
    | post msg =>
        refine ⟨holds.shared, ?_, fun _ _ _ stands => stands⟩
        rintro _ ⟨⟩
        trivial
    | get =>
        refine ⟨holds.shared, ?_, fun _ _ _ stands => stands⟩
        rintro _ ⟨⟩
        trivial
  · intro thread input operation advances running stands
    have elsewhere := holds.shared.elsewhere stands
    exact
      { shared := holds.shared.step stands (read thread input operation advances running)
        own := fun next goesOn => holds.shared.stands_next stands goesOn
        others := fun other standing different standsOther =>
          standsOther.elsewhere holds.shared different elsewhere }

/-- **Delivery.** For any number of threads that post and get, in every interleaving every message
is returned once, as it was posted, none is lost or overwritten, and no page is deleted that is
still accessed, as long as a page is looked up only when all messages of the pages that had its
index before were read. -/
theorem delivered_of_pagesRead (pageBits : Nat) (choices : List (Choice ι μ))
    (read : Run.Steps (program pageBits).step (Interleaving.Meets (Record.PagesRead pageBits))
      start choices) :
    Run.Always (program pageBits).step (Delivered pageBits) (fun _ _ => True) start choices :=
  Run.always_of_steps
    (fun threads => (outline pageBits).Holds threads ∧ Attended threads)
    (fun _ invariant => delivered_of_holds invariant.1 invariant.2)
    (fun _ choice invariant read =>
      ⟨trivial, outline_step invariant.1 read, invariant.2.step choice⟩)
    ⟨.idle sound_new, attended_start⟩ read

end Runs

/-- Two messages are posted, and one of them is read. -/
theorem delivered_two :
    Run.Always (program opQueuePageBits).step (Delivered opQueuePageBits)
      (fun _ _ => True) (start : Threads Nat Nat)
      ([.call 1 (.post 7)] ++ List.replicate 4 (.advance 1 ()) ++ [.call 2 (.post 8)] ++
        List.replicate 4 (.advance 2 ()) ++ [.call 3 .get] ++ List.replicate 8 (.advance 3 ())) :=
  delivered_of_pagesRead opQueuePageBits _ (by decide)

end Cube.Base.TQueue
