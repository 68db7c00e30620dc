import Cube.Eco.Net.LoadBalancer

/-! # Updating the addresses of a client

`update_address` flags the addresses that stay or are new and deletes the others. It clears the
current address by a look at the address behind one that was erased: that is the wrong one, and
behind the last address there is none.
-/

namespace Cube.Eco.Net

open AddressLoad (endpoints)

/-- What a client knows of the server it connects to. -/
def AddressLoad.current (load : AddressLoad) : Option (CString × CString) :=
  if load.endpoint = ([], []) then none else some load.endpoint

namespace LoadBalancer

/-- The addresses after an update are the new ones, old ones with the attempts they had, and the
current address is cleared if it is not among them. -/
structure Replaces (before : LoadBalancer) (addr : List Address) (after : LoadBalancer) : Prop where
  addresses : ∀ endpoint, endpoint ∈ endpoints after.addressSet ↔
    endpoint ∈ addr.map Address.endpoint
  keeps : ∀ load ∈ after.addressSet, ∀ old ∈ before.addressSet, old.endpoint = load.endpoint →
    load.workload = old.workload
  starts : ∀ load ∈ after.addressSet, load.endpoint ∉ endpoints before.addressSet →
    load.workload = 0
  current : after.addressCur.current = before.addressCur.current.filter fun endpoint =>
    decide (endpoint ∈ addr.map Address.endpoint)

/-- The update replaces the addresses, and uses no iterator that is not valid. -/
def Updates (before : LoadBalancer) (addr : List Address) : Prop :=
  ∃ after, before.updateAddress addr = .ok after ∧ before.Replaces addr after

/-- The addresses that the deletion goes through: the old ones, and behind them those that are
new. -/
def merged (before : LoadBalancer) (addr : List Address) : List (CString × CString) :=
  addr.foldl (fun known addr => if addr.endpoint ∈ known then known else known ++ [addr.endpoint])
    (endpoints before.addressSet)

/-- An item stands right behind one that is gone. -/
def Follows {α : Type} (gone : α → Prop) (item : α) : List α → Prop
  | [] => False
  | other :: items => (gone other ∧ items.head? = some item) ∨ Follows gone item items

/-- The last address stays, and the current address stands right behind one that is deleted if
and only if it is deleted itself. -/
structure Spares (before : LoadBalancer) (addr : List Address) : Prop where
  last : ∀ endpoint ∈ (before.merged addr).getLast?, endpoint ∈ addr.map Address.endpoint
  current : ∀ endpoint, before.addressCur.current = some endpoint →
    (endpoint ∈ addr.map Address.endpoint ↔
      ¬ Follows (· ∉ addr.map Address.endpoint) endpoint (before.merged addr))

/-! ## Flags -/

/-- Addresses that were flagged by a part of the new ones. -/
structure Marked (before : LoadBalancer) (addr : List Address) (loads : List AddressLoad) :
    Prop where
  addresses : endpoints loads = before.merged addr
  distinct : (endpoints loads).Nodup
  flag : ∀ load ∈ loads, load.flag = 0 ↔ load.endpoint ∉ addr.map Address.endpoint
  keeps : ∀ load ∈ loads, ∀ old ∈ before.addressSet, old.endpoint = load.endpoint →
    load.workload = old.workload
  starts : ∀ load ∈ loads, load.endpoint ∉ endpoints before.addressSet → load.workload = 0

variable {before : LoadBalancer} {addr : List Address} {loads : List AddressLoad}

theorem eq_of_endpoint (distinct : (endpoints loads).Nodup) {first second : AddressLoad}
    (firstMember : first ∈ loads) (secondMember : second ∈ loads)
    (same : first.endpoint = second.endpoint) : first = second :=
  List.inj_on_of_nodup_map distinct firstMember secondMember same

theorem marked_nil (before : LoadBalancer) :
    before.Marked [] (before.addressSet.map fun load => load.setFlag 0) := by
  have addresses : endpoints (before.addressSet.map fun load => load.setFlag 0) =
      endpoints before.addressSet := by
    rw [endpoints, List.map_map]
    rfl
  refine ⟨addresses, addresses ▸ before.distinct, fun load member => ?_,
    fun load member old oldMember same => ?_, fun load member unknown => ?_⟩
  · obtain ⟨old, _, rfl⟩ := List.mem_map.mp member
    exact iff_of_true rfl List.not_mem_nil
  · obtain ⟨origin, originMember, rfl⟩ := List.mem_map.mp member
    rw [eq_of_endpoint before.distinct oldMember originMember same]
    rfl
  · obtain ⟨origin, originMember, rfl⟩ := List.mem_map.mp member
    exact (unknown (List.mem_map.mpr ⟨origin, originMember, rfl⟩)).elim

theorem merged_concat (before : LoadBalancer) (addr : List Address) (last : Address) :
    before.merged (addr ++ [last]) =
      if last.endpoint ∈ before.merged addr then before.merged addr
      else before.merged addr ++ [last.endpoint] := by
  rw [merged, List.foldl_append]
  rfl

/-- Old addresses are never taken out of the way. -/
theorem mem_merged {endpoint : CString × CString} :
    endpoint ∈ before.merged addr ↔
      endpoint ∈ endpoints before.addressSet ∨ endpoint ∈ addr.map Address.endpoint := by
  induction addr using List.reverseRecOn with
  | nil => simp [merged]
  | append_singleton addr last ih =>
      rw [merged_concat, List.map_append, List.mem_append, ← or_assoc, ← ih]
      split
      next known =>
        constructor
        · exact .inl
        · rintro (member | isLast)
          · exact member
          · exact List.mem_singleton.mp isLast ▸ known
      next => exact List.mem_append

/-- What stands in the list after an address was flagged: the other addresses as they were, and
that address with a flag. -/
theorem mem_flagAddress (distinct : (endpoints loads).Nodup) {last : Address} {load : AddressLoad}
    (member : load ∈ flagAddress loads last) :
    (load ∈ loads ∧ load.endpoint ≠ last.endpoint) ∨
      load.endpoint = last.endpoint ∧ load.flag ≠ 0 ∧
        ((∃ old ∈ loads, old.endpoint = last.endpoint ∧ load.workload = old.workload) ∨
          last.endpoint ∉ endpoints loads ∧ load.workload = 0) := by
  unfold flagAddress at member
  split at member
  next absent =>
    have isNew : last.endpoint ∉ endpoints loads := by
      intro known
      obtain ⟨old, inside, same⟩ := List.mem_map.mp known
      have found := List.findIdx?_eq_none_iff.mp absent old inside
      rw [Address.equal_iff.mpr same] at found
      cases found
    rcases List.mem_append.mp member with inside | isLast
    · exact .inl ⟨inside, fun same => isNew (same ▸ List.mem_map_of_mem inside)⟩
    · rw [List.mem_singleton.mp isLast]
      exact .inr ⟨rfl, (by decide : (1 : UInt16) ≠ 0), .inr ⟨isNew, rfl⟩⟩
  next pos found =>
    obtain ⟨inside, equal, _⟩ := List.findIdx?_eq_some_iff_getElem.mp found
    have isLast : loads[pos].endpoint = last.endpoint := Address.equal_iff.mp equal
    obtain ⟨other, stands⟩ := List.mem_iff_getElem?.mp member
    rw [List.getElem?_modify] at stands
    obtain ⟨old, oldStands, changed⟩ := Option.map_eq_some_iff.mp stands
    obtain ⟨otherInside, rfl⟩ := List.getElem?_eq_some_iff.mp oldStands
    by_cases here : pos = other
    · subst here
      rw [if_pos rfl] at changed
      subst changed
      exact .inr ⟨isLast, (by decide : (2 : UInt16) ≠ 0), .inl ⟨_, List.getElem_mem inside, isLast, rfl⟩⟩
    · rw [if_neg here] at changed
      subst changed
      refine .inl ⟨List.getElem_mem otherInside, fun same => here ?_⟩
      have sameLoad := eq_of_endpoint distinct (List.getElem_mem inside)
        (List.getElem_mem otherInside) (isLast.trans same.symm)
      exact (List.Nodup.getElem_inj_iff (List.Nodup.of_map _ distinct)).mp sameLoad

/-- Flagging one address of the new ones. -/
theorem Marked.flagAddress (marked : before.Marked addr loads) (last : Address) :
    before.Marked (addr ++ [last]) (flagAddress loads last) where
  addresses := by
    rw [endpoints_flagAddress, merged_concat, marked.addresses]
  distinct := nodup_flagAddress marked.distinct last
  flag load member := by
    rw [List.map_append, List.mem_append, List.map_singleton, List.mem_singleton]
    rcases mem_flagAddress marked.distinct member with ⟨inside, other⟩ | ⟨isLast, flagged, _⟩
    · rw [or_iff_left other]
      exact marked.flag load inside
    · exact iff_of_false flagged fun outside => outside (.inr isLast)
  keeps load member old oldMember same := by
    rcases mem_flagAddress marked.distinct member with
      ⟨inside, _⟩ | ⟨isLast, _, ⟨origin, inside, sameOrigin, kept⟩ | ⟨isNew, _⟩⟩
    · exact marked.keeps load inside old oldMember same
    · rw [kept]
      exact marked.keeps origin inside old oldMember
        (same.trans (isLast.trans sameOrigin.symm))
    · have known : last.endpoint ∈ before.merged addr :=
        mem_merged.mpr (.inl (List.mem_map.mpr ⟨old, oldMember, same.trans isLast⟩))
      exact (isNew (marked.addresses ▸ known)).elim
  starts load member unknown := by
    rcases mem_flagAddress marked.distinct member with
      ⟨inside, _⟩ | ⟨isLast, _, ⟨origin, inside, sameOrigin, kept⟩ | ⟨_, zero⟩⟩
    · exact marked.starts load inside unknown
    · rw [kept]
      exact marked.starts origin inside (sameOrigin ▸ isLast ▸ unknown)
    · exact zero

/-- **Flags.** Before the deletion, the flags tell which addresses are among the new ones. -/
theorem marked_flagged (before : LoadBalancer) (addr : List Address) :
    before.Marked addr (before.flagged addr) := by
  induction addr using List.reverseRecOn with
  | nil => exact marked_nil before
  | append_singleton addr last ih =>
      rw [flagged, List.foldl_append]
      exact ih.flagAddress last

/-! ## The deletion -/

theorem deleteAddresses_kept {load : AddressLoad} (kept : load.flag ≠ 0) (cur : AddressLoad)
    (loads : List AddressLoad) : deleteAddresses cur (load :: loads) = (do
      let (cur, kept) ← deleteAddresses cur loads
      .ok (cur, load :: kept)) := by
  rw [deleteAddresses, if_pos kept]

theorem deleteAddresses_last {load : AddressLoad} (deleted : load.flag = 0) (cur : AddressLoad) :
    deleteAddresses cur [load] = .fault := by
  rw [deleteAddresses, if_neg (not_not_intro deleted)]
  rfl

theorem deleteAddresses_next {load : AddressLoad} (deleted : load.flag = 0) (cur next : AddressLoad)
    (loads : List AddressLoad) : deleteAddresses cur (load :: next :: loads) =
      deleteAddresses (if cur.address.equal next.address then cur.clear else cur)
        (next :: loads) := by
  rw [deleteAddresses, if_neg (not_not_intro deleted)]
  rfl

theorem current_clear (load : AddressLoad) : load.clear.current = none := if_pos rfl

theorem endpoint_of_current {load : AddressLoad} {endpoint : CString × CString}
    (current : load.current = some endpoint) : load.endpoint = endpoint := by
  unfold AddressLoad.current at current
  split at current
  · cases current
  · exact Option.some.inj current

/-- The look at the next address clears the current one if they are the same. -/
theorem current_compared (cur next : AddressLoad) (endpoint : CString × CString) :
    (if cur.address.equal next.address then cur.clear else cur).current = some endpoint ↔
      cur.current = some endpoint ∧ next.endpoint ≠ endpoint := by
  by_cases same : cur.endpoint = next.endpoint
  · rw [if_pos (Address.equal_iff.mpr same), current_clear]
    refine iff_of_false nofun fun both => both.2 ?_
    exact same.symm.trans (endpoint_of_current both.1)
  · rw [if_neg (fun equal => same (Address.equal_iff.mp equal))]
    refine ⟨fun current => ⟨current, fun isNext => same ?_⟩, And.left⟩
    exact (endpoint_of_current current).trans isNext.symm

theorem getLast?_endpoints (load next : AddressLoad) (loads : List AddressLoad) :
    (endpoints (load :: next :: loads)).getLast? = (endpoints (next :: loads)).getLast? :=
  List.getLast?_cons_cons

/-- The next address stands behind one that is gone. -/
theorem follows_of_gone {gone : CString × CString → Prop} {load : AddressLoad}
    (isGone : gone load.endpoint) (next : AddressLoad) (loads : List AddressLoad)
    (endpoint : CString × CString) : Follows gone endpoint (endpoints (load :: next :: loads)) ↔
      next.endpoint = endpoint ∨ Follows gone endpoint (endpoints (next :: loads)) :=
  or_congr_left ((and_iff_right isGone).trans Option.some_inj)

theorem follows_of_kept {gone : CString × CString → Prop} {load : AddressLoad}
    (kept : ¬ gone load.endpoint) (loads : List AddressLoad) (endpoint : CString × CString) :
    Follows gone endpoint (endpoints (load :: loads)) ↔ Follows gone endpoint (endpoints loads) :=
  or_iff_right fun both => kept both.1

/-- **The deletion.** It goes past the end if the last address has no flag. Otherwise the
addresses with a flag are kept, and the current address unless it stands behind one without. -/
theorem deleteAddresses_spec (gone : CString × CString → Prop)
    (flag : ∀ load ∈ loads, load.flag = 0 ↔ gone load.endpoint) (cur : AddressLoad) :
    ((∃ endpoint ∈ (endpoints loads).getLast?, gone endpoint) ∧
      deleteAddresses cur loads = .fault) ∨
    ((∀ endpoint ∈ (endpoints loads).getLast?, ¬ gone endpoint) ∧ ∃ after,
      deleteAddresses cur loads = .ok (after, loads.filter fun load => load.flag ≠ 0) ∧
      ∀ endpoint, after.current = some endpoint ↔
        cur.current = some endpoint ∧ ¬ Follows gone endpoint (endpoints loads)) := by
  induction loads generalizing cur with
  | nil =>
      refine .inr ⟨nofun, cur, rfl, fun endpoint => ?_⟩
      exact (and_iff_left id).symm
  | cons load loads ih =>
      have rest : ∀ load ∈ loads, load.flag = 0 ↔ gone load.endpoint :=
        fun load member => flag load (List.mem_cons_of_mem _ member)
      have here := flag load List.mem_cons_self
      by_cases deleted : load.flag = 0
      · cases loads with
        | nil =>
            exact .inl ⟨⟨load.endpoint, rfl, here.mp deleted⟩, deleteAddresses_last deleted cur⟩
        | cons next loads =>
            rw [getLast?_endpoints, deleteAddresses_next deleted,
              List.filter_cons_of_neg (by simpa using deleted)]
            rcases ih rest (if cur.address.equal next.address then cur.clear else cur) with
              fails | ⟨stays, after, returned, current⟩
            · exact .inl fails
            · refine .inr ⟨stays, after, returned, fun endpoint => ?_⟩
              rw [current, current_compared, follows_of_gone (here.mp deleted), not_or, and_assoc]
      · have kept : ¬ gone load.endpoint := fun isGone => deleted (here.mpr isGone)
        rw [deleteAddresses_kept deleted, List.filter_cons_of_pos (by simpa using deleted)]
        cases loads with
        | nil =>
            refine .inr ⟨?_, cur, rfl, fun endpoint => ?_⟩
            · rintro _ ⟨⟩
              exact kept
            · rw [follows_of_kept kept]
              exact (and_iff_left id).symm
        | cons next loads =>
            rw [getLast?_endpoints]
            rcases ih rest cur with ⟨isGone, fails⟩ | ⟨stays, after, returned, current⟩
            · exact .inl ⟨isGone, by rw [fails]; rfl⟩
            · refine .inr ⟨stays, after, by rw [returned]; rfl, fun endpoint => ?_⟩
              rw [current, follows_of_kept kept]

/-! ## The update -/

theorem updateAddress_eq_ok {after : LoadBalancer} :
    before.updateAddress addr = .ok after ↔ deleteAddresses before.addressCur
      (before.flagged addr) = .ok (after.addressCur, after.addressSet) := by
  unfold updateAddress
  split
  next addressCur addressSet deleted =>
    constructor
    · rintro ⟨⟩
      exact deleted
    · intro same
      cases after
      cases deleted.symm.trans same
      rfl
  next failed =>
    refine iff_of_false nofun fun deleted => failed _ _ deleted

/-- **Updating the addresses.** The update does what it should exactly when the last address
stays and the current address stands behind a deleted one if and only if it is deleted. -/
theorem updates_iff (before : LoadBalancer) (addr : List Address) :
    before.Updates addr ↔ before.Spares addr := by
  have marked := marked_flagged before addr
  rcases deleteAddresses_spec (· ∉ addr.map Address.endpoint) marked.flag before.addressCur with
    ⟨⟨endpoint, isLast, gone⟩, fails⟩ | ⟨stays, cur, returned, current⟩
  · refine iff_of_false ?_ ?_
    · rintro ⟨after, updated, _⟩
      rw [updateAddress_eq_ok, fails] at updated
      cases updated
    · intro spares
      exact gone (spares.last endpoint (marked.addresses ▸ isLast))
  · rw [marked.addresses] at stays current
    constructor
    · rintro ⟨after, updated, replaces⟩
      rw [updateAddress_eq_ok, returned, Outcome.ok.injEq, Prod.mk.injEq] at updated
      rw [updated.1] at current
      refine ⟨fun endpoint isLast => not_not.mp (stays endpoint isLast), fun endpoint before => ?_⟩
      have after := current endpoint
      rw [replaces.current, before, Option.filter_eq_some_iff] at after
      simpa using after
    · intro spares
      have distinct : (endpoints ((before.flagged addr).filter fun load => load.flag ≠ 0)).Nodup :=
        marked.distinct.sublist (List.filter_sublist.map _)
      have isNew {load : AddressLoad} (member : load ∈ before.flagged addr) :
          load.flag ≠ 0 ↔ load.endpoint ∈ addr.map Address.endpoint :=
        (not_congr (marked.flag load member)).trans not_not
      refine ⟨⟨cur, _, distinct⟩, updateAddress_eq_ok.mpr returned, fun endpoint => ?_,
        fun load member => marked.keeps load (List.mem_of_mem_filter member),
        fun load member => marked.starts load (List.mem_of_mem_filter member), ?_⟩
      · constructor
        · intro member
          obtain ⟨load, kept, rfl⟩ := List.mem_map.mp member
          obtain ⟨inside, flagged⟩ := List.mem_filter.mp kept
          exact (isNew inside).mp (of_decide_eq_true flagged)
        · intro member
          have listed : endpoint ∈ endpoints (before.flagged addr) := by
            rw [marked.addresses]
            exact mem_merged.mpr (.inr member)
          obtain ⟨load, inside, rfl⟩ := List.mem_map.mp listed
          exact List.mem_map_of_mem
            (List.mem_filter.mpr ⟨inside, decide_eq_true ((isNew inside).mpr member)⟩)
      · apply Option.ext
        intro endpoint
        rw [current, Option.filter_eq_some_iff, decide_eq_true_iff]
        exact and_congr_right fun known => (spares.current endpoint known).symm

/-- A client that has tried the first of two addresses. -/
def twoAddresses : LoadBalancer where
  addressCur := ⟨⟨[], ['a'], ['1']⟩, 1, 0⟩
  addressSet := [⟨⟨[], ['a'], ['1']⟩, 1, 0⟩, ⟨⟨[], ['b'], ['1']⟩, 0, 0⟩]
  distinct := by decide

/-- The first address is removed, but stays the current one; or the last one is removed, and the
look at the next one goes past the end. -/
theorem update_mistaken : ¬ twoAddresses.Updates [⟨[], ['b'], ['1']⟩] ∧
    ¬ twoAddresses.Updates [⟨[], ['a'], ['1']⟩] := by
  constructor
  · rintro ⟨after, updated, replaces⟩
    have stays : after.addressCur = twoAddresses.addressCur := by
      have deleted := updateAddress_eq_ok.mp updated
      exact (Prod.mk.inj (Outcome.ok.inj deleted)).1.symm
    have cleared := replaces.current
    rw [stays] at cleared
    exact absurd cleared (by decide)
  · rintro ⟨after, updated, _⟩
    have deleted := updateAddress_eq_ok.mp updated
    cases deleted

end LoadBalancer

end Cube.Eco.Net
