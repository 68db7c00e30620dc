import Mathlib.Data.List.Nodup
import Mathlib.Data.UInt
import Cube.Lib.LeastFirst
import Cube.Lib.Outcome
import Cube.Eco.Config

/-! # The load balancer of a TCP client

A client knows the addresses of several servers, and for each of them how often it has tried to
connect to it. An attempt goes to the first address with the fewest attempts.
-/

namespace Cube.Eco.Net

structure Address where
  name : CString
  hostName : CString
  serviceName : CString
  deriving DecidableEq, Repr

namespace Address

/-- What tells addresses apart: the name does not. -/
def endpoint (addr : Address) : CString × CString := (addr.hostName, addr.serviceName)

/-- `equal`, which compares with `strcmp`. -/
def equal (addr1 addr2 : Address) : Bool :=
  addr1.hostName == addr2.hostName && addr1.serviceName == addr2.serviceName

theorem equal_iff {addr1 addr2 : Address} :
    addr1.equal addr2 = true ↔ addr1.endpoint = addr2.endpoint := by
  rw [equal, Bool.and_eq_true, beq_iff_eq, beq_iff_eq, endpoint, endpoint, Prod.mk.injEq]

/-- `set()` without an address keeps the name. -/
def unset (addr : Address) : Address := { addr with hostName := [], serviceName := [] }

end Address

structure AddressLoad where
  address : Address
  workload : UInt16
  flag : UInt16
  deriving DecidableEq, Repr

namespace AddressLoad

/-- The constructor for an address. -/
def make (addr : Address) : AddressLoad := ⟨addr, 0, 0⟩

def clear (load : AddressLoad) : AddressLoad := ⟨load.address.unset, 0, 0⟩

def endpoint (load : AddressLoad) : CString × CString := load.address.endpoint

def setFlag (load : AddressLoad) (flag : UInt16) : AddressLoad := { load with flag }

/-- `++m_workload`. -/
def attempt (load : AddressLoad) : AddressLoad := { load with workload := load.workload + 1 }

@[simp] theorem endpoint_setFlag (load : AddressLoad) (flag : UInt16) :
    (load.setFlag flag).endpoint = load.endpoint := rfl

@[simp] theorem endpoint_attempt (load : AddressLoad) : load.attempt.endpoint = load.endpoint := rfl

/-- The endpoints of some addresses. -/
def endpoints (loads : List AddressLoad) : List (CString × CString) := loads.map endpoint

theorem endpoints_modify (loads : List AddressLoad) (pos : Nat) {change : AddressLoad → AddressLoad}
    (same : ∀ load, (change load).endpoint = load.endpoint) :
    endpoints (loads.modify pos change) = endpoints loads := by
  apply List.ext_getElem?
  intro other
  rw [endpoints, endpoints, List.getElem?_map, List.getElem?_map, List.getElem?_modify]
  cases loads[other]? with
  | none => rfl
  | some load =>
      refine congrArg some ?_
      change (if pos = other then change load else load).endpoint = load.endpoint
      split
      · exact same load
      · rfl

end AddressLoad

open AddressLoad (endpoints)

/-- The balancer without its peer. Addresses are pushed only if they are not found. -/
structure LoadBalancer where
  addressCur : AddressLoad
  addressSet : List AddressLoad
  distinct : (endpoints addressSet).Nodup

namespace LoadBalancer

def new : LoadBalancer := ⟨⟨⟨[], [], []⟩, 0, 0⟩, [], List.nodup_nil⟩

/-! ## Connecting -/

/-- `connect`, where the peer is connected or not: the address it connects to, if it returns
true. -/
def connect (balancer : LoadBalancer) (connected : Bool) : Option Address × LoadBalancer :=
  match connected, balancer.addressSet with
  | true, _ => (none, balancer)
  | false, [] => (none, balancer)
  | false, first :: rest =>
      let workloads := (first :: rest).map AddressLoad.workload
      let minWorkload := scanLeast workloads 0 (0, first.workload)
      let loads := balancer.addressSet.modify minWorkload.1 AddressLoad.attempt
      let balancer : LoadBalancer :=
        { balancer with
          addressSet := loads
          distinct := by
            rw [AddressLoad.endpoints_modify _ _ AddressLoad.endpoint_attempt]
            exact balancer.distinct }
      match loads[minWorkload.1]? with
      | some server => (some server.address, { balancer with addressCur := server })
      | none => (none, balancer)

/-! ## Updating the addresses -/

/-- The address is flagged as old where it is found first, or pushed and flagged as new. -/
def flagAddress (loads : List AddressLoad) (addr : Address) : List AddressLoad :=
  match loads.findIdx? fun load => load.address.equal addr with
  | none => loads ++ [(AddressLoad.make addr).setFlag 1]
  | some pos => loads.modify pos fun load => load.setFlag 2

/-- The loop that deletes: an address without a flag is erased, and the one behind it is compared
with the current address. Behind the last one there is none. -/
def deleteAddresses (cur : AddressLoad) : List AddressLoad →
    Outcome Empty (AddressLoad × List AddressLoad)
  | [] => .ok (cur, [])
  | load :: loads =>
      if load.flag ≠ 0 then do
        let (cur, kept) ← deleteAddresses cur loads
        .ok (cur, load :: kept)
      else
        match loads.head? with
        | none => .fault
        | some next =>
            deleteAddresses (if cur.address.equal next.address then cur.clear else cur) loads

/-- The addresses with their flags, before the deletion. -/
def flagged (balancer : LoadBalancer) (addr : List Address) : List AddressLoad :=
  addr.foldl flagAddress (balancer.addressSet.map fun load => load.setFlag 0)

theorem endpoints_flagAddress (loads : List AddressLoad) (addr : Address) :
    endpoints (flagAddress loads addr) =
      if addr.endpoint ∈ endpoints loads then endpoints loads
      else endpoints loads ++ [addr.endpoint] := by
  have found : addr.endpoint ∈ endpoints loads ↔
      ∃ load ∈ loads, load.address.equal addr = true := by
    simp only [endpoints, List.mem_map, Address.equal_iff]
    rfl
  unfold flagAddress
  split
  next absent =>
    rw [if_neg]
    · exact List.map_append
    · rw [found]
      rintro ⟨load, member, same⟩
      exact Bool.false_ne_true ((List.findIdx?_eq_none_iff.mp absent load member).symm.trans same)
  next pos present =>
    rw [if_pos]
    · exact AddressLoad.endpoints_modify _ _ fun load => AddressLoad.endpoint_setFlag load 2
    · rw [found]
      obtain ⟨inside, same, _⟩ := List.findIdx?_eq_some_iff_getElem.mp present
      exact ⟨loads[pos], List.getElem_mem inside, same⟩

theorem nodup_flagAddress {loads : List AddressLoad} (distinct : (endpoints loads).Nodup)
    (addr : Address) : (endpoints (flagAddress loads addr)).Nodup := by
  rw [endpoints_flagAddress]
  split
  next => exact distinct
  next absent => exact List.nodup_append.mpr ⟨distinct, List.nodup_singleton _, fun other member _ last same =>
      absent (List.mem_singleton.mp last ▸ same ▸ member)⟩

theorem nodup_flagged (balancer : LoadBalancer) (addr : List Address) :
    (endpoints (balancer.flagged addr)).Nodup := by
  have run (loads : List AddressLoad) (distinct : (endpoints loads).Nodup) :
      (endpoints (addr.foldl flagAddress loads)).Nodup := by
    induction addr generalizing loads with
    | nil => exact distinct
    | cons addr rest ih => exact ih _ (nodup_flagAddress distinct addr)
  apply run
  rw [endpoints, List.map_map]
  exact balancer.distinct

theorem deleteAddresses_sublist {loads kept : List AddressLoad} {cur after : AddressLoad}
    (deleted : deleteAddresses cur loads = .ok (after, kept)) : kept.Sublist loads := by
  induction loads generalizing cur kept with
  | nil =>
      cases deleted
      exact List.Sublist.refl []
  | cons load loads ih =>
      rw [deleteAddresses] at deleted
      split at deleted
      next =>
        obtain ⟨rest, keptRest, returned⟩ := Outcome.bind_eq_ok.mp deleted
        cases returned
        exact (ih keptRest).cons_cons load
      next =>
        split at deleted
        next => cases deleted
        next => exact (ih deleted).cons load

/-- `update_address`. -/
def updateAddress (balancer : LoadBalancer) (addr : List Address) : Outcome Empty LoadBalancer :=
  match deleted : deleteAddresses balancer.addressCur (balancer.flagged addr) with
  | .ok (addressCur, addressSet) =>
      .ok ⟨addressCur, addressSet,
        (balancer.nodup_flagged addr).sublist ((deleteAddresses_sublist deleted).map _)⟩
  | _ => .fault

end LoadBalancer

end Cube.Eco.Net
