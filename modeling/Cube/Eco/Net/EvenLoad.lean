import Cube.Lib.LeastFirst
import Cube.Lib.Run
import Cube.Eco.Net.LoadBalancer

/-! # Even load

As long as no counter of attempts has reached its limit, the attempts of a client go round its
addresses. A counter that overflows starts again at zero, so that from then on every attempt goes
to the first address.
-/

namespace Cube.Eco.Net

open AddressLoad (endpoints)
open Rotation (share)

namespace LoadBalancer

/-- A balancer, and the addresses it has tried to connect to. -/
structure Attempts where
  balancer : LoadBalancer
  attempted : List Address

/-- A call of `connect` while the peer is connected or not. -/
def Attempts.connect (attempts : Attempts) (connected : Bool) : Attempts :=
  let (addr, balancer) := attempts.balancer.connect connected
  ⟨balancer, attempts.attempted ++ addr.toList⟩

/-- The attempts at an address. -/
def Attempts.count (attempts : Attempts) (endpoint : CString × CString) : Nat :=
  (attempts.attempted.map Address.endpoint).count endpoint

/-- The attempts at two addresses differ by at most one. -/
def Attempts.Even (attempts : Attempts) : Prop :=
  ∀ first ∈ endpoints attempts.balancer.addressSet,
    ∀ second ∈ endpoints attempts.balancer.addressSet,
      attempts.count first ≤ attempts.count second + 1

/-- The largest number of attempts that is counted. -/
def maxWorkload : Nat := 2 ^ 16 - 1

/-! ## Whose turn it is -/

/-- The position of the address that is tried after `t` attempts. -/
def nextPos (n t : Nat) : Nat := if t < maxWorkload * n then t % n else 0

/-- The attempts at the address at a position, after `t` attempts. -/
def attemptsAt (n t pos : Nat) : Nat :=
  if t ≤ maxWorkload * n then share n t pos
  else if pos = 0 then t - maxWorkload * (n - 1) else maxWorkload

variable {n t : Nat}

theorem nextPos_lt (positive : 0 < n) (t : Nat) : nextPos n t < n := by
  unfold nextPos
  split
  · exact Nat.mod_lt t positive
  · exact positive

theorem attemptsAt_of_le (counted : t ≤ maxWorkload * n) (pos : Nat) :
    attemptsAt n t pos = share n t pos := if_pos counted

/-- Once all counters are full, only the first address is tried. -/
theorem attemptsAt_first (positive : 0 < n) (full : maxWorkload * n ≤ t) :
    attemptsAt n t 0 = t - maxWorkload * (n - 1) := by
  rcases Nat.eq_or_lt_of_le full with rfl | after
  · rw [attemptsAt_of_le (Nat.le_refl _), Rotation.share_mul positive, maxWorkload]
    omega
  · rw [attemptsAt, if_neg (Nat.not_le_of_lt after), if_pos rfl]

theorem attemptsAt_other (positive : 0 < n) (full : maxWorkload * n ≤ t) {pos : Nat}
    (other : pos ≠ 0) : attemptsAt n t pos = maxWorkload := by
  rcases Nat.eq_or_lt_of_le full with rfl | after
  · rw [attemptsAt_of_le (Nat.le_refl _), Rotation.share_mul positive]
  · rw [attemptsAt, if_neg (Nat.not_le_of_lt after), if_neg other]

theorem attemptsAt_zero (n pos : Nat) : attemptsAt n 0 pos = 0 := by
  rw [attemptsAt_of_le (Nat.zero_le _), share, Nat.zero_div, Nat.zero_mod,
    if_neg (Nat.not_lt_zero pos)]

theorem attemptsAt_succ (positive : 0 < n) (t : Nat) {pos : Nat} (inside : pos < n) :
    attemptsAt n (t + 1) pos = attemptsAt n t pos + if pos = nextPos n t then 1 else 0 := by
  by_cases before : t < maxWorkload * n
  · rw [attemptsAt_of_le before, attemptsAt_of_le (Nat.le_of_lt before), nextPos, if_pos before]
    exact Rotation.share_succ positive t inside
  · have full : maxWorkload * n ≤ t := Nat.le_of_not_lt before
    have later : maxWorkload * n ≤ t + 1 := Nat.le_succ_of_le full
    rw [nextPos, if_neg before]
    by_cases first : pos = 0
    · rw [if_pos first, first, attemptsAt_first positive full, attemptsAt_first positive later]
      rw [maxWorkload] at full ⊢
      omega
    · rw [if_neg first, attemptsAt_other positive full first,
        attemptsAt_other positive later first]
      rfl

/-- Before the counters are full, an address has no more attempts than it can count. -/
theorem attemptsAt_le (before : t < maxWorkload * n) (pos : Nat) :
    attemptsAt n t pos ≤ maxWorkload := by
  have rounds : t / n < maxWorkload := Nat.div_lt_of_lt_mul (Nat.mul_comm _ _ ▸ before)
  rw [attemptsAt_of_le (Nat.le_of_lt before)]
  exact (Rotation.share_le n t pos).trans rounds

/-- **Evenness.** The attempts are even until the second one after all counters are full. -/
theorem attemptsAt_even_iff (positive : 0 < n) (t : Nat) :
    (∀ first < n, ∀ second < n, attemptsAt n t first ≤ attemptsAt n t second + 1) ↔
      n ≤ 1 ∨ t ≤ maxWorkload * n + 1 := by
  by_cases before : t < maxWorkload * n
  · refine iff_of_true (fun first _ second _ => ?_) (.inr (Nat.le_succ_of_le (Nat.le_of_lt before)))
    rw [attemptsAt_of_le (Nat.le_of_lt before), attemptsAt_of_le (Nat.le_of_lt before)]
    exact Rotation.share_le_succ n t first second
  · have full : maxWorkload * n ≤ t := Nat.le_of_not_lt before
    constructor
    · intro even
      by_contra late
      have two : 1 < n := Nat.lt_of_not_le fun one => late (.inl one)
      have apart := even 0 positive 1 two
      rw [attemptsAt_first positive full, attemptsAt_other positive full Nat.one_ne_zero] at apart
      have after : ¬ t ≤ maxWorkload * n + 1 := fun early => late (.inr early)
      rw [maxWorkload] at apart after full
      omega
    · intro early first firstInside second secondInside
      by_cases isFirst : first = 0 <;> by_cases isSecond : second = 0
      · rw [isFirst, isSecond]
        exact Nat.le_succ _
      · rw [isFirst, attemptsAt_first positive full, attemptsAt_other positive full isSecond]
        rw [maxWorkload] at early ⊢
        omega
      · rw [isSecond, attemptsAt_first positive full, attemptsAt_other positive full isFirst]
        rw [maxWorkload] at full ⊢
        omega
      · rw [attemptsAt_other positive full isFirst, attemptsAt_other positive full isSecond]
        exact Nat.le_succ _

/-- **The next turn** is that of the first address whose counter is the lowest. -/
theorem leastFirst_nextPos (positive : 0 < n) {workloads : List UInt16}
    (counted : ∀ pos : Nat, workloads[pos]? =
      if pos < n then some (UInt16.ofNat (attemptsAt n t pos)) else none) :
    LeastFirst workloads (nextPos n t, UInt16.ofNat (attemptsAt n t (nextPos n t))) := by
  have stands : workloads[nextPos n t]? = some (UInt16.ofNat (attemptsAt n t (nextPos n t))) := by
    rw [counted, if_pos (nextPos_lt positive t)]
  have value {pos : Nat} {workload : UInt16} (found : workloads[pos]? = some workload) :
      pos < n ∧ workload = UInt16.ofNat (attemptsAt n t pos) := by
    rw [counted] at found
    split at found
    · exact ⟨‹_›, (Option.some.inj found).symm⟩
    · cases found
  by_cases before : t < maxWorkload * n
  · have exact_toNat (pos : Nat) : (UInt16.ofNat (attemptsAt n t pos)).toNat = share n t pos := by
      rw [UInt16.toNat_ofNat_of_lt' (Nat.lt_succ_of_le (attemptsAt_le before pos)),
        attemptsAt_of_le (Nat.le_of_lt before)]
    have turn : nextPos n t = t % n := if_pos before
    refine ⟨stands, fun pos workload found => ?_, fun pos workload earlier found => ?_⟩
    · rw [(value found).2, UInt16.le_iff_toNat_le, exact_toNat, exact_toNat, turn]
      exact Rotation.share_next_le n t pos
    · rw [(value found).2, UInt16.lt_iff_toNat_lt, exact_toNat, exact_toNat, turn]
      exact Rotation.share_next_lt (turn ▸ earlier)
  · have turn : nextPos n t = 0 := if_neg before
    refine ⟨stands, fun pos workload found => ?_, fun pos workload earlier found => ?_⟩
    · obtain ⟨inside, same⟩ := value found
      by_cases first : pos = 0
      · rw [same, turn, first]
        exact UInt16.le_refl _
      · rw [same, attemptsAt_other positive (Nat.le_of_not_lt before) first, UInt16.le_iff_toNat_le]
        exact Nat.le_of_lt_succ (UInt16.toNat_lt _)
    · exact (Nat.not_lt_zero pos (turn ▸ earlier)).elim

/-! ## Runs -/

/-- An attempt goes to the first address with the lowest counter. -/
theorem connect_of_leastFirst {balancer : LoadBalancer} {pos : Nat} {workload : UInt16}
    (least : LeastFirst (balancer.addressSet.map AddressLoad.workload) (pos, workload))
    {server : AddressLoad} (found : balancer.addressSet[pos]? = some server) :
    (balancer.connect false).1 = some server.address ∧
      (balancer.connect false).2.addressSet =
        balancer.addressSet.modify pos AddressLoad.attempt := by
  obtain ⟨cur, set, distinct⟩ := balancer
  cases set with
  | nil => cases found
  | cons first rest =>
      have scanned : LeastFirst (first.workload :: rest.map AddressLoad.workload)
          (scanLeast (first.workload :: rest.map AddressLoad.workload) 0 (0, first.workload)) :=
        leastFirst_scanLeast first.workload (rest.map AddressLoad.workload)
      have same := scanned.pos_eq least
      have tried : ((first :: rest).modify pos AddressLoad.attempt)[pos]? =
          some server.attempt := by
        rw [List.getElem?_modify, found]
        exact congrArg some (if_pos rfl)
      simp only [connect, List.map_cons, same, tried]
      exact ⟨rfl, trivial⟩

/-- The attempts so far, where the addresses known were not tried before. -/
structure Rotated (known : List (CString × CString)) (attempts : Attempts) : Prop where
  addresses : endpoints attempts.balancer.addressSet = known
  workload : ∀ (pos : Nat) load, attempts.balancer.addressSet[pos]? = some load →
    load.workload = UInt16.ofNat (attemptsAt known.length attempts.attempted.length pos)
  count : ∀ (pos : Nat) load, attempts.balancer.addressSet[pos]? = some load →
    attempts.count load.endpoint = attemptsAt known.length attempts.attempted.length pos

variable {known : List (CString × CString)} {attempts : Attempts}

theorem rotated_start {balancer : LoadBalancer}
    (fresh : ∀ load ∈ balancer.addressSet, load.workload = 0) :
    Rotated (endpoints balancer.addressSet) ⟨balancer, []⟩ where
  addresses := rfl
  workload pos load found := by
    rw [fresh load (List.mem_of_getElem? found), List.length_nil, attemptsAt_zero]
    rfl
  count pos load found := by
    rw [List.length_nil, attemptsAt_zero]
    rfl

theorem Rotated.length_eq (rotated : Rotated known attempts) :
    attempts.balancer.addressSet.length = known.length := by
  rw [← rotated.addresses, endpoints, List.length_map]

/-- Whose turn it is has the lowest counter. -/
theorem Rotated.leastFirst (rotated : Rotated known attempts) (positive : 0 < known.length) :
    LeastFirst (attempts.balancer.addressSet.map AddressLoad.workload)
      (nextPos known.length attempts.attempted.length, UInt16.ofNat (attemptsAt known.length
        attempts.attempted.length (nextPos known.length attempts.attempted.length))) := by
  apply leastFirst_nextPos positive
  intro pos
  rw [List.getElem?_map]
  split
  next inside =>
    rw [← rotated.length_eq] at inside
    have found := List.getElem?_eq_getElem inside
    rw [found]
    exact congrArg some (rotated.workload pos _ found)
  next outside =>
    rw [← rotated.length_eq] at outside
    rw [List.getElem?_eq_none (Nat.le_of_not_lt outside)]
    rfl

/-- Loads with the same endpoint stand at the same position. -/
theorem endpoint_eq_iff (balancer : LoadBalancer) {pos other : Nat} {load otherLoad : AddressLoad}
    (stands : balancer.addressSet[pos]? = some load)
    (otherStands : balancer.addressSet[other]? = some otherLoad) :
    otherLoad.endpoint = load.endpoint ↔ pos = other := by
  have endpointAt {pos : Nat} {load : AddressLoad}
      (stands : balancer.addressSet[pos]? = some load) :
      (endpoints balancer.addressSet)[pos]? = some load.endpoint := by
    rw [endpoints, List.getElem?_map, stands]
    rfl
  constructor
  · intro same
    have inside := (List.getElem?_eq_some_iff.mp (endpointAt stands)).1
    apply (List.getElem?_inj inside balancer.distinct).mp
    rw [endpointAt stands, endpointAt otherStands]
    exact congrArg some same.symm
  · rintro rfl
    exact congrArg AddressLoad.endpoint (Option.some.inj (otherStands.symm.trans stands))

/-- After an attempt an address stands where it stood, with one attempt more if it was its turn. -/
theorem Rotated.origin (rotated : Rotated known attempts) {next pos : Nat} {load : AddressLoad}
    (stands : (attempts.balancer.addressSet.modify next AddressLoad.attempt)[pos]? = some load) :
    pos < known.length ∧ ∃ old, attempts.balancer.addressSet[pos]? = some old ∧
      load = if pos = next then old.attempt else old := by
  rw [List.getElem?_modify] at stands
  obtain ⟨old, oldStands, changed⟩ := Option.map_eq_some_iff.mp stands
  refine ⟨rotated.length_eq ▸ (List.getElem?_eq_some_iff.mp oldStands).1, old, oldStands, ?_⟩
  rw [← changed]
  exact if_congr eq_comm rfl rfl

/-- What an attempt at a server leaves. -/
theorem Rotated.attempt (rotated : Rotated known attempts) (positive : 0 < known.length)
    {server : AddressLoad} {after : Attempts}
    (found : attempts.balancer.addressSet[nextPos known.length attempts.attempted.length]? =
      some server)
    (loads : after.balancer.addressSet = attempts.balancer.addressSet.modify
      (nextPos known.length attempts.attempted.length) AddressLoad.attempt)
    (attempted : after.attempted = attempts.attempted ++ [server.address]) :
    Rotated known after := by
  have length : after.attempted.length = attempts.attempted.length + 1 := by
    rw [attempted, List.length_append, List.length_singleton]
  refine ⟨?_, fun pos load stands => ?_, fun pos load stands => ?_⟩
  · rw [loads, AddressLoad.endpoints_modify _ _ AddressLoad.endpoint_attempt]
    exact rotated.addresses
  · obtain ⟨inside, old, oldStands, rfl⟩ := rotated.origin (loads ▸ stands)
    rw [length, attemptsAt_succ positive _ inside]
    split
    · rw [UInt16.ofNat_add, ← rotated.workload pos old oldStands]
      rfl
    · exact rotated.workload pos old oldStands
  · obtain ⟨inside, old, oldStands, rfl⟩ := rotated.origin (loads ▸ stands)
    have same : (if pos = nextPos known.length attempts.attempted.length then old.attempt
        else old).endpoint = old.endpoint := by
      split <;> rfl
    have turn := endpoint_eq_iff attempts.balancer oldStands found
    rw [same, length, attemptsAt_succ positive _ inside, ← rotated.count pos old oldStands,
      Attempts.count, attempted, List.map_append, List.count_append]
    refine congrArg _ ?_
    rw [List.map_singleton, List.count_singleton]
    exact if_congr (beq_iff_eq.trans turn) rfl rfl

theorem connect_of_empty {balancer : LoadBalancer} (none : balancer.addressSet = [])
    (connected : Bool) : balancer.connect connected = (Option.none, balancer) := by
  obtain ⟨cur, set, distinct⟩ := balancer
  cases none
  cases connected <;> rfl

theorem connect_of_connected (balancer : LoadBalancer) :
    balancer.connect true = (none, balancer) := rfl

/-- A call that makes no attempt. -/
theorem Attempts.connect_of_none {connected : Bool}
    (none : attempts.balancer.connect connected = (Option.none, attempts.balancer)) :
    attempts.connect connected = attempts := by
  rw [Attempts.connect, none]
  exact congrArg (Attempts.mk _) (List.append_nil _)

/-- A call that makes an attempt. -/
theorem Rotated.connect_attempt (rotated : Rotated known attempts) (positive : 0 < known.length) :
    Rotated known (attempts.connect false) ∧
      (attempts.connect false).attempted.length = attempts.attempted.length + 1 := by
  have inside : nextPos known.length attempts.attempted.length <
      attempts.balancer.addressSet.length :=
    (nextPos_lt positive attempts.attempted.length).trans_eq rotated.length_eq.symm
  have found := List.getElem?_eq_getElem inside
  obtain ⟨addr, loads⟩ := connect_of_leastFirst (rotated.leastFirst positive) found
  have attempted : (attempts.connect false).attempted = attempts.attempted ++
      [attempts.balancer.addressSet[nextPos known.length attempts.attempted.length].address] :=
    congrArg (fun addr : Option Address => attempts.attempted ++ addr.toList) addr
  refine ⟨rotated.attempt positive found loads attempted, ?_⟩
  rw [attempted, List.length_append, List.length_singleton]

theorem Rotated.connect (rotated : Rotated known attempts) (connected : Bool) :
    Rotated known (attempts.connect connected) := by
  cases connected with
  | true =>
      rw [Attempts.connect_of_none (connect_of_connected attempts.balancer)]
      exact rotated
  | false =>
      rcases Nat.eq_zero_or_pos known.length with empty | positive
      · have none : attempts.balancer.addressSet = [] :=
          List.length_eq_zero_iff.mp (rotated.length_eq.trans empty)
        rw [Attempts.connect_of_none (connect_of_empty none false)]
        exact rotated
      · exact (rotated.connect_attempt positive).1

theorem Rotated.even_iff (rotated : Rotated known attempts) :
    attempts.Even ↔ ∀ first < known.length, ∀ second < known.length,
      attemptsAt known.length attempts.attempted.length first ≤
        attemptsAt known.length attempts.attempted.length second + 1 := by
  have counted {pos : Nat} (inside : pos < known.length) :
      ∃ load ∈ attempts.balancer.addressSet, attempts.count load.endpoint =
        attemptsAt known.length attempts.attempted.length pos := by
    rw [← rotated.length_eq] at inside
    have stands := List.getElem?_eq_getElem inside
    exact ⟨_, List.getElem_mem inside, rotated.count pos _ stands⟩
  have position {endpoint : CString × CString}
      (member : endpoint ∈ endpoints attempts.balancer.addressSet) :
      ∃ pos < known.length, attempts.count endpoint =
        attemptsAt known.length attempts.attempted.length pos := by
    obtain ⟨load, inside, rfl⟩ := List.mem_map.mp member
    obtain ⟨pos, stands⟩ := List.mem_iff_getElem?.mp inside
    refine ⟨pos, ?_, rotated.count pos load stands⟩
    rw [← rotated.length_eq]
    exact (List.getElem?_eq_some_iff.mp stands).1
  constructor
  · intro even first firstInside second secondInside
    obtain ⟨firstLoad, firstMember, firstCount⟩ := counted firstInside
    obtain ⟨secondLoad, secondMember, secondCount⟩ := counted secondInside
    rw [← firstCount, ← secondCount]
    exact even _ (List.mem_map_of_mem firstMember) _ (List.mem_map_of_mem secondMember)
  · intro even first firstMember second secondMember
    obtain ⟨firstPos, firstInside, firstCount⟩ := position firstMember
    obtain ⟨secondPos, secondInside, secondCount⟩ := position secondMember
    rw [firstCount, secondCount]
    exact even firstPos firstInside secondPos secondInside

theorem rotated_run {balancer : LoadBalancer}
    (fresh : ∀ load ∈ balancer.addressSet, load.workload = 0) (calls : List Bool) :
    Rotated (endpoints balancer.addressSet)
      (Run.final Attempts.connect ⟨balancer, []⟩ calls) :=
  Run.final_of_kept _ (fun _ connected rotated => rotated.connect connected)
    (rotated_start fresh) calls

/-- **Even load.** The attempts at the addresses of a client differ by at most one until the
second attempt after all counters have reached their limit; those of a client with one address
always do. -/
theorem even_load_iff {balancer : LoadBalancer}
    (fresh : ∀ load ∈ balancer.addressSet, load.workload = 0) (calls : List Bool) :
    (Run.final Attempts.connect ⟨balancer, []⟩ calls).Even ↔
      balancer.addressSet.length ≤ 1 ∨
        (Run.final Attempts.connect ⟨balancer, []⟩ calls).attempted.length ≤
          maxWorkload * balancer.addressSet.length + 1 := by
  have length : (endpoints balancer.addressSet).length = balancer.addressSet.length :=
    List.length_map _
  rw [(rotated_run fresh calls).even_iff, length]
  rcases Nat.eq_zero_or_pos balancer.addressSet.length with empty | positive
  · rw [empty]
    exact iff_of_true (fun _ inside => (Nat.not_lt_zero _ inside).elim) (.inl (Nat.zero_le 1))
  · exact attemptsAt_even_iff positive _

/-- Two addresses, and no attempt yet. -/
def pair : LoadBalancer where
  addressCur := LoadBalancer.new.addressCur
  addressSet := [.make ⟨[], ['a'], ['1']⟩, .make ⟨[], ['b'], ['1']⟩]
  distinct := by decide

theorem pair_fresh : ∀ load ∈ pair.addressSet, load.workload = 0 := by decide

/-- Three attempts are even. -/
theorem even_three : (Run.final Attempts.connect ⟨pair, []⟩ [false, false, false]).Even :=
  (even_load_iff pair_fresh [false, false, false]).mpr (.inr (by decide))

/-- While the peer is not connected, every call makes an attempt. -/
theorem Rotated.length_replicate (rotated : Rotated known attempts)
    (positive : 0 < known.length) (calls : Nat) :
    (Run.final Attempts.connect attempts (List.replicate calls false)).attempted.length =
      attempts.attempted.length + calls := by
  induction calls generalizing attempts with
  | zero => rfl
  | succ calls ih =>
      obtain ⟨next, one⟩ := rotated.connect_attempt positive
      rw [List.replicate_succ, Run.final, ih next, one]
      omega

/-- The second attempt after both counters are full is one too many at the first address. -/
theorem uneven : ¬ (Run.final Attempts.connect ⟨pair, []⟩
    (List.replicate (maxWorkload * 2 + 2) false)).Even := by
  have made := (rotated_start pair_fresh).length_replicate (by decide) (maxWorkload * 2 + 2)
  intro even
  have shares := (rotated_run pair_fresh _).even_iff.mp even
  rw [made] at shares
  have early := (attemptsAt_even_iff (by decide : 0 < 2) _).mp shares
  simp only [List.length_nil] at early
  omega

end LoadBalancer

end Cube.Eco.Net
