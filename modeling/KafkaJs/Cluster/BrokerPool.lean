import KafkaJs.Data.InsertionMap
import KafkaJs.Execution.Run
import KafkaJs.Utils.Number
import Mathlib.Logic.Function.Basic

/-!
# The broker pool

`BrokerPool` with its broker objects in a heap: two keys, or a key and the seed broker, may hold the
same object, and a refresh writes the node id and the rack of the seed broker wherever it is held.

`Merged` is the invariant of the loop over a metadata answer, `Pooled` that of the pool between
operations. From it, `correct_iff_listed` says when an operation does what it is for: a refresh
leaves exactly the listed brokers behind, and disconnects one that is still held exactly if the
seed broker is in the pool and the answer does not list it there as it is.
-/

namespace KafkaJs.Cluster.BrokerPool

open Data Execution

/-! ## The pool -/

/-- A rack: `undefined`, null or a name. -/
abbrev Rack := Option (Option String)

/-- What the pool reads of a connection pool. -/
structure ConnectionPool where
  host : String
  port : Int
  rack : Rack
  deriving DecidableEq

/-- What the pool reads of a broker object. -/
structure BrokerObject where
  connectionPool : ConnectionPool
  nodeId : Option Int
  deriving DecidableEq

/-- A broker of a metadata answer. -/
structure BrokerMetadata where
  nodeId : Int
  host : String
  port : Int
  rack : Rack
  deriving DecidableEq

/-- The pool. A broker object is known by its handle; the handles from `fresh` on are not in use.
`built` counts the connection pools built without a destination. -/
structure State where
  objects : Nat → BrokerObject
  fresh : Nat := 0
  built : Nat := 0
  brokers : InsertionMap Int Nat := .empty
  seedBroker : Option Nat := none

/-- The addresses that the builder goes through when it is given no host. -/
abbrev Addresses := Nat → String × Int

/-- `connectionPoolBuilder.build`, with the count of the pools built without a host. -/
def build (addresses : Addresses) (built : Nat) (host : String) (port : Int) (rack : Rack) :
    ConnectionPool × Nat :=
  if host = "" then (⟨(addresses built).1, (addresses built).2, rack⟩, built + 1)
  else (⟨host, port, rack⟩, built)

/-- `createBroker`: a new object and its handle. -/
def createBroker (object : BrokerObject) (state : State) : State × Nat :=
  ({ state with
      objects := Function.update state.objects state.fresh object
      fresh := state.fresh + 1 }, state.fresh)

/-- `createSeedBroker`. -/
def createSeedBroker (addresses : Addresses) (state : State) : State :=
  let (connectionPool, built) := build addresses state.built "" 0 none
  let (state, broker) := createBroker ⟨connectionPool, none⟩ { state with built }
  { state with seedBroker := some broker }

/-- `values(this.brokers)`. -/
def State.values (state : State) : List Nat :=
  (propertyKeys state.brokers.keys).filterMap state.brokers.get?

/-- `removeBroker`, given what `shuffle` puts first; `none` where it throws. -/
def removeBroker (host : String) (port : Int) (first : Nat) (state : State) : Option State :=
  let removedBroker := state.values.find? fun broker =>
    (state.objects broker).connectionPool.host = host ∧
      (state.objects broker).connectionPool.port = port
  match removedBroker with
  | none => some state
  | some removedBroker =>
      let state := match (state.objects removedBroker).nodeId with
        | some nodeId => { state with brokers := state.brokers.delete nodeId }
        | none => state
      match state.seedBroker with
      | none => none
      | some seedBroker =>
          if (state.objects seedBroker).nodeId = (state.objects removedBroker).nodeId then
            some { state with seedBroker := state.values[first % state.values.length]? }
          else some state

/-- The connection pool that a broker of an answer should have. -/
def BrokerMetadata.pool (broker : BrokerMetadata) : ConnectionPool :=
  ⟨broker.host, broker.port, broker.rack⟩

/-- `hasBrokerBeenReplaced`. -/
def hasBrokerBeenReplaced (broker : BrokerObject) (metadata : BrokerMetadata) : Bool :=
  broker.connectionPool.host ≠ metadata.host ∨ broker.connectionPool.port ≠ metadata.port ∨
    broker.connectionPool.rack ≠ metadata.rack

/-- The broker of an answer put into the pool: the seed broker at its address, a new one
elsewhere. -/
def place (addresses : Addresses) (seedBroker : Nat) (seedHost : String) (seedPort : Int)
    (state : State) (metadata : BrokerMetadata) : State :=
  if metadata.host = seedHost ∧ metadata.port = seedPort then
    let seed := state.objects seedBroker
    { state with
      objects := Function.update state.objects seedBroker
        { connectionPool := { seed.connectionPool with rack := metadata.rack }
          nodeId := some metadata.nodeId }
      brokers := state.brokers.set metadata.nodeId seedBroker }
  else
    let (connectionPool, built) :=
      build addresses state.built metadata.host metadata.port metadata.rack
    let (state, broker) := createBroker ⟨connectionPool, some metadata.nodeId⟩ { state with built }
    { state with brokers := state.brokers.set metadata.nodeId broker }

/-- The step of the reduction in `refreshMetadata`, with `replacedBrokers`. -/
def mergeBroker (addresses : Addresses) (seedBroker : Nat) (seedHost : String) (seedPort : Int)
    (result : State × List Nat) (metadata : BrokerMetadata) : State × List Nat :=
  let (state, replacedBrokers) := result
  match state.brokers.get? metadata.nodeId with
  | none => (place addresses seedBroker seedHost seedPort state metadata, replacedBrokers)
  | some broker =>
      if ¬ hasBrokerBeenReplaced (state.objects broker) metadata then result
      else
        (place addresses seedBroker seedHost seedPort state metadata, replacedBrokers ++ [broker])

/-- `arrayDiff`. -/
def arrayDiff (first second : List Int) : List Int := first.filter fun value => value ∉ second

/-- `refreshMetadata` once `findConnectedBroker` has found a broker, which answers with
`metadata`: the pool, and the brokers that were disconnected. Seed brokers created in search of a
connected one are operations of their own; there is one in any case. -/
def refreshMetadata (addresses : Addresses) (metadata : List BrokerMetadata) (state : State) :
    Option (State × List Nat) := do
  let seedBroker ← state.seedBroker
  let { host := seedHost, port := seedPort, .. } := (state.objects seedBroker).connectionPool
  let (state, replacedBrokers) :=
    metadata.foldl (mergeBroker addresses seedBroker seedHost seedPort) (state, [])
  let freshBrokerIds := Number.sort (metadata.map BrokerMetadata.nodeId)
  let currentBrokerIds := Number.sort state.brokers.keys
  let unusedBrokerIds := arrayDiff currentBrokerIds freshBrokerIds
  let disconnected := unusedBrokerIds.filterMap state.brokers.get? ++ replacedBrokers
  pure ({ state with brokers := unusedBrokerIds.foldl InsertionMap.delete state.brokers },
    disconnected)

/-- An operation. -/
inductive Operation where
  | createSeedBroker
  | refreshMetadata (metadata : List BrokerMetadata)
  | removeBroker (host : String) (port : Int) (first : Nat)

/-- A completed operation. -/
def step (addresses : Addresses) (state : State) : Operation → Option State
  | .createSeedBroker => some (createSeedBroker addresses state)
  | .refreshMetadata metadata => (refreshMetadata addresses metadata state).map Prod.fst
  | .removeBroker host port first => removeBroker host port first state

/-! ## The loop over an answer -/

/-- The object that a broker of an answer should be. -/
def BrokerMetadata.object (broker : BrokerMetadata) : BrokerObject :=
  ⟨broker.pool, some broker.nodeId⟩

/-- The address of a connection pool. -/
def ConnectionPool.address (pool : ConnectionPool) : String × Int := (pool.host, pool.port)

/-- The address of a broker of an answer. -/
def BrokerMetadata.address (broker : BrokerMetadata) : String × Int := (broker.host, broker.port)

/-- A broker has been replaced if its connection pool is not the one of the metadata. -/
theorem hasBrokerBeenReplaced_iff {broker : BrokerObject} {metadata : BrokerMetadata} :
    hasBrokerBeenReplaced broker metadata ↔ broker.connectionPool ≠ metadata.pool := by
  obtain ⟨⟨host, port, rack⟩, nodeId⟩ := broker
  simp only [hasBrokerBeenReplaced, decide_eq_true_eq, BrokerMetadata.pool, ne_eq,
    ConnectionPool.mk.injEq]
  tauto

/-- The pool between operations. -/
structure Pooled (state : State) : Prop where
  held : ∀ nodeId broker, state.brokers.get? nodeId = some broker →
    broker < state.fresh ∧ (state.objects broker).nodeId = some nodeId
  addresses : ∀ first second broker other, state.brokers.get? first = some broker →
    state.brokers.get? second = some other →
    (state.objects broker).connectionPool.address = (state.objects other).connectionPool.address →
    first = second
  seed : ∀ seedBroker ∈ state.seedBroker, seedBroker < state.fresh
  seeded : state.seedBroker = none → state.brokers.keys = []

/-- Distinct keys hold distinct objects. -/
theorem Pooled.distinct {state : State} (h : Pooled state) {first second : Int} {broker : Nat}
    (hfirst : state.brokers.get? first = some broker)
    (hsecond : state.brokers.get? second = some broker) : first = second := by
  have hnodeId := (h.held first broker hfirst).2
  rw [(h.held second broker hsecond).2] at hnodeId
  exact (Option.some.inj hnodeId).symm

/-- The loop over an answer, after the brokers in `done`. What is not yet merged is as it was,
except for the seed broker, whose node id and rack follow the answer. -/
structure Merged (before : State) (seedBroker : Nat) (done : List BrokerMetadata)
    (result : State × List Nat) : Prop where
  placed : ∀ metadata ∈ done, ∃ broker,
    result.1.brokers.get? metadata.nodeId = some broker ∧
    result.1.objects broker = metadata.object ∧ broker < result.1.fresh ∧
    (broker = seedBroker ∨ before.fresh ≤ broker ∨
      before.brokers.get? metadata.nodeId = some broker ∧
        (before.objects broker).connectionPool = metadata.pool)
  others : ∀ nodeId, nodeId ∉ done.map BrokerMetadata.nodeId →
    result.1.brokers.get? nodeId = before.brokers.get? nodeId
  old : ∀ broker, broker < before.fresh → broker ≠ seedBroker →
    result.1.objects broker = before.objects broker
  seedAddress : (result.1.objects seedBroker).connectionPool.address =
    (before.objects seedBroker).connectionPool.address
  seedSame : (before.objects seedBroker).connectionPool.address ∉
      done.map BrokerMetadata.address →
    result.1.objects seedBroker = before.objects seedBroker
  fresh : before.fresh ≤ result.1.fresh
  seedBroker : result.1.seedBroker = before.seedBroker
  replaced : ∀ broker, broker ∈ result.2 ↔ ∃ metadata ∈ done,
    before.brokers.get? metadata.nodeId = some broker ∧
      (before.objects broker).connectionPool ≠ metadata.pool

section Merge

variable {addresses : Addresses} {before : State} {seedBroker : Nat} {done : List BrokerMetadata}
  {result : State × List Nat} {metadata : BrokerMetadata}

/-- A broker that is still to be merged has been replaced if it had before the loop. -/
theorem Merged.replaced_iff (h : Merged before seedBroker done result) (hpooled : Pooled before)
    (haddress : metadata.address ∉ done.map BrokerMetadata.address) {broker : Nat}
    (hbroker : before.brokers.get? metadata.nodeId = some broker) :
    (result.1.objects broker).connectionPool ≠ metadata.pool ↔
      (before.objects broker).connectionPool ≠ metadata.pool := by
  by_cases hseed : broker = seedBroker
  · subst hseed
    by_cases hdone : (before.objects broker).connectionPool.address ∈
        done.map BrokerMetadata.address
    · -- the seed broker is placed elsewhere
      have hne : (before.objects broker).connectionPool.address ≠ metadata.address := by
        intro heq
        rw [heq] at hdone
        exact haddress hdone
      constructor
      · intro _ heq
        exact hne (congrArg ConnectionPool.address heq)
      · intro _ heq
        have hplaced := congrArg ConnectionPool.address heq
        rw [h.seedAddress] at hplaced
        exact hne hplaced
    · rw [h.seedSame hdone]
  · rw [h.old broker (hpooled.held _ _ hbroker).1 hseed]

/-- A broker placed earlier is not the seed broker of another address. -/
theorem Merged.ne_seed (h : Merged before seedBroker done result) {other : BrokerMetadata}
    {broker : Nat} (hobject : result.1.objects broker = other.object)
    (haddress : other.address ≠ (before.objects seedBroker).connectionPool.address) :
    broker ≠ seedBroker := by
  rintro rfl
  have hsame := h.seedAddress
  rw [hobject] at hsame
  exact haddress hsame

/-- The keys and addresses that have been merged, with one more. -/
theorem notMem_concat {α : Type} {f : BrokerMetadata → α} {value : α}
    (h : value ∉ (done ++ [metadata]).map f) : value ∉ done.map f ∧ f metadata ≠ value := by
  rw [List.map_append, List.mem_append, not_or, List.map_singleton, List.mem_singleton] at h
  exact ⟨h.1, fun heq => h.2 heq.symm⟩

/-- Some entry that has been merged, or the one more. -/
theorem exists_mem_concat {P : BrokerMetadata → Prop} :
    (∃ entry ∈ done ++ [metadata], P entry) ↔ (∃ entry ∈ done, P entry) ∨ P metadata := by
  simp only [List.mem_append, List.mem_singleton, or_and_right, exists_or, exists_eq_left]

/-- A broker that has not been replaced is kept. -/
theorem Merged.keep (h : Merged before seedBroker done result) (hpooled : Pooled before)
    (haddress : metadata.address ∉ done.map BrokerMetadata.address) {broker : Nat}
    (hbroker : before.brokers.get? metadata.nodeId = some broker)
    (hresult : result.1.brokers.get? metadata.nodeId = some broker)
    (hsame : (result.1.objects broker).connectionPool = metadata.pool) :
    Merged before seedBroker (done ++ [metadata]) result where
  placed other hother := by
    rcases List.mem_append.mp hother with hdone | hlast
    · exact h.placed other hdone
    · rw [List.mem_singleton] at hlast
      subst hlast
      obtain ⟨hold, hnodeId⟩ := hpooled.held _ _ hbroker
      have hpool : (before.objects broker).connectionPool = other.pool := by
        by_contra hne
        exact (h.replaced_iff hpooled haddress hbroker).mpr hne hsame
      -- the broker is another one than the seed, or the seed at the address that it had before
      have hobject : result.1.objects broker = before.objects broker := by
        by_cases hseed : broker = seedBroker
        · subst hseed
          refine h.seedSame ?_
          rw [hpool]
          exact haddress
        · exact h.old broker hold hseed
      refine ⟨broker, hresult, ?_, hold.trans_le h.fresh, Or.inr (Or.inr ⟨hbroker, hpool⟩)⟩
      rw [hobject, BrokerMetadata.object, ← hpool, ← hnodeId]
  others nodeId hnodeId := h.others nodeId (notMem_concat hnodeId).1
  old := h.old
  seedAddress := h.seedAddress
  seedSame hdone := h.seedSame (notMem_concat hdone).1
  fresh := h.fresh
  seedBroker := h.seedBroker
  replaced other := by
    rw [h.replaced, exists_mem_concat]
    refine (or_iff_left ?_).symm
    -- the broker of the last entry is kept, so it is not one of the replaced
    rintro ⟨hother, hne⟩
    cases hbroker.symm.trans hother
    exact (h.replaced_iff hpooled haddress hbroker).mpr hne hsame

/-- A broker that is placed stays where it is when another place is filled. -/
theorem Merged.placed_set (h : Merged before seedBroker done result)
    (hnodeId : metadata.nodeId ∉ done.map BrokerMetadata.nodeId) (broker : Nat)
    {other : BrokerMetadata} (hdone : other ∈ done) :
    ∃ placed, (result.1.brokers.set metadata.nodeId broker).get? other.nodeId = some placed ∧
      result.1.objects placed = other.object ∧ placed < result.1.fresh ∧
      (placed = seedBroker ∨ before.fresh ≤ placed ∨
        before.brokers.get? other.nodeId = some placed ∧
          (before.objects placed).connectionPool = other.pool) := by
  obtain ⟨placed, hplaced, hobject, hlt, hcases⟩ := h.placed other hdone
  have hne : other.nodeId ≠ metadata.nodeId := fun heq =>
    hnodeId (List.mem_map.mpr ⟨other, hdone, heq⟩)
  refine ⟨placed, ?_, hobject, hlt, hcases⟩
  rw [InsertionMap.get?_set_of_ne _ _ hne]
  exact hplaced

/-- The seed broker is put where the answer has its address. -/
theorem Merged.placeSeed (h : Merged before seedBroker done result)
    (hfresh : seedBroker < before.fresh)
    (hnodeId : metadata.nodeId ∉ done.map BrokerMetadata.nodeId)
    (haddress : metadata.address ∉ done.map BrokerMetadata.address)
    (hseed : metadata.address = (before.objects seedBroker).connectionPool.address)
    {replaced : List Nat} (hreplaced : ∀ broker, broker ∈ replaced ↔
      ∃ entry ∈ done ++ [metadata], before.brokers.get? entry.nodeId = some broker ∧
        (before.objects broker).connectionPool ≠ entry.pool) :
    Merged before seedBroker (done ++ [metadata])
      ({ result.1 with
          objects := Function.update result.1.objects seedBroker metadata.object
          brokers := result.1.brokers.set metadata.nodeId seedBroker }, replaced) where
  placed other hother := by
    rcases List.mem_append.mp hother with hdone | hlast
    · obtain ⟨broker, hbroker, hobject, hlt, hcases⟩ := h.placed_set hnodeId seedBroker hdone
      have hneSeed := h.ne_seed hobject fun heq =>
        haddress (List.mem_map.mpr ⟨other, hdone, heq.trans hseed.symm⟩)
      refine ⟨broker, hbroker, ?_, hlt, hcases⟩
      dsimp only
      rw [Function.update_of_ne hneSeed]
      exact hobject
    · rw [List.mem_singleton] at hlast
      subst hlast
      refine ⟨seedBroker, InsertionMap.get?_set_self _ _ _, Function.update_self _ _ _,
        hfresh.trans_le h.fresh, Or.inl rfl⟩
  others nodeId hother := by
    obtain ⟨hdone, hne⟩ := notMem_concat hother
    rw [InsertionMap.get?_set_of_ne _ _ hne.symm]
    exact h.others nodeId hdone
  old broker hold hne := by
    dsimp only
    rw [Function.update_of_ne hne]
    exact h.old broker hold hne
  seedAddress := by
    dsimp only
    rw [Function.update_self]
    exact hseed
  seedSame hdone := absurd hseed (notMem_concat hdone).2
  fresh := h.fresh
  seedBroker := h.seedBroker
  replaced := hreplaced

/-- A new broker is put elsewhere. -/
theorem Merged.placeNew (h : Merged before seedBroker done result)
    (hfresh : seedBroker < before.fresh)
    (hnodeId : metadata.nodeId ∉ done.map BrokerMetadata.nodeId)
    {replaced : List Nat} (hreplaced : ∀ broker, broker ∈ replaced ↔
      ∃ entry ∈ done ++ [metadata], before.brokers.get? entry.nodeId = some broker ∧
        (before.objects broker).connectionPool ≠ entry.pool) :
    Merged before seedBroker (done ++ [metadata])
      ({ result.1 with
          objects := Function.update result.1.objects result.1.fresh metadata.object
          fresh := result.1.fresh + 1
          brokers := result.1.brokers.set metadata.nodeId result.1.fresh }, replaced) where
  placed other hother := by
    rcases List.mem_append.mp hother with hdone | hlast
    · obtain ⟨broker, hbroker, hobject, hlt, hcases⟩ :=
        h.placed_set hnodeId result.1.fresh hdone
      refine ⟨broker, hbroker, ?_, Nat.lt_succ_of_lt hlt, hcases⟩
      dsimp only
      rw [Function.update_of_ne (Nat.ne_of_lt hlt)]
      exact hobject
    · rw [List.mem_singleton] at hlast
      subst hlast
      exact ⟨result.1.fresh, InsertionMap.get?_set_self _ _ _, Function.update_self _ _ _,
        Nat.lt_succ_self _, Or.inr (Or.inl h.fresh)⟩
  others nodeId hother := by
    obtain ⟨hdone, hne⟩ := notMem_concat hother
    rw [InsertionMap.get?_set_of_ne _ _ hne.symm]
    exact h.others nodeId hdone
  old broker hold hne := by
    dsimp only
    rw [Function.update_of_ne (Nat.ne_of_lt (hold.trans_le h.fresh))]
    exact h.old broker hold hne
  seedAddress := by
    dsimp only
    rw [Function.update_of_ne (Nat.ne_of_lt (hfresh.trans_le h.fresh))]
    exact h.seedAddress
  seedSame hdone := by
    dsimp only
    rw [Function.update_of_ne (Nat.ne_of_lt (hfresh.trans_le h.fresh))]
    exact h.seedSame (notMem_concat hdone).1
  fresh := h.fresh.trans (Nat.le_succ _)
  seedBroker := h.seedBroker
  replaced := hreplaced

/-- Either way of putting a broker into the pool. -/
theorem Merged.place (h : Merged before seedBroker done result)
    (hfresh : seedBroker < before.fresh)
    (hnodeId : metadata.nodeId ∉ done.map BrokerMetadata.nodeId)
    (haddress : metadata.address ∉ done.map BrokerMetadata.address) (hhost : metadata.host ≠ "")
    {replaced : List Nat} (hreplaced : ∀ broker, broker ∈ replaced ↔
      ∃ entry ∈ done ++ [metadata], before.brokers.get? entry.nodeId = some broker ∧
        (before.objects broker).connectionPool ≠ entry.pool) :
    Merged before seedBroker (done ++ [metadata])
      (place addresses seedBroker (before.objects seedBroker).connectionPool.host
        (before.objects seedBroker).connectionPool.port result.1 metadata, replaced) := by
  unfold BrokerPool.place
  split
  · next hseed =>
      obtain ⟨hseedHost, hseedPort⟩ := hseed
      have hsame : metadata.address = (before.objects seedBroker).connectionPool.address :=
        Prod.ext hseedHost hseedPort
      have hkept := h.seedAddress
      rw [← hsame] at hkept
      have hobject : BrokerObject.mk
          { (result.1.objects seedBroker).connectionPool with rack := metadata.rack }
          (some metadata.nodeId) = metadata.object := by
        rw [BrokerMetadata.object, BrokerMetadata.pool, BrokerObject.mk.injEq,
          ConnectionPool.mk.injEq]
        exact ⟨⟨congrArg Prod.fst hkept, congrArg Prod.snd hkept, rfl⟩, rfl⟩
      dsimp only
      rw [hobject]
      exact h.placeSeed hfresh hnodeId haddress hsame hreplaced
  · have hbuild : build addresses result.1.built metadata.host metadata.port metadata.rack =
        (metadata.pool, result.1.built) := if_neg hhost
    rw [hbuild]
    exact h.placeNew hfresh hnodeId hreplaced

/-- One step of the reduction. -/
theorem Merged.mergeBroker (h : Merged before seedBroker done result) (hpooled : Pooled before)
    (hfresh : seedBroker < before.fresh)
    (hnodeId : metadata.nodeId ∉ done.map BrokerMetadata.nodeId)
    (haddress : metadata.address ∉ done.map BrokerMetadata.address) (hhost : metadata.host ≠ "") :
    Merged before seedBroker (done ++ [metadata])
      (mergeBroker addresses seedBroker (before.objects seedBroker).connectionPool.host
        (before.objects seedBroker).connectionPool.port result metadata) := by
  have hbefore := h.others metadata.nodeId hnodeId
  have hreplaced := h.replaced
  unfold BrokerPool.mergeBroker
  dsimp only
  cases hbroker : result.1.brokers.get? metadata.nodeId with
  | none =>
      rw [hbroker] at hbefore
      refine h.place hfresh hnodeId haddress hhost fun broker => ?_
      rw [hreplaced, exists_mem_concat]
      refine (or_iff_left ?_).symm
      -- there was no broker under the node id of the last entry
      rintro ⟨hother, -⟩
      cases hbefore.trans hother
  | some broker =>
      rw [hbroker] at hbefore
      by_cases hsame : (result.1.objects broker).connectionPool = metadata.pool
      · have hkept : ¬ hasBrokerBeenReplaced (result.1.objects broker) metadata = true :=
          fun htrue => hasBrokerBeenReplaced_iff.mp htrue hsame
        dsimp only
        rw [if_pos hkept]
        exact h.keep hpooled haddress hbefore.symm hbroker hsame
      · have hgone := hasBrokerBeenReplaced_iff.mpr hsame
        have hwas := (h.replaced_iff hpooled haddress hbefore.symm).mp hsame
        dsimp only
        rw [if_neg (not_not_intro hgone)]
        refine h.place hfresh hnodeId haddress hhost fun other => ?_
        rw [List.mem_append, hreplaced, List.mem_singleton, exists_mem_concat]
        refine or_congr_right ⟨?_, ?_⟩
        · rintro rfl
          exact ⟨hbefore.symm, hwas⟩
        · rintro ⟨hother, -⟩
          exact Option.some.inj (hother.symm.trans hbefore.symm)

end Merge

/-- An answer whose brokers have distinct node ids and distinct addresses, with hosts. -/
structure WellFormed (metadata : List BrokerMetadata) : Prop where
  nodeIds : (metadata.map BrokerMetadata.nodeId).Nodup
  addresses : (metadata.map BrokerMetadata.address).Nodup
  hosts : ∀ broker ∈ metadata, broker.host ≠ ""

/-- The whole reduction. -/
theorem merged_foldl {addresses : Addresses} {before : State} {seedBroker : Nat}
    {metadata : List BrokerMetadata} (hpooled : Pooled before) (hfresh : seedBroker < before.fresh)
    (h : WellFormed metadata) :
    Merged before seedBroker metadata
      (metadata.foldl (mergeBroker addresses seedBroker
        (before.objects seedBroker).connectionPool.host
        (before.objects seedBroker).connectionPool.port) (before, [])) := by
  have hloop : ∀ (rest done : List BrokerMetadata) (result : State × List Nat),
      done ++ rest = metadata → Merged before seedBroker done result →
      Merged before seedBroker metadata (rest.foldl (mergeBroker addresses seedBroker
        (before.objects seedBroker).connectionPool.host
        (before.objects seedBroker).connectionPool.port) result) := by
    intro rest
    induction rest with
    | nil =>
        intro done result hdone hmerged
        rw [List.append_nil] at hdone
        rw [← hdone]
        exact hmerged
    | cons entry rest ih =>
        intro done result hdone hmerged
        have hnodeIds := h.nodeIds
        have haddresses := h.addresses
        rw [← hdone, List.map_append, List.map_cons, List.nodup_middle, List.nodup_cons,
          List.mem_append, not_or] at hnodeIds haddresses
        have hhost := h.hosts entry (by rw [← hdone]; simp)
        rw [List.foldl_cons]
        refine ih (done ++ [entry]) _ (by simpa using hdone) ?_
        exact hmerged.mergeBroker hpooled hfresh hnodeIds.1.1 haddresses.1.1 hhost
  refine hloop metadata [] (before, []) rfl ?_
  exact
    { placed := fun _ hmem => by cases hmem
      others := fun _ _ => rfl
      old := fun _ _ _ => rfl
      seedAddress := rfl
      seedSame := fun _ => rfl
      fresh := le_refl _
      seedBroker := rfl
      replaced := by simp }

/-! ## Refreshes -/

/-- The brokers left after a list of keys has been deleted. -/
theorem get?_foldl_delete (nodeIds : List Int) (brokers : InsertionMap Int Nat) (nodeId : Int) :
    (nodeIds.foldl InsertionMap.delete brokers).get? nodeId =
      if nodeId ∈ nodeIds then none else brokers.get? nodeId := by
  induction nodeIds generalizing brokers with
  | nil => simp
  | cons first nodeIds ih =>
      rw [List.foldl_cons, ih, InsertionMap.get?_delete]
      by_cases hrest : nodeId ∈ nodeIds
      · rw [if_pos hrest, if_pos (List.mem_cons_of_mem _ hrest)]
      · by_cases hfirst : nodeId = first
        · rw [if_neg hrest, if_pos hfirst, if_pos (by rw [hfirst]; exact List.mem_cons_self)]
        · rw [if_neg hrest, if_neg hfirst, if_neg (by simp [hfirst, hrest])]

/-- What a refresh does: what it leaves behind, and what it disconnects. -/
structure Refreshed (before : State) (seedBroker : Nat) (metadata : List BrokerMetadata)
    (next : State) (disconnected : List Nat) : Prop where
  listed : ∀ entry ∈ metadata, ∃ broker,
    next.brokers.get? entry.nodeId = some broker ∧
    next.objects broker = entry.object ∧ broker < next.fresh ∧
    (broker = seedBroker ∨ before.fresh ≤ broker ∨
      before.brokers.get? entry.nodeId = some broker ∧
        (before.objects broker).connectionPool = entry.pool)
  unlisted : ∀ nodeId, nodeId ∉ metadata.map BrokerMetadata.nodeId →
    next.brokers.get? nodeId = none
  fresh : before.fresh ≤ next.fresh
  seedBroker : next.seedBroker = before.seedBroker
  disconnected : ∀ broker, broker ∈ disconnected ↔
    (∃ nodeId, nodeId ∉ metadata.map BrokerMetadata.nodeId ∧
      before.brokers.get? nodeId = some broker) ∨
    ∃ entry ∈ metadata, before.brokers.get? entry.nodeId = some broker ∧
      (before.objects broker).connectionPool ≠ entry.pool

section Refresh

variable {addresses : Addresses} {before next : State} {seedBroker : Nat}
  {metadata : List BrokerMetadata} {disconnected : List Nat}

/-- What a refresh of the metadata does, where there is a seed broker. -/
theorem refreshed (hpooled : Pooled before) (hmetadata : WellFormed metadata)
    (h : refreshMetadata addresses metadata before = some (next, disconnected)) :
    ∃ seedBroker, before.seedBroker = some seedBroker ∧
      Refreshed before seedBroker metadata next disconnected := by
  unfold refreshMetadata at h
  cases hseed : before.seedBroker with
  | none =>
      rw [hseed] at h
      cases h
  | some seedBroker =>
      rw [hseed] at h
      have hmerged := @merged_foldl addresses _ _ _ hpooled (hpooled.seed _ hseed) hmetadata
      refine ⟨seedBroker, rfl, ?_⟩
      dsimp only [Option.bind_eq_bind, Option.bind_some, Option.pure_def] at h
      generalize metadata.foldl (mergeBroker addresses seedBroker
        (before.objects seedBroker).connectionPool.host
        (before.objects seedBroker).connectionPool.port) (before, []) = result at hmerged h
      obtain ⟨merged, replaced⟩ := result
      obtain ⟨hnext, hdisconnected⟩ := Prod.mk.inj (Option.some.inj h)
      -- the two sorts only fix the order in which the difference is taken
      have hunused : ∀ nodeId, nodeId ∈ arrayDiff (Number.sort merged.brokers.keys)
          (Number.sort (metadata.map BrokerMetadata.nodeId)) ↔
          nodeId ∈ merged.brokers.keys ∧ nodeId ∉ metadata.map BrokerMetadata.nodeId := by
        intro nodeId
        rw [arrayDiff, List.mem_filter, (Number.sort_perm _).mem_iff, decide_eq_true_eq,
          (Number.sort_perm _).mem_iff]
      -- a listed broker stays where the reduction put it, every other one is deleted
      have hget : ∀ nodeId, next.brokers.get? nodeId =
          if nodeId ∈ metadata.map BrokerMetadata.nodeId then merged.brokers.get? nodeId
          else none := by
        intro nodeId
        rw [← hnext, get?_foldl_delete]
        by_cases hlisted : nodeId ∈ metadata.map BrokerMetadata.nodeId
        · rw [if_neg fun hmem => ((hunused nodeId).mp hmem).2 hlisted, if_pos hlisted]
        · rw [if_neg hlisted]
          split
          · rfl
          · next habsent =>
              exact InsertionMap.get?_eq_none_iff.mpr fun hkey =>
                habsent ((hunused nodeId).mpr ⟨hkey, hlisted⟩)
      constructor
      · intro entry hentry
        obtain ⟨broker, hbroker, hrest⟩ := hmerged.placed entry hentry
        refine ⟨broker, ?_, ?_⟩
        · rw [hget, if_pos (List.mem_map_of_mem hentry)]
          exact hbroker
        · rw [← hnext]
          exact hrest
      · intro nodeId hnodeId
        rw [hget, if_neg hnodeId]
      · rw [← hnext]
        exact hmerged.fresh
      · rw [← hnext]
        exact hmerged.seedBroker
      · intro broker
        rw [← hdisconnected, List.mem_append, List.mem_filterMap]
        refine or_congr ?_ (hmerged.replaced broker)
        constructor
        · rintro ⟨nodeId, hnodeId, hbroker⟩
          have hunlisted := ((hunused nodeId).mp hnodeId).2
          exact ⟨nodeId, hunlisted, (hmerged.others nodeId hunlisted).symm.trans hbroker⟩
        · rintro ⟨nodeId, hunlisted, hbroker⟩
          rw [← hmerged.others nodeId hunlisted] at hbroker
          exact ⟨nodeId, (hunused nodeId).mpr
            ⟨InsertionMap.mem_keys_iff.mpr ⟨broker, hbroker⟩, hunlisted⟩, hbroker⟩

/-- A key of the pool after a refresh is that of a broker of the answer. -/
theorem Refreshed.listed_of_held (h : Refreshed before seedBroker metadata next disconnected)
    {nodeId : Int} {broker : Nat} (hheld : next.brokers.get? nodeId = some broker) :
    ∃ entry ∈ metadata, entry.nodeId = nodeId ∧ next.objects broker = entry.object ∧
      broker < next.fresh ∧ (broker = seedBroker ∨ before.fresh ≤ broker ∨
        before.brokers.get? nodeId = some broker ∧
          (before.objects broker).connectionPool = entry.pool) := by
  have hnodeId : nodeId ∈ metadata.map BrokerMetadata.nodeId := by
    by_contra habsent
    rw [h.unlisted nodeId habsent] at hheld
    cases hheld
  obtain ⟨entry, hentry, rfl⟩ := List.mem_map.mp hnodeId
  obtain ⟨placed, hplaced, hrest⟩ := h.listed entry hentry
  rw [hplaced] at hheld
  cases hheld
  exact ⟨entry, hentry, rfl, hrest⟩

/-- A refresh keeps the pool well formed. -/
theorem Refreshed.pooled (h : Refreshed before seedBroker metadata next disconnected)
    (hmetadata : WellFormed metadata) (hpooled : Pooled before)
    (hseed : before.seedBroker = some seedBroker) : Pooled next where
  held nodeId broker hheld := by
    obtain ⟨entry, -, rfl, hobject, hlt, -⟩ := h.listed_of_held hheld
    refine ⟨hlt, ?_⟩
    rw [hobject]
    rfl
  addresses first second broker other hfirst hsecond haddress := by
    obtain ⟨entry, hentry, rfl, hobject, -⟩ := h.listed_of_held hfirst
    obtain ⟨last, hlast, rfl, hother, -⟩ := h.listed_of_held hsecond
    rw [hobject, hother] at haddress
    have hsame : entry = last :=
      List.inj_on_of_nodup_map hmetadata.addresses hentry hlast haddress
    rw [hsame]
  seed seed hmem := by
    rw [h.seedBroker] at hmem
    exact (hpooled.seed seed hmem).trans_le h.fresh
  seeded hnone := by
    rw [h.seedBroker, hseed] at hnone
    cases hnone

/-- The pool holds the brokers of an answer, and nothing else. -/
structure Consistent (state : State) (metadata : List BrokerMetadata) : Prop where
  keys : ∀ nodeId, nodeId ∈ state.brokers.keys ↔ nodeId ∈ metadata.map BrokerMetadata.nodeId
  brokers : ∀ entry ∈ metadata, ∃ broker, state.brokers.get? entry.nodeId = some broker ∧
    state.objects broker = entry.object
  distinct : ∀ first second broker, state.brokers.get? first = some broker →
    state.brokers.get? second = some broker → first = second

/-- After a refresh the pool has the brokers of the metadata. -/
theorem Refreshed.consistent (h : Refreshed before seedBroker metadata next disconnected)
    (hnext : Pooled next) : Consistent next metadata where
  keys nodeId := by
    rw [InsertionMap.mem_keys_iff, List.mem_map]
    constructor
    · rintro ⟨broker, hheld⟩
      obtain ⟨entry, hentry, hnodeId, -⟩ := h.listed_of_held hheld
      exact ⟨entry, hentry, hnodeId⟩
    · rintro ⟨entry, hentry, rfl⟩
      obtain ⟨broker, hheld, -⟩ := h.listed entry hentry
      exact ⟨broker, hheld⟩
  brokers entry hentry := by
    obtain ⟨broker, hheld, hobject, -⟩ := h.listed entry hentry
    exact ⟨broker, hheld, hobject⟩
  distinct _ _ _ hfirst hsecond := hnext.distinct hfirst hsecond

/-- No disconnected broker is left in the pool, or as its seed broker. -/
def Dropped (state : State) (disconnected : List Nat) : Prop :=
  ∀ broker ∈ disconnected,
    (∀ nodeId, state.brokers.get? nodeId ≠ some broker) ∧ state.seedBroker ≠ some broker

/-- Where the pool holds the seed broker, the answer lists it as it is. -/
def SeedListed (state : State) (metadata : List BrokerMetadata) : Prop :=
  ∀ seedBroker ∈ state.seedBroker, ∀ nodeId, state.brokers.get? nodeId = some seedBroker →
    ∃ entry ∈ metadata,
      entry.nodeId = nodeId ∧ entry.pool = (state.objects seedBroker).connectionPool

/-- A refresh leaves no disconnected broker behind exactly if it lists the seed broker as it is. -/
theorem Refreshed.dropped_iff (h : Refreshed before seedBroker metadata next disconnected)
    (hmetadata : WellFormed metadata) (hpooled : Pooled before)
    (hseed : before.seedBroker = some seedBroker) :
    Dropped next disconnected ↔ SeedListed before metadata := by
  have hentries : ∀ entry ∈ metadata, ∀ other ∈ metadata, entry.nodeId = other.nodeId →
      entry = other := fun entry hentry other hother =>
    List.inj_on_of_nodup_map hmetadata.nodeIds hentry hother
  constructor
  · intro hdropped seed hmem nodeId hheld
    have hkept : seed ∉ disconnected := fun hgone =>
      (hdropped seed hgone).2 (h.seedBroker.trans hmem)
    rw [h.disconnected, not_or] at hkept
    have hlisted : nodeId ∈ metadata.map BrokerMetadata.nodeId := by
      by_contra habsent
      exact hkept.1 ⟨nodeId, habsent, hheld⟩
    obtain ⟨entry, hentry, rfl⟩ := List.mem_map.mp hlisted
    refine ⟨entry, hentry, rfl, ?_⟩
    by_contra hne
    exact hkept.2 ⟨entry, hentry, hheld, fun heq => hne heq.symm⟩
  · intro hlisted broker hgone
    rw [h.disconnected] at hgone
    obtain ⟨nodeId, hheld, hreplaced⟩ : ∃ nodeId, before.brokers.get? nodeId = some broker ∧
        ∀ entry ∈ metadata, entry.nodeId = nodeId →
          entry.pool ≠ (before.objects broker).connectionPool := by
      rcases hgone with ⟨nodeId, habsent, hheld⟩ | ⟨entry, hentry, hheld, hne⟩
      · exact ⟨nodeId, hheld, fun entry hentry heq =>
          absurd (List.mem_map.mpr ⟨entry, hentry, heq⟩) habsent⟩
      · refine ⟨entry.nodeId, hheld, fun other hother heq hpool => ?_⟩
        rw [hentries other hother entry hentry heq] at hpool
        exact hne hpool.symm
    have hneSeed : broker ≠ seedBroker := by
      rintro rfl
      obtain ⟨entry, hentry, hnodeId, hpool⟩ := hlisted broker hseed nodeId hheld
      exact hreplaced entry hentry hnodeId hpool
    constructor
    · -- the pool does not hold it under another key either, and new brokers are other objects
      intro key hkey
      obtain ⟨entry, hentry, hnodeId, -, -, hcases⟩ := h.listed_of_held hkey
      rcases hcases with hisSeed | hnew | ⟨hold, hpool⟩
      · exact hneSeed hisSeed
      · exact absurd (hpooled.held nodeId broker hheld).1 (Nat.not_lt.mpr hnew)
      · rw [hpooled.distinct hold hheld] at hnodeId
        exact hreplaced entry hentry hnodeId hpool.symm
    · rw [h.seedBroker, hseed]
      exact fun heq => hneSeed (Option.some.inj heq).symm

end Refresh

/-! ## Seed brokers and removals -/

/-- Another seed broker keeps the pool well formed. -/
theorem pooled_createSeedBroker {addresses : Addresses} {state : State} (h : Pooled state) :
    Pooled (createSeedBroker addresses state) := by
  have hsame : ∀ nodeId broker, state.brokers.get? nodeId = some broker →
      (createSeedBroker addresses state).objects broker = state.objects broker :=
    fun nodeId broker hheld =>
      Function.update_of_ne (Nat.ne_of_lt (h.held nodeId broker hheld).1) _ _
  constructor
  · intro nodeId broker hheld
    obtain ⟨hlt, hnodeId⟩ := h.held nodeId broker hheld
    rw [hsame nodeId broker hheld]
    exact ⟨Nat.lt_succ_of_lt hlt, hnodeId⟩
  · intro first second broker other hfirst hsecond haddress
    rw [hsame first broker hfirst, hsame second other hsecond] at haddress
    exact h.addresses first second broker other hfirst hsecond haddress
  · intro seedBroker hseed
    cases hseed
    exact Nat.lt_succ_self _
  · intro hnone
    cases hnone

/-- The brokers of the pool. -/
theorem State.mem_values {state : State} {broker : Nat} :
    broker ∈ state.values ↔ ∃ nodeId, state.brokers.get? nodeId = some broker := by
  rw [State.values, List.mem_filterMap]
  constructor
  · rintro ⟨nodeId, -, hheld⟩
    exact ⟨nodeId, hheld⟩
  · rintro ⟨nodeId, hheld⟩
    exact ⟨nodeId, mem_propertyKeys.mpr (InsertionMap.mem_keys_iff.mpr ⟨broker, hheld⟩), hheld⟩

/-- What a removal does. -/
structure Removed (host : String) (port : Int) (before next : State) : Prop where
  brokers : ∀ nodeId broker, next.brokers.get? nodeId = some broker ↔
    before.brokers.get? nodeId = some broker ∧
      (before.objects broker).connectionPool.address ≠ (host, port)
  seedBroker : next.seedBroker = before.seedBroker ∨
    ∀ seedBroker ∈ next.seedBroker, ∃ nodeId, next.brokers.get? nodeId = some seedBroker
  empty : next.seedBroker = none → next.brokers.keys = []

/-- Removing brokers keeps the pool well formed. -/
theorem Removed.pooled {host : String} {port : Int} {before next : State}
    (h : Removed host port before next) (hpooled : Pooled before)
    (hobjects : next.objects = before.objects) (hfresh : next.fresh = before.fresh) :
    Pooled next where
  held nodeId broker hheld := by
    rw [hobjects, hfresh]
    exact hpooled.held nodeId broker ((h.brokers nodeId broker).mp hheld).1
  addresses first second broker other hfirst hsecond haddress := by
    rw [hobjects] at haddress
    exact hpooled.addresses first second broker other ((h.brokers first broker).mp hfirst).1
      ((h.brokers second other).mp hsecond).1 haddress
  seed seedBroker hseed := by
    rw [hfresh]
    rcases h.seedBroker with hsame | hheld
    · rw [hsame] at hseed
      exact hpooled.seed seedBroker hseed
    · obtain ⟨nodeId, hnodeId⟩ := hheld seedBroker hseed
      exact (hpooled.held nodeId seedBroker ((h.brokers nodeId seedBroker).mp hnodeId).1).1
  seeded := h.empty

/-- Shuffled values have a first one unless there are none. -/
theorem State.keys_eq_nil {state : State} {first : Nat}
    (h : state.values[first % state.values.length]? = none) : state.brokers.keys = [] := by
  rw [List.getElem?_eq_none_iff] at h
  have hvalues : state.values = [] := by
    rw [← List.length_eq_zero_iff]
    by_contra hne
    have hlt := Nat.mod_lt first (Nat.pos_of_ne_zero hne)
    exact absurd hlt (Nat.not_lt.mpr h)
  rw [List.eq_nil_iff_forall_not_mem]
  intro nodeId hnodeId
  obtain ⟨broker, hheld⟩ := InsertionMap.mem_keys_iff.mp hnodeId
  have hmem : broker ∈ state.values := State.mem_values.mpr ⟨nodeId, hheld⟩
  rw [hvalues] at hmem
  cases hmem

/-- What the removal of a broker does. -/
theorem removed {host : String} {port : Int} {first : Nat} {state : State} (h : Pooled state) :
    ∃ next, removeBroker host port first state = some next ∧ Removed host port state next ∧
      Pooled next := by
  unfold removeBroker
  dsimp only
  cases hfind : state.values.find? fun broker =>
      decide ((state.objects broker).connectionPool.host = host ∧
        (state.objects broker).connectionPool.port = port) with
  | none =>
      rw [List.find?_eq_none] at hfind
      refine ⟨state, rfl, ⟨fun nodeId broker => ?_, Or.inl rfl, h.seeded⟩, h⟩
      constructor
      · intro hheld
        refine ⟨hheld, fun haddress => ?_⟩
        exact hfind broker (State.mem_values.mpr ⟨nodeId, hheld⟩)
          (decide_eq_true (Prod.mk.inj haddress))
      · exact fun hheld => hheld.1
  | some removedBroker =>
      obtain ⟨nodeId, hheld⟩ := State.mem_values.mp (List.mem_of_find?_eq_some hfind)
      have hat := List.find?_some hfind
      rw [decide_eq_true_eq] at hat
      have haddress : (state.objects removedBroker).connectionPool.address = (host, port) :=
        Prod.ext hat.1 hat.2
      obtain ⟨-, hnodeId⟩ := h.held nodeId removedBroker hheld
      -- addresses are distinct in a pool, so the first broker found is the only one to go
      have hbrokers : ∀ key broker, (state.brokers.delete nodeId).get? key = some broker ↔
          state.brokers.get? key = some broker ∧
            (state.objects broker).connectionPool.address ≠ (host, port) := by
        intro key broker
        rw [InsertionMap.get?_delete]
        split
        · next hkey =>
            subst hkey
            constructor
            · intro hnone
              cases hnone
            · rintro ⟨hsome, hne⟩
              rw [hheld] at hsome
              cases hsome
              exact absurd haddress hne
        · next hkey =>
            constructor
            · intro hsome
              refine ⟨hsome, fun hsame => hkey ?_⟩
              exact h.addresses key nodeId broker removedBroker hsome hheld
                (hsame.trans haddress.symm)
            · exact fun hsome => hsome.1
      cases hseed : state.seedBroker with
      | none =>
          have hkey : nodeId ∈ state.brokers.keys := InsertionMap.mem_keys_iff.mpr ⟨_, hheld⟩
          rw [h.seeded hseed] at hkey
          cases hkey
      | some seedBroker =>
          dsimp only
          rw [hnodeId]
          dsimp only
          let left : State :=
            { state with
              brokers := state.brokers.delete nodeId
              seedBroker := some seedBroker }
          by_cases hsame : (state.objects seedBroker).nodeId = (state.objects removedBroker).nodeId
          · rw [if_pos hsame]
            have hremoved : Removed host port state
                { left with seedBroker := left.values[first % left.values.length]? } :=
              ⟨hbrokers, Or.inr fun broker hbroker =>
                State.mem_values.mp (List.mem_of_getElem? hbroker), @State.keys_eq_nil left first⟩
            exact ⟨_, rfl, hremoved, hremoved.pooled h rfl rfl⟩
          · rw [if_neg hsame]
            have hremoved : Removed host port state left :=
              ⟨hbrokers, Or.inl hseed.symm, fun hnone => by cases hnone⟩
            exact ⟨_, rfl, hremoved, hremoved.pooled h rfl rfl⟩

/-! ## Runs -/

/-- The answers of a run. -/
def Admissible (_ : State) : Operation → Prop
  | .refreshMetadata metadata => WellFormed metadata
  | _ => True

/-- The condition on an operation. -/
def Listed (state : State) : Operation → Prop
  | .refreshMetadata metadata => SeedListed state metadata
  | _ => True

/-- What an operation is for. -/
def Correct (addresses : Addresses) (state : State) : Operation → Prop
  | .createSeedBroker => True
  | .refreshMetadata metadata => ∀ next disconnected,
      refreshMetadata addresses metadata state = some (next, disconnected) →
      Consistent next metadata ∧ Dropped next disconnected
  | .removeBroker host port first => ∃ next,
      removeBroker host port first state = some next ∧ Removed host port state next

section Runs

variable {addresses : Addresses} {state next : State} {operation : Operation}

/-- An empty pool is well formed. -/
theorem pooled_empty (objects : Nat → BrokerObject) : Pooled { objects } where
  held _ _ hheld := by cases hheld
  addresses _ _ _ _ hheld := by cases hheld
  seed _ hseed := by cases hseed
  seeded _ := rfl

/-- Every admissible operation keeps the pool well formed. -/
theorem pooled_step (h : Pooled state) (hadmissible : Admissible state operation)
    (hstep : step addresses state operation = some next) : Pooled next := by
  cases operation with
  | createSeedBroker =>
      cases hstep
      exact pooled_createSeedBroker h
  | refreshMetadata metadata =>
      obtain ⟨⟨last, disconnected⟩, hrefresh, rfl⟩ := Option.map_eq_some_iff.mp hstep
      obtain ⟨seedBroker, hseed, hrefreshed⟩ := refreshed h hadmissible hrefresh
      exact hrefreshed.pooled hadmissible h hseed
  | removeBroker host port first =>
      obtain ⟨last, hremove, -, hpooled⟩ := @removed host port _ _ h
      rw [step, hremove] at hstep
      cases hstep
      exact hpooled

/-- One operation from a pool. -/
theorem correct_iff (h : Pooled state) (hadmissible : Admissible state operation) :
    Correct addresses state operation ↔ Listed state operation := by
  cases operation with
  | createSeedBroker => exact Iff.rfl
  | refreshMetadata metadata =>
      cases hrefresh : refreshMetadata addresses metadata state with
      | none =>
          have hseed : state.seedBroker = none := by
            cases hsome : state.seedBroker with
            | none => rfl
            | some seedBroker =>
                unfold refreshMetadata at hrefresh
                rw [hsome] at hrefresh
                cases hrefresh
          constructor
          · intro _ seedBroker hmem
            rw [hseed] at hmem
            cases hmem
          · intro _ next disconnected hsome
            rw [hrefresh] at hsome
            cases hsome
      | some result =>
          obtain ⟨last, disconnected⟩ := result
          obtain ⟨seedBroker, hseed, hrefreshed⟩ := refreshed h hadmissible hrefresh
          have hconsistent := hrefreshed.consistent (hrefreshed.pooled hadmissible h hseed)
          have hdropped := hrefreshed.dropped_iff hadmissible h hseed
          constructor
          · intro hcorrect
            exact hdropped.mp (hcorrect last disconnected hrefresh).2
          · intro hlisted next gone hsame
            cases hrefresh.symm.trans hsame
            exact ⟨hconsistent, hdropped.mpr hlisted⟩
  | removeBroker host port first =>
      obtain ⟨last, hremove, hremoved, -⟩ := removed h
      exact ⟨fun _ => trivial, fun _ => ⟨last, hremove, hremoved⟩⟩

/-- Over every run of a new pool, the operations do what they are for exactly as long as every
refresh lists a seed broker that the pool holds. -/
theorem correct_iff_listed {objects : Nat → BrokerObject} {operations : List Operation}
    (h : Meets (step addresses) Admissible { objects } operations) :
    Meets (step addresses) (Correct addresses) { objects } operations ↔
      Meets (step addresses) Listed { objects } operations :=
  meets_congr (fun _ _ _ => pooled_step) (fun _ _ => correct_iff) (pooled_empty objects) h

end Runs

/-! ## The seed broker replaced -/

/-- Where the seed broker connects to. -/
def seedAddress : Addresses := fun _ => ("a", 9092)

/-- Objects that are not in use. -/
def unusedObjects : Nat → BrokerObject := fun _ => ⟨⟨"", 0, none⟩, none⟩

/-- A broker at the address of the seed broker. -/
def listedBroker (nodeId : Int) (rack : Rack) : BrokerMetadata := ⟨nodeId, "a", 9092, rack⟩

/-- A list of one broker is well formed. -/
theorem wellFormed_singleton (nodeId : Int) (rack : Rack) :
    WellFormed [listedBroker nodeId rack] :=
  ⟨List.nodup_singleton _, List.nodup_singleton _, fun broker hbroker => by
    rw [List.mem_singleton] at hbroker
    subst hbroker
    show "a" ≠ ""
    decide⟩

/-- The equivalence for a pool that is refreshed and then loses its broker. -/
theorem correct_iff_listed_sample :
    Meets (step seedAddress) (Correct seedAddress) { objects := unusedObjects }
        [.createSeedBroker, .refreshMetadata [listedBroker 1 none], .removeBroker "a" 9092 0] ↔
      Meets (step seedAddress) Listed { objects := unusedObjects }
        [.createSeedBroker, .refreshMetadata [listedBroker 1 none], .removeBroker "a" 9092 0] :=
  correct_iff_listed ⟨trivial, wellFormed_singleton 1 none, trivial, trivial⟩

/-- A rack that changes: the seed broker, in the pool under its node id, is disconnected there. -/
theorem not_correct_rack_changed :
    Meets (step seedAddress) Admissible { objects := unusedObjects }
      [.createSeedBroker, .refreshMetadata [listedBroker 1 none],
        .refreshMetadata [listedBroker 1 (some (some "r"))]] ∧
    ¬ Meets (step seedAddress) (Correct seedAddress) { objects := unusedObjects }
      [.createSeedBroker, .refreshMetadata [listedBroker 1 none],
        .refreshMetadata [listedBroker 1 (some (some "r"))]] := by
  refine ⟨⟨trivial, wellFormed_singleton _ _, wellFormed_singleton _ _, trivial⟩, ?_⟩
  rintro ⟨-, -, hrefresh, -⟩
  obtain ⟨-, hdropped⟩ := hrefresh _ _ rfl
  exact (hdropped 0 (by decide)).2 rfl

end KafkaJs.Cluster.BrokerPool
