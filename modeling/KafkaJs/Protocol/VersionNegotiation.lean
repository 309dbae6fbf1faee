import KafkaJs.Errors
import Mathlib.Data.Int.Order.Basic
import Mathlib.Order.Basic

/-!
# Which version of a request is sent

`protocol/requests/index.js`: the table of request definitions with the versions that they
implement, and `lookup`, which picks a version from the broker's answer to an ApiVersions request.
`lookup` takes the smaller of the two largest versions. `sound_iff` says for which answers this is
an implemented version in the broker's range, and then it is the largest one; a definition whose
versions have no gap serves every range that starts no later than its largest version and ends no
earlier than its smallest, `sound_of_contiguous`.
-/

namespace KafkaJs.Protocol.Requests

open KafkaJs

/-- `apiKeys`. -/
def apiKeys : List (String × Int) :=
  [("Produce", 0), ("Fetch", 1), ("ListOffsets", 2), ("Metadata", 3), ("LeaderAndIsr", 4),
    ("StopReplica", 5), ("UpdateMetadata", 6), ("ControlledShutdown", 7), ("OffsetCommit", 8),
    ("OffsetFetch", 9), ("GroupCoordinator", 10), ("JoinGroup", 11), ("Heartbeat", 12),
    ("LeaveGroup", 13), ("SyncGroup", 14), ("DescribeGroups", 15), ("ListGroups", 16),
    ("SaslHandshake", 17), ("ApiVersions", 18), ("CreateTopics", 19), ("DeleteTopics", 20),
    ("DeleteRecords", 21), ("InitProducerId", 22), ("OffsetForLeaderEpoch", 23),
    ("AddPartitionsToTxn", 24), ("AddOffsetsToTxn", 25), ("EndTxn", 26), ("WriteTxnMarkers", 27),
    ("TxnOffsetCommit", 28), ("DescribeAcls", 29), ("CreateAcls", 30), ("DeleteAcls", 31),
    ("DescribeConfigs", 32), ("AlterConfigs", 33), ("AlterReplicaLogDirs", 34),
    ("DescribeLogDirs", 35), ("SaslAuthenticate", 36), ("CreatePartitions", 37),
    ("CreateDelegationToken", 38), ("RenewDelegationToken", 39), ("ExpireDelegationToken", 40),
    ("DescribeDelegationToken", 41), ("DeleteGroups", 42), ("ElectPreferredLeaders", 43),
    ("ElectLeaders", 43), ("IncrementalAlterConfigs", 44), ("AlterPartitionReassignments", 45),
    ("ListPartitionReassignments", 46), ("OffsetDelete", 47), ("DescribeClientQuotas", 48),
    ("AlterClientQuotas", 49), ("DescribeUserScramCredentials", 50),
    ("AlterUserScramCredentials", 51), ("Vote", 52), ("BeginQuorumEpoch", 53),
    ("EndQuorumEpoch", 54), ("DescribeQuorum", 55), ("AlterPartition", 56),
    ("UpdateFeatures", 57), ("Envelope", 58), ("FetchSnapshot", 59), ("DescribeCluster", 60),
    ("DescribeProducers", 61), ("BrokerRegistration", 62), ("BrokerHeartbeat", 63),
    ("UnregisterBroker", 64), ("DescribeTransactions", 65), ("ListTransactions", 66),
    ("AllocateProducerIds", 67), ("ConsumerGroupHeartbeat", 68), ("ConsumerGroupDescribe", 69),
    ("ControllerRegistration", 70), ("GetTelemetrySubscriptions", 71), ("PushTelemetry", 72),
    ("AssignReplicasToDirs", 73), ("ListClientMetricsResources", 74),
    ("DescribeTopicPartitions", 75), ("ShareGroupHeartbeat", 76), ("ShareGroupDescribe", 77),
    ("ShareFetch", 78), ("ShareAcknowledge", 79), ("AddRaftVoter", 80), ("RemoveRaftVoter", 81),
    ("UpdateRaftVoter", 82), ("ReadShareGroupStateSummary", 83)]

/-- The definitions of a request: the versions that have a protocol, or those of a request that is
not implemented. -/
inductive RequestDefinitions where
  | implemented (versions : List Int)
  | noImplemented
  deriving DecidableEq, Repr

/-- `requests`. -/
def requests : List (String × RequestDefinitions) :=
  [("Produce", .implemented [0, 1, 2, 3, 4, 5, 6, 7, 8, 9]),
    ("Fetch", .implemented [0, 1, 2, 3, 4, 5, 6, 7, 8, 9, 10, 11, 12]),
    ("ListOffsets", .implemented [0, 1, 2, 3, 4]),
    ("Metadata", .implemented [0, 1, 2, 3, 4, 5, 6, 7]), ("LeaderAndIsr", .noImplemented),
    ("StopReplica", .noImplemented), ("UpdateMetadata", .noImplemented),
    ("ControlledShutdown", .noImplemented),
    ("OffsetCommit", .implemented [0, 1, 2, 3, 4, 5, 6, 7]),
    ("OffsetFetch", .implemented [1, 2, 3, 4, 5]),
    ("GroupCoordinator", .implemented [0, 1, 2, 3]),
    ("JoinGroup", .implemented [0, 1, 2, 3, 4, 5, 6]),
    ("Heartbeat", .implemented [0, 1, 2, 3, 4]), ("LeaveGroup", .implemented [0, 1, 2, 3, 4]),
    ("SyncGroup", .implemented [0, 1, 2, 3, 4]), ("DescribeGroups", .implemented [0, 1, 2, 5]),
    ("ListGroups", .implemented [0, 1, 2, 4]), ("SaslHandshake", .implemented [0, 1]),
    ("ApiVersions", .implemented [0, 1, 2, 3]), ("CreateTopics", .implemented [0, 1, 2, 3, 5]),
    ("DeleteTopics", .implemented [0, 1, 4]), ("DeleteRecords", .implemented [0, 1]),
    ("InitProducerId", .implemented [0, 1, 2, 3]),
    ("OffsetForLeaderEpoch", .implemented [0, 2, 3]),
    ("AddPartitionsToTxn", .implemented [0, 1]), ("AddOffsetsToTxn", .implemented [0, 1]),
    ("EndTxn", .implemented [0, 1]), ("WriteTxnMarkers", .noImplemented),
    ("TxnOffsetCommit", .implemented [0, 1]), ("DescribeAcls", .implemented [0, 1]),
    ("CreateAcls", .implemented [0, 1]), ("DeleteAcls", .implemented [0, 1]),
    ("DescribeConfigs", .implemented [0, 1, 2, 4]), ("AlterConfigs", .implemented [0, 1, 2]),
    ("AlterReplicaLogDirs", .noImplemented), ("DescribeLogDirs", .implemented [0, 2]),
    ("SaslAuthenticate", .implemented [0, 1, 2]), ("CreatePartitions", .implemented [0, 1]),
    ("CreateDelegationToken", .noImplemented), ("RenewDelegationToken", .noImplemented),
    ("ExpireDelegationToken", .noImplemented), ("DescribeDelegationToken", .noImplemented),
    ("DeleteGroups", .implemented [0, 1, 2]), ("ElectLeaders", .implemented [0, 1, 2]),
    ("IncrementalAlterConfigs", .implemented [0, 1]),
    ("AlterPartitionReassignments", .implemented [0]),
    ("ListPartitionReassignments", .implemented [0]), ("OffsetDelete", .implemented [0]),
    ("DescribeClientQuotas", .noImplemented), ("AlterClientQuotas", .noImplemented),
    ("DescribeUserScramCredentials", .noImplemented),
    ("AlterUserScramCredentials", .noImplemented), ("Vote", .noImplemented),
    ("BeginQuorumEpoch", .noImplemented), ("EndQuorumEpoch", .noImplemented),
    ("DescribeQuorum", .noImplemented), ("AlterPartition", .noImplemented),
    ("UpdateFeatures", .noImplemented), ("Envelope", .noImplemented),
    ("FetchSnapshot", .noImplemented), ("DescribeCluster", .implemented [0, 1]),
    ("DescribeProducers", .implemented [0]), ("BrokerRegistration", .noImplemented),
    ("BrokerHeartbeat", .noImplemented), ("UnregisterBroker", .noImplemented),
    ("DescribeTransactions", .implemented [0]), ("ListTransactions", .implemented [0]),
    ("AllocateProducerIds", .noImplemented), ("ConsumerGroupHeartbeat", .noImplemented),
    ("ConsumerGroupDescribe", .noImplemented), ("ControllerRegistration", .noImplemented),
    ("GetTelemetrySubscriptions", .noImplemented), ("PushTelemetry", .noImplemented),
    ("AssignReplicasToDirs", .noImplemented), ("ListClientMetricsResources", .noImplemented),
    ("DescribeTopicPartitions", .noImplemented), ("ShareGroupHeartbeat", .implemented [0]),
    ("ShareGroupDescribe", .implemented [0]), ("ShareFetch", .implemented [0]),
    ("ShareAcknowledge", .implemented [0]), ("AddRaftVoter", .implemented [0]),
    ("RemoveRaftVoter", .implemented [0]), ("UpdateRaftVoter", .implemented [0]),
    ("ReadShareGroupStateSummary", .implemented [0])]

/-- `versions`. -/
def RequestDefinitions.versions : RequestDefinitions → List Int
  | .implemented versions => versions
  | .noImplemented => []

/-- What `lookup` throws. -/
inductive LookupError where
  | serverDoesNotSupportApiKey (message : String) (apiKey : Int) (apiName : Option String)
  | typeError (message : String)
  deriving DecidableEq, Repr

/-- `name`. -/
def LookupError.name : LookupError → ErrorName
  | .serverDoesNotSupportApiKey _ _ _ => .kafkaJSServerDoesNotSupportApiKey
  | .typeError _ => .typeError

/-- What the protocol of a request that is not implemented throws: `KafkaJSNotImplemented` is made
without an argument, and its constructor reads a property of it. -/
def noImplementedError : LookupError :=
  .typeError "Cannot read properties of undefined (reading 'message')"

/-- `protocol`: the protocol of a version, given by the version that it is of, or `undefined`. No
version is the one of a definition without versions, minus infinity. -/
def RequestDefinitions.protocol (definition : RequestDefinitions) (version : Option Int) :
    Except LookupError (Option Int) :=
  match definition with
  | .implemented versions => .ok (version.filter (· ∈ versions))
  | .noImplemented => .error noImplementedError

/-- What a broker says of an API. -/
structure VersionRange where
  minVersion : Int
  maxVersion : Option Int
  deriving DecidableEq, Repr

/-- The answer of a broker, by API key. -/
abbrev ApiVersions := Int → Option VersionRange

/-- `findApiName`: the first name that has the key. -/
def findApiName (apiKey : Int) : Option String :=
  (apiKeys.find? fun entry => entry.2 = apiKey).map Prod.fst

/-- The error of an API that the broker does not list. -/
def notSupported (apiKey : Int) : LookupError :=
  .serverDoesNotSupportApiKey "The Kafka server does not support the requested API version" apiKey
    (findApiName apiKey)

/-- `lookup`. -/
def lookup (versions : ApiVersions) (apiKey : Int) (definition : RequestDefinitions) :
    Except LookupError (Option Int) :=
  let bestImplementedVersion := definition.versions.max?
  match (versions apiKey).bind VersionRange.maxVersion with
  | none => .error (notSupported apiKey)
  | some maxVersion => definition.protocol (bestImplementedVersion.map (min · maxVersion))

/-! ## Soundness -/

/-- The version is the largest one that is implemented and in the range. -/
structure Chosen (definition : RequestDefinitions) (range : VersionRange) (version : Int) :
    Prop where
  implemented : version ∈ definition.versions
  lower : range.minVersion ≤ version
  upper : ∀ maxVersion ∈ range.maxVersion, version ≤ maxVersion
  largest : ∀ other ∈ definition.versions, range.minVersion ≤ other →
    (∀ maxVersion ∈ range.maxVersion, other ≤ maxVersion) → other ≤ version

/-- The version is sound for the answer: `lookup` gives the largest version that both sides have,
or says that the broker does not support the API. -/
def Sound (versions : ApiVersions) (apiKey : Int) (definition : RequestDefinitions) : Prop :=
  match lookup versions apiKey definition with
  | .ok (some version) => ∃ range, versions apiKey = some range ∧ Chosen definition range version
  | .ok none => False
  | .error error => error.name = .kafkaJSServerDoesNotSupportApiKey

/-- The broker does not list the API, or its range holds the largest version of the definition, or
the upper end of its range is a version of the definition. -/
def Served (versions : ApiVersions) (apiKey : Int) (definition : RequestDefinitions) : Prop :=
  ∀ range ∈ versions apiKey, ∀ maxVersion ∈ range.maxVersion,
    (∃ best ∈ definition.versions.max?, range.minVersion ≤ best ∧ best ≤ maxVersion) ∨
      maxVersion ∈ definition.versions ∧ range.minVersion ≤ maxVersion

/-- Every implemented definition has a version. -/
theorem versions_ne_nil {name : String} {definition : RequestDefinitions}
    (hmem : (name, definition) ∈ requests) (himplemented : definition ≠ .noImplemented) :
    definition.versions ≠ [] := by
  have hall : ∀ entry ∈ requests, entry.2 ≠ .noImplemented → entry.2.versions ≠ [] := by decide
  exact hall _ hmem himplemented

/-- What `lookup` gives for a definition with versions and a range with an upper end. -/
theorem lookup_implemented {versions : ApiVersions} {apiKey maxVersion : Int}
    {range : VersionRange} {implemented : List Int} {best : Int}
    (hrange : versions apiKey = some range) (hmax : range.maxVersion = some maxVersion)
    (hbest : implemented.max? = some best) :
    lookup versions apiKey (.implemented implemented) =
      .ok (if min best maxVersion ∈ implemented then some (min best maxVersion) else none) := by
  have hbest' : (RequestDefinitions.implemented implemented).versions.max? = some best := hbest
  rw [lookup, hrange, Option.bind_some, hmax, hbest']
  show Except.ok (Option.filter (· ∈ implemented) (some (min best maxVersion))) = _
  rw [Option.filter_some]
  simp only [decide_eq_true_eq]

/-- The largest version of the definition, where the range reaches that far. -/
theorem chosen_best {implemented : List Int} {range : VersionRange} {best maxVersion : Int}
    (hbest : implemented.max? = some best) (hmax : range.maxVersion = some maxVersion)
    (hle : best ≤ maxVersion) :
    Chosen (.implemented implemented) range best ↔ range.minVersion ≤ best := by
  obtain ⟨hmem, hlargest⟩ := List.max?_eq_some_iff.mp hbest
  refine ⟨Chosen.lower, fun hlower => ⟨hmem, hlower, ?_, fun other hother _ _ => hlargest other hother⟩⟩
  intro upper hupper
  rw [hmax] at hupper
  cases hupper
  exact hle

/-- The upper end of the range, where the definition has versions beyond it. -/
theorem chosen_max {implemented : List Int} {range : VersionRange} {maxVersion : Int}
    (hmax : range.maxVersion = some maxVersion) :
    Chosen (.implemented implemented) range maxVersion ↔
      maxVersion ∈ implemented ∧ range.minVersion ≤ maxVersion := by
  refine ⟨fun hchosen => ⟨hchosen.implemented, hchosen.lower⟩, fun ⟨hmem, hlower⟩ =>
    ⟨hmem, hlower, ?_, fun other _ _ hupper => hupper maxVersion hmax⟩⟩
  intro upper hupper
  rw [hmax] at hupper
  cases hupper
  exact Int.le_refl _

/-- Soundness for a definition with versions and a range with an upper end. -/
theorem sound_iff_range {versions : ApiVersions} {apiKey maxVersion : Int} {range : VersionRange}
    {implemented : List Int} {best : Int} (hrange : versions apiKey = some range)
    (hmax : range.maxVersion = some maxVersion) (hbest : implemented.max? = some best) :
    Sound versions apiKey (.implemented implemented) ↔
      range.minVersion ≤ best ∧ best ≤ maxVersion ∨
        maxVersion ∈ implemented ∧ range.minVersion ≤ maxVersion := by
  obtain ⟨hmem, hlargest⟩ := List.max?_eq_some_iff.mp hbest
  have hexists (version : Int) :
      (∃ other, versions apiKey = some other ∧ Chosen (.implemented implemented) other version) ↔
        Chosen (.implemented implemented) range version := by
    rw [hrange]
    simp
  rw [Sound, lookup_implemented hrange hmax hbest]
  rcases lt_or_ge maxVersion best with hlt | hle
  · rw [min_eq_right hlt.le]
    by_cases himplemented : maxVersion ∈ implemented
    · rw [if_pos himplemented]
      refine (hexists maxVersion).trans ((chosen_max hmax).trans ⟨Or.inr, ?_⟩)
      rintro (⟨-, hle⟩ | hboth)
      · exact absurd hle (Int.not_le.mpr hlt)
      · exact hboth
    · rw [if_neg himplemented]
      refine iff_of_false id ?_
      rintro (⟨-, hle⟩ | ⟨hmem, -⟩)
      · exact absurd hle (Int.not_le.mpr hlt)
      · exact himplemented hmem
  · rw [min_eq_left hle, if_pos hmem]
    refine (hexists best).trans ((chosen_best hbest hmax hle).trans ⟨fun hlower =>
      Or.inl ⟨hlower, hle⟩, ?_⟩)
    rintro (⟨hlower, -⟩ | ⟨himplemented, hlower⟩)
    · exact hlower
    · exact hlower.trans (hlargest maxVersion himplemented)

/-- An API that the broker does not list is reported as such. -/
theorem sound_of_unlisted {versions : ApiVersions} {apiKey : Int}
    {definition : RequestDefinitions}
    (h : (versions apiKey).bind VersionRange.maxVersion = none) :
    Sound versions apiKey definition := by
  rw [Sound, lookup, h]
  rfl

/-- For every implemented definition of the table and every answer, `lookup` is sound exactly if
the broker does not list the API, its range holds the largest version of the definition, or the
upper end of its range is a version of the definition. -/
theorem sound_iff_served {name : String} {definition : RequestDefinitions}
    (hmem : (name, definition) ∈ requests) (himplemented : definition ≠ .noImplemented)
    (versions : ApiVersions) (apiKey : Int) :
    Sound versions apiKey definition ↔ Served versions apiKey definition := by
  have hversions := versions_ne_nil hmem himplemented
  cases definition with
  | noImplemented => exact absurd rfl himplemented
  | implemented implemented =>
      obtain ⟨best, hbest⟩ := Option.ne_none_iff_exists'.mp (mt List.max?_eq_none_iff.mp hversions)
      change implemented.max? = some best at hbest
      cases hrange : versions apiKey with
      | none =>
          refine iff_of_true (sound_of_unlisted (by rw [hrange]; rfl)) fun range hlisted => ?_
          rw [hrange] at hlisted
          cases hlisted
      | some range =>
          cases hmax : range.maxVersion with
          | none =>
              refine iff_of_true (sound_of_unlisted (by rw [hrange, Option.bind_some, hmax])) ?_
              intro other hother maxVersion hmaxVersion
              rw [hrange] at hother
              cases hother
              rw [hmax] at hmaxVersion
              cases hmaxVersion
          | some maxVersion =>
              rw [sound_iff_range hrange hmax hbest, Served, hrange]
              simp [hmax, hbest, RequestDefinitions.versions]

/-- The largest version of `CreateTopics` on a broker that has the versions up to 6. -/
theorem sound_iff_served_createTopics :
    Sound (fun _ => some ⟨0, some 6⟩) 19 (.implemented [0, 1, 2, 3, 5]) ↔
      Served (fun _ => some ⟨0, some 6⟩) 19 (.implemented [0, 1, 2, 3, 5]) :=
  @sound_iff_served "CreateTopics" _ (by decide) (by decide) _ 19

/-- A broker whose last version of `CreateTopics` is 4, which is not implemented: `lookup` gives
`undefined`. -/
theorem not_sound_createTopics :
    ¬ Sound (fun _ => some ⟨0, some 4⟩) 19 (.implemented [0, 1, 2, 3, 5]) := id

/-! ## Definitions without gaps -/

/-- The versions from the smallest to the largest, without a gap. -/
def RequestDefinitions.Contiguous (definition : RequestDefinitions) : Prop :=
  ∀ version ∈ definition.versions, ∀ other ∈ definition.versions, version < other →
    version + 1 ∈ definition.versions

/-- `Contiguous` is decidable by comparing the versions. -/
instance (definition : RequestDefinitions) : Decidable definition.Contiguous :=
  inferInstanceAs (Decidable (∀ version ∈ definition.versions,
    ∀ other ∈ definition.versions, version < other → version + 1 ∈ definition.versions))

/-- The definitions with a gap between their versions. -/
theorem contiguous_iff : ∀ entry ∈ requests, entry.2.Contiguous ↔
    entry.1 ∉ ["DescribeGroups", "ListGroups", "CreateTopics", "DeleteTopics",
      "OffsetForLeaderEpoch", "DescribeConfigs", "DescribeLogDirs"] := by
  decide +kernel

/-- A contiguous definition implements every version between two of its own. -/
theorem RequestDefinitions.Contiguous.mem {definition : RequestDefinitions}
    (h : definition.Contiguous) {low high version : Int} (hlow : low ∈ definition.versions)
    (hhigh : high ∈ definition.versions) (hlower : low ≤ version) (hupper : version ≤ high) :
    version ∈ definition.versions := by
  obtain ⟨steps, rfl⟩ := Int.le.dest hlower
  induction steps with
  | zero => simpa using hlow
  | succ steps ih =>
      have hlast := ih (by omega) (by omega)
      have hnext := h _ hlast high hhigh (by omega)
      rwa [Int.add_assoc] at hnext

/-- A definition without gaps is sound for every range that meets its versions. -/
theorem sound_of_contiguous {versions : ApiVersions} {apiKey low maxVersion : Int}
    {range : VersionRange} {definition : RequestDefinitions} (h : definition.Contiguous)
    (hrange : versions apiKey = some range) (hmax : range.maxVersion = some maxVersion)
    (hordered : range.minVersion ≤ maxVersion) (hlow : low ∈ definition.versions)
    (hreaches : low ≤ maxVersion)
    (hstarts : ∃ version ∈ definition.versions, range.minVersion ≤ version) :
    Sound versions apiKey definition := by
  obtain ⟨version, hversion, hstart⟩ := hstarts
  cases definition with
  | noImplemented => exact absurd hlow List.not_mem_nil
  | implemented implemented =>
      obtain ⟨best, hbest⟩ := Option.ne_none_iff_exists'.mp
        (mt List.max?_eq_none_iff.mp (List.ne_nil_of_mem hversion))
      change implemented.max? = some best at hbest
      obtain ⟨hmem, hlargest⟩ := List.max?_eq_some_iff.mp hbest
      refine (sound_iff_range hrange hmax hbest).mpr ?_
      rcases lt_or_ge maxVersion best with hlt | hle
      · exact Or.inr ⟨h.mem hlow hmem hreaches hlt.le, hordered⟩
      · exact Or.inl ⟨hstart.trans (hlargest version hversion), hle⟩

end KafkaJs.Protocol.Requests
