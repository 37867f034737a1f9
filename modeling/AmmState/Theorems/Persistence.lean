import AmmState.Persistence

/-! The persistence round trip: what capture and save write is read back by load, with every registration in its normal
    form and its status as it resumes, and capturing the loaded state gives the loaded archive. -/

namespace AmmState.Persistence
open SortDedup ByteWords Checked

/-! ### Conversions and their inverses -/

theorem restore_persistedKey {key : PoolKey} {persisted : PersistedPoolKey} (h : persistedKey key = .ok persisted) :
    persisted.restore = key := by
  cases key <;> simp only [persistedKey, Except.ok.injEq, reduceCtorEq] at h <;> subst h <;> rfl

theorem restore_persistedV3Metadata (metadata : V3Metadata) : (persistedV3Metadata metadata).restore = metadata := by
  rcases metadata with ⟨_, _, _, _, _, _, _ | _, _, _⟩
  · rfl
  · rfl

theorem restore_persistedSolidlyLayout (layout : Option SolidlyStorageLayout) :
    (layout.map persistedSolidlyLayout).map (·.restore) = layout := by
  rcases layout with _ | _
  · rfl
  · rfl

theorem restore_persistedTokenBalances (balances : List BalancerTokenBalance) :
    (balances.map persistedTokenBalance).map (·.restore) = balances := by
  rw [List.map_map]
  exact List.map_id balances

theorem restore_persistedVariant (variant : CurveVariant) : (persistedVariant variant).restore = variant := by
  cases variant <;> rfl

theorem restore_persistedStatus (status : PoolStatus) : (persistedStatus status).restore = status := by
  cases status <;> rfl

/-- Metadata within the limits comes back as it was. -/
theorem restore_persistedMetadata {key : PoolKey} {metadata : ProtocolMetadata} {persisted : PersistedMetadata}
    (h : persistedMetadata key metadata = .ok persisted) (hlimits : checkMetadata metadata = .ok ()) :
    persisted.restore key = .ok metadata := by
  unfold persistedMetadata at h
  split at h <;> simp only [Except.ok.injEq, reduceCtorEq] at h <;> subst h
  · rfl
  · rfl
  · exact congrArg (Except.ok ∘ ProtocolMetadata.uniswapV3) (restore_persistedV3Metadata _)
  · exact congrArg (Except.ok ∘ ProtocolMetadata.pancakeV3) (restore_persistedV3Metadata _)
  · exact congrArg (Except.ok ∘ ProtocolMetadata.slipstream) (restore_persistedV3Metadata _)
  · rw [PersistedMetadata.restore, restore_persistedSolidlyLayout]
  · rename_i metadata _
    rw [PersistedMetadata.restore, List.length_map, restore_persistedTokenBalances]
    exact bind_eq_ok.mpr ⟨(), hlimits, rfl⟩
  · rw [PersistedMetadata.restore, restore_persistedVariant]
    exact bind_eq_ok.mpr ⟨(), hlimits, rfl⟩

theorem restore_persistedSource {source : EventSource} (h : checkEventTopics source.topics source.indexedTopics = .ok ()) :
    (persistedSource source).restore = .ok source := by
  refine bind_eq_ok.mpr ⟨(), h, ?_⟩
  rcases source with ⟨_, _, _ | _ | _ | _, _⟩ <;> rfl

theorem restore_persistedSources {sources : List EventSource}
    (h : ∀ source ∈ sources, checkEventTopics source.topics source.indexedTopics = .ok ()) :
    (sources.map persistedSource).mapM (·.restore) = .ok sources := by
  rw [mapM_eq_ok, List.forall₂_map_left_iff, List.forall₂_same]
  exact fun source hsource => restore_persistedSource (h source hsource)

theorem validateRegistrationLimits_eq_ok {registration : PoolRegistration} :
    validateRegistrationLimits registration = .ok () ↔
      registration.stateAddresses.length ≤ MAX_STATE_ADDRESSES ∧ registration.eventSources.length ≤ MAX_EVENT_SOURCES ∧
      (∀ source ∈ registration.eventSources, checkEventTopics source.topics source.indexedTopics = .ok ()) ∧
      checkMetadata registration.metadata = .ok () := by
  simp only [validateRegistrationLimits, bind_eq_ok, checkLimit, ensure_eq_ok, forM_eq_ok, exists_const]

/-- A registration within the limits comes back as it was. -/
theorem restore_persistedRegistration {registration : PoolRegistration} {persisted : PersistedRegistration}
    (h : persistedRegistration registration = .ok persisted)
    (hlimits : validateRegistrationLimits registration = .ok ()) : persisted.restore = .ok registration := by
  obtain ⟨hstate, hevents, htopics, hmetadata⟩ := validateRegistrationLimits_eq_ok.mp hlimits
  obtain ⟨key, hkey, h⟩ := bind_eq_ok.mp h
  obtain ⟨metadata, hmeta, h⟩ := bind_eq_ok.mp h
  obtain rfl := pure_eq_ok.mp h
  refine bind_eq_ok.mpr ⟨(), ensure_of hstate, bind_eq_ok.mpr ⟨(), ensure_of ?_, ?_⟩⟩
  · rwa [List.length_map]
  · simp only [restore_persistedKey hkey, restore_persistedMetadata hmeta hmetadata, restore_persistedSources htopics,
      restore_persistedStatus, ok_bind]
    rfl

/-! ### Normal forms -/

theorem normalizeSource_idem (source : EventSource) :
    normalizeSource (normalizeSource source) = normalizeSource source := by
  show EventSource.mk _ _ _ _ = EventSource.mk _ _ _ _
  rw [show (normalizeSource source).topics = sortDedup BitVec.toNat source.topics from rfl, sortDedup_idem]
  rfl

/-- The sources of a normal form are in normal form themselves. -/
theorem map_normalizeSource_sortDedup (sources : List EventSource) :
    (sortDedup eventSourceKey (sources.map normalizeSource)).map normalizeSource =
      sortDedup eventSourceKey (sources.map normalizeSource) := by
  have hnormal : ∀ source ∈ sortDedup eventSourceKey (sources.map normalizeSource), normalizeSource source = id source := by
    intro source hsource
    obtain ⟨origin, -, rfl⟩ := List.mem_map.mp (mem_sortDedup eventSourceKey hsource)
    exact normalizeSource_idem origin
  rw [List.map_congr_left hnormal, List.map_id]

theorem normalizeMetadata_idem (metadata : ProtocolMetadata) :
    normalizeMetadata (normalizeMetadata metadata) = normalizeMetadata metadata := by
  cases metadata <;> simp only [normalizeMetadata, sortDedup_idem]

theorem normalized_idem (registration : PoolRegistration) :
    normalized (normalized registration) = normalized registration := by
  simp only [normalized, sortDedup_idem, map_normalizeSource_sortDedup, normalizeMetadata_idem]

theorem isCustom_normalized (registration : PoolRegistration) :
    isCustom (normalized registration) = isCustom registration := by
  rcases registration with ⟨_, _, _, _ | _ | _ | _ | _ | _ | _ | _ | _, _⟩ <;> rfl

theorem normalizeRegistration_eq_ok {registration r : PoolRegistration} :
    normalizeRegistration registration = .ok r ↔ isCustom registration = false ∧ normalized registration = r := by
  simp only [normalizeRegistration, bind_eq_ok, ensure_eq_ok, pure_eq_ok, exists_const]

/-- A registration as it resumes. -/
def resumed (registration : PoolRegistration) : PoolRegistration :=
  { registration with status := resumeStatus registration.status }

/-! ### Archives in canonical form -/

/-- What capture makes of the registrations, and what load returns: normal forms within the limits, in the order of
    their keys, each key once. -/
structure Canonical (registrations : List PoolRegistration) : Prop where
  count : registrations.length ≤ MAX_REGISTRATIONS
  keys_nodup : (registrations.map (·.key)).Nodup
  sorted : registrations.Pairwise (·.key.rank ≤ ·.key.rank)
  normal : ∀ registration ∈ registrations, normalized registration = registration
  builtIn : ∀ registration ∈ registrations, isCustom registration = false
  limits : ∀ registration ∈ registrations, validateRegistrationLimits registration = .ok ()

namespace Canonical
variable {registrations : List PoolRegistration}

theorem ranks_nodup (h : Canonical registrations) : (registrations.map (·.key.rank)).Nodup := by
  rw [show registrations.map (·.key.rank) = (registrations.map (·.key)).map PoolKey.rank by rw [List.map_map]; rfl]
  exact h.keys_nodup.map PoolKey.rank_injective

/-- The statuses do not take part in the canonical form. -/
theorem resume (h : Canonical registrations) : Canonical (registrations.map resumed) where
  count := by rw [List.length_map]; exact h.count
  keys_nodup := by rw [List.map_map]; exact h.keys_nodup
  sorted := List.pairwise_map.mpr h.sorted
  normal := by
    intro registration hmem
    obtain ⟨origin, horigin, rfl⟩ := List.mem_map.mp hmem
    exact congrArg resumed (h.normal origin horigin)
  builtIn := by
    intro registration hmem
    obtain ⟨origin, horigin, rfl⟩ := List.mem_map.mp hmem
    exact h.builtIn origin horigin
  limits := by
    intro registration hmem
    obtain ⟨origin, horigin, rfl⟩ := List.mem_map.mp hmem
    exact h.limits origin horigin

end Canonical

/-! ### Capture -/

theorem captureOne_eq_ok {snapshot : AdapterRegistrySnapshot} {pool : PoolInstanceId} {registration : PoolRegistration} :
    captureOne snapshot pool = .ok registration ↔
      ∃ origin, snapshot.pool pool = some origin ∧ isCustom origin = false ∧ normalized origin = registration ∧
        validateRegistrationLimits registration = .ok () := by
  simp only [captureOne, bind_eq_ok, orError_eq_ok, normalizeRegistration_eq_ok, pure_eq_ok]
  constructor
  · rintro ⟨origin, horigin, _, ⟨hcustom, rfl⟩, ⟨⟩, hlimits, rfl⟩
    exact ⟨origin, horigin, hcustom, rfl, hlimits⟩
  · rintro ⟨origin, horigin, hcustom, rfl, hlimits⟩
    exact ⟨origin, horigin, _, ⟨hcustom, rfl⟩, (), hlimits, rfl⟩

theorem capture_eq_ok {chainId : Nat} {snapshot : AdapterRegistrySnapshot} {archive : AmmRegistrationArchive} :
    AmmRegistrationArchive.capture chainId snapshot = .ok archive ↔
      snapshot.poolCount ≤ MAX_REGISTRATIONS ∧ ∃ registrations,
        List.Forall₂ (captureOne snapshot · = .ok ·) snapshot.activePools registrations ∧
        ⟨chainId, sortBy (·.key.rank) registrations⟩ = archive := by
  simp only [AmmRegistrationArchive.capture, bind_eq_ok, checkLimit, ensure_eq_ok, mapM_eq_ok, pure_eq_ok, exists_const]

/-- The registrations of the active pools. -/
def registrationsOf (snapshot : AdapterRegistrySnapshot) : List PoolRegistration :=
  snapshot.activePools.filterMap snapshot.pool

theorem pool_key {snapshot : AdapterRegistrySnapshot} {pool : PoolInstanceId} {registration : PoolRegistration}
    (h : snapshot.pool pool = some registration) : registration.key = pool.key := by
  unfold AdapterRegistrySnapshot.pool at h
  split_ifs at h with hactive
  exact AdapterRegistry.key_of_pool h

section
variable {snapshot : AdapterRegistrySnapshot} {pools : List PoolInstanceId} {registrations : List PoolRegistration}

/-- The captured registrations are the normal forms of the registrations of the pools. -/
theorem captured_eq (h : List.Forall₂ (captureOne snapshot · = .ok ·) pools registrations) :
    registrations = (pools.filterMap snapshot.pool).map normalized := by
  induction h with
  | nil => rfl
  | cons hone _ ih =>
    obtain ⟨origin, horigin, -, rfl, -⟩ := captureOne_eq_ok.mp hone
    rw [List.filterMap_cons_some horigin, List.map_cons, ← ih]

theorem captured_keys (h : List.Forall₂ (captureOne snapshot · = .ok ·) pools registrations) :
    registrations.map (·.key) = pools.map (·.key) := by
  induction h with
  | nil => rfl
  | cons hone _ ih =>
    obtain ⟨origin, horigin, -, rfl, -⟩ := captureOne_eq_ok.mp hone
    rw [List.map_cons, List.map_cons, ih]
    exact congrArg (· :: _) (show origin.key = _ from pool_key horigin)

theorem captured_mem (h : List.Forall₂ (captureOne snapshot · = .ok ·) pools registrations) {r : PoolRegistration}
    (hr : r ∈ registrations) : normalized r = r ∧ isCustom r = false ∧ validateRegistrationLimits r = .ok () := by
  induction h with
  | nil => cases hr
  | cons hone _ ih =>
    rcases List.mem_cons.mp hr with rfl | hr
    · obtain ⟨origin, -, hcustom, rfl, hlimits⟩ := captureOne_eq_ok.mp hone
      exact ⟨normalized_idem origin, (isCustom_normalized origin).trans hcustom, hlimits⟩
    · exact ih hr

/-- Pools whose registrations are in canonical form are captured as they are. -/
theorem captured_of (h : ∀ pool ∈ pools, ∃ r ∈ registrations, snapshot.pool pool = some r) (hc : Canonical registrations) :
    List.Forall₂ (captureOne snapshot · = .ok ·) pools (pools.filterMap snapshot.pool) := by
  induction pools with
  | nil => exact .nil
  | cons head rest ih =>
    obtain ⟨⟨r, hr, hpool⟩, hrest⟩ := List.forall_mem_cons.mp h
    rw [List.filterMap_cons_some hpool]
    exact .cons (captureOne_eq_ok.mpr ⟨r, hpool, hc.builtIn r hr, hc.normal r hr, hc.limits r hr⟩) (ih hrest)

end

/-- A captured archive is in canonical form and holds the normal forms of the registrations. -/
theorem capture_canonical {chainId : Nat} {snapshot : AdapterRegistrySnapshot} {archive : AmmRegistrationArchive}
    (h : AmmRegistrationArchive.capture chainId snapshot = .ok archive) :
    archive.chainId = chainId ∧ Canonical archive.registrations ∧
      archive.registrations.Perm ((registrationsOf snapshot).map normalized) := by
  obtain ⟨hcount, registrations, hall, rfl⟩ := capture_eq_ok.mp h
  have hperm := perm_sortBy (fun r : PoolRegistration => r.key.rank) registrations
  refine ⟨rfl, ⟨?_, ?_, pairwise_sortBy _ _, ?_, ?_, ?_⟩, ?_⟩
  · rw [hperm.length_eq, ← hall.length_eq]
    exact hcount
  · rw [(hperm.map _).nodup_iff, captured_keys hall]
    exact snapshot.keys_nodup
  · exact fun r hr => (captured_mem hall (hperm.mem_iff.mp hr)).1
  · exact fun r hr => (captured_mem hall (hperm.mem_iff.mp hr)).2.1
  · exact fun r hr => (captured_mem hall (hperm.mem_iff.mp hr)).2.2
  · exact hperm.trans (.of_eq (captured_eq hall))

/-- A state whose registrations are in canonical form is captured as they stand. -/
theorem capture_of_canonical {registrations : List PoolRegistration} (hc : Canonical registrations) (chainId : Nat)
    {snapshot : AdapterRegistrySnapshot}
    (h : (snapshot.activePools.map snapshot.pool).Perm (registrations.map some)) :
    AmmRegistrationArchive.capture chainId snapshot = .ok ⟨chainId, registrations⟩ := by
  have hpools : ∀ pool ∈ snapshot.activePools, ∃ r ∈ registrations, snapshot.pool pool = some r := fun pool hpool =>
    (List.mem_map.mp (h.mem_iff.mp (List.mem_map_of_mem hpool))).imp fun r hr => ⟨hr.1, hr.2.symm⟩
  have hperm : (snapshot.activePools.filterMap snapshot.pool).Perm registrations := by
    have hmap := h.filterMap id
    rwa [List.filterMap_map, List.filterMap_map, Function.id_comp, Function.id_comp, List.filterMap_some] at hmap
  refine capture_eq_ok.mpr ⟨?_, _, captured_of hpools hc, ?_⟩
  · have hlength := h.length_eq
    rw [List.length_map, List.length_map] at hlength
    exact hlength.trans_le hc.count
  · rw [sortBy_of_perm _ hperm hc.sorted hc.ranks_nodup]

/-! ### Save and load -/

theorem persistedArchive_eq_ok {archive : AmmRegistrationArchive} {persisted : PersistedArchive} :
    persistedArchive archive = .ok persisted ↔
      archive.registrations.length ≤ MAX_REGISTRATIONS ∧
      (∀ r ∈ archive.registrations, validateRegistrationLimits r = .ok ()) ∧ ∃ registrations,
        List.Forall₂ (persistedRegistration · = .ok ·) archive.registrations registrations ∧
        ⟨archive.chainId, registrations⟩ = persisted := by
  simp only [persistedArchive, bind_eq_ok, checkLimit, ensure_eq_ok, forM_eq_ok, mapM_eq_ok, pure_eq_ok, exists_const]

/-- A registration in normal form is loaded as it resumes. -/
theorem loadOne_of {seen : List PoolRegistration} {r : PoolRegistration} {persisted : PersistedRegistration}
    (hpersisted : persistedRegistration r = .ok persisted) (hlimits : validateRegistrationLimits r = .ok ())
    (hnormal : normalized r = r) (hcustom : isCustom r = false) (hnew : r.key ∉ seen.map (·.key)) :
    loadOne seen persisted = .ok (seen ++ [resumed r]) := by
  have hresumed : normalizeRegistration (resumed r) = .ok (resumed r) :=
    normalizeRegistration_eq_ok.mpr ⟨hcustom, congrArg resumed hnormal⟩
  rw [loadOne, restore_persistedRegistration hpersisted hlimits, ok_bind, ensure_bind hnew]
  exact bind_eq_ok.mpr ⟨resumed r, hresumed, rfl⟩

/-- The loop of `load` accepts every registration, since the keys are all different. -/
theorem foldlM_loadOne {registrations : List PoolRegistration} {persisted : List PersistedRegistration}
    (hpersisted : List.Forall₂ (persistedRegistration · = .ok ·) registrations persisted) {seen : List PoolRegistration}
    (hlimits : ∀ r ∈ registrations, validateRegistrationLimits r = .ok ())
    (hnormal : ∀ r ∈ registrations, normalized r = r) (hcustom : ∀ r ∈ registrations, isCustom r = false)
    (hkeys : (seen.map (·.key) ++ registrations.map (·.key)).Nodup) :
    persisted.foldlM loadOne seen = .ok (seen ++ registrations.map resumed) := by
  induction hpersisted generalizing seen with
  | nil => rw [List.map_nil, List.append_nil]; rfl
  | cons hone _ ih =>
    rename_i r _ rest _ _
    simp only [List.forall_mem_cons] at hlimits hnormal hcustom
    have hnew : r.key ∉ seen.map (·.key) := fun hmem =>
      (List.nodup_append.mp hkeys).2.2 _ hmem _ (List.mem_cons_self ..) rfl
    have hnext : ((seen ++ [resumed r]).map (·.key) ++ rest.map (·.key)).Nodup := by
      rw [List.map_append, List.append_assoc]
      exact hkeys
    rw [List.foldlM_cons, loadOne_of hone hlimits.1 hnormal.1 hcustom.1 hnew, ok_bind,
      ih hlimits.2 hnormal.2 hcustom.2 hnext, List.append_assoc]
    rfl

section File
variable {toVec : PersistedArchive → Bytes} {fromSlice : Bytes → Option PersistedArchive} {keccak256 : Bytes → B256}

theorem save_eq_ok {archive : AmmRegistrationArchive} {bytes : Bytes} :
    archive.save toVec keccak256 = .ok bytes ↔ ∃ persisted, persistedArchive archive = .ok persisted ∧
      HEADER_BYTES + (toVec persisted).length ≤ MAX_FILE_BYTES ∧
      MAGIC ++ toLeBytes 4 VERSION ++ toBeBytes 32 (keccak256 (toVec persisted)).toNat ++ toVec persisted = bytes := by
  simp only [AmmRegistrationArchive.save, bind_eq_ok, checkLimit, ensure_eq_ok, pure_eq_ok, exists_const]

/-- The header that `save` writes passes every check of `load`. -/
theorem readPayload_of_header {payload : Bytes} (h : HEADER_BYTES + payload.length ≤ MAX_FILE_BYTES) :
    readPayload keccak256 (MAGIC ++ toLeBytes 4 VERSION ++ toBeBytes 32 (keccak256 payload).toNat ++ payload) =
      .ok payload := by
  have hmagic : MAGIC.length = 8 := rfl
  have hversion : (toLeBytes 4 VERSION).length = 4 := length_toLeBytes 4 VERSION
  have hchecksum := length_toBeBytes 32 (keccak256 payload).toNat
  set file := MAGIC ++ toLeBytes 4 VERSION ++ toBeBytes 32 (keccak256 payload).toNat ++ payload with hfile
  have hlength : file.length = HEADER_BYTES + payload.length := by
    simp only [hfile, List.length_append, hmagic, hversion, hchecksum]
    rfl
  have htake : file.take MAGIC.length = MAGIC := by
    rw [hfile, List.append_assoc, List.append_assoc, List.take_left]
  have hnumber : (file.drop MAGIC.length).take (VERSION_HEADER_BYTES - MAGIC.length) = toLeBytes 4 VERSION := by
    rw [hfile, List.append_assoc, List.append_assoc, List.drop_left]
    exact List.take_left' hversion
  have hsum : (file.drop VERSION_HEADER_BYTES).take (HEADER_BYTES - VERSION_HEADER_BYTES) =
      toBeBytes 32 (keccak256 payload).toNat := by
    rw [hfile, List.append_assoc, List.drop_left' (by rw [List.length_append, hmagic, hversion]; rfl)]
    exact List.take_left' hchecksum
  have hpayload : file.drop HEADER_BYTES = payload := by
    refine List.drop_left' ?_
    rw [List.length_append, List.length_append, hmagic, hversion, hchecksum]
    rfl
  have hvalue : fromBeBytes (toBeBytes 32 (keccak256 payload).toNat) = (keccak256 payload).toNat :=
    fromBeBytes_toBeBytes 32 (keccak256 payload).isLt
  have hnumeral : fromLeBytes (toLeBytes 4 VERSION) = VERSION := by decide
  rw [readPayload, checkLimit, ensure_bind (hlength.trans_le h), ensure_bind (hlength ▸ Nat.le_add_right _ _),
    ensure_bind htake]
  simp only [hnumber, hnumeral, hsum, hvalue, hpayload]
  rw [ensure_bind trivial, ensure_bind trivial]
  rfl

/-- Load reads back what save wrote of an archive in canonical form. -/
theorem load_of_save {archive : AmmRegistrationArchive} {bytes : Bytes} (hc : Canonical archive.registrations)
    (hsave : archive.save toVec keccak256 = .ok bytes)
    (hserde : ∀ persisted, persistedArchive archive = .ok persisted → fromSlice (toVec persisted) = some persisted) :
    AmmRegistrationArchive.load fromSlice keccak256 bytes archive.chainId =
      .ok ⟨archive.chainId, archive.registrations.map resumed⟩ := by
  obtain ⟨persisted, hpersisted, hsize, rfl⟩ := save_eq_ok.mp hsave
  have hdecode := hserde persisted hpersisted
  obtain ⟨hcount, hlimits, registrations, hall, rfl⟩ := persistedArchive_eq_ok.mp hpersisted
  have hfold : registrations.foldlM loadOne [] = .ok ([] ++ archive.registrations.map resumed) :=
    foldlM_loadOne hall hlimits hc.normal hc.builtIn hc.keys_nodup
  rw [AmmRegistrationArchive.load, readPayload_of_header hsize, ok_bind, hdecode, orError, ok_bind, ensure_bind rfl,
    checkLimit, ensure_bind (hall.length_eq ▸ hcount), hfold, ok_bind, List.nil_append,
    sortBy_of_pairwise _ hc.resume.sorted]
  rfl

/-! ### The round trip -/

/-- The key has a persisted form and the metadata does not name another venue. -/
def Persistable (registration : PoolRegistration) : Bool :=
  registration.checkProtocolAgreement &&
    match registration.key with
    | .balancerV3 _ | .erc4626 _ | .uniswapV4 _ | .custom _ => false
    | _ => true

theorem persistedRegistration_of {registration : PoolRegistration} (h : Persistable registration = true)
    (hcustom : isCustom registration = false) : ∃ persisted, persistedRegistration registration = .ok persisted := by
  obtain ⟨key, stateAddresses, eventSources, metadata, status⟩ := registration
  cases key <;> cases metadata <;>
    first
    | exact ⟨_, rfl⟩
    | simp_all [Persistable, PoolRegistration.checkProtocolAgreement, ProtocolMetadata.protocolId, PoolKey.protocol,
        isCustom]

theorem persistable_normalized (registration : PoolRegistration) :
    Persistable (normalized registration) = Persistable registration := by
  rcases registration with ⟨_, _, _, _ | _ | _ | _ | _ | _ | _ | _ | _, _⟩ <;> rfl

/-- A captured archive has a persisted form unless a pool's key has none or its metadata names another venue. -/
theorem persistedArchive_of_canonical {archive : AmmRegistrationArchive} (hc : Canonical archive.registrations)
    (h : ∀ r ∈ archive.registrations, Persistable r = true) : ∃ persisted, persistedArchive archive = .ok persisted := by
  have hall : ∀ r ∈ archive.registrations, ∃ persisted, persistedRegistration r = .ok persisted := fun r hr =>
    persistedRegistration_of (h r hr) (hc.builtIn r hr)
  obtain ⟨registrations, hregistrations⟩ : ∃ registrations,
      List.Forall₂ (persistedRegistration · = .ok ·) archive.registrations registrations := by
    generalize archive.registrations = l at hall
    induction l with
    | nil => exact ⟨[], .nil⟩
    | cons head rest ih =>
      obtain ⟨⟨persisted, hpersisted⟩, hrest⟩ := List.forall_mem_cons.mp hall
      obtain ⟨registrations, hregistrations⟩ := ih hrest
      exact ⟨persisted :: registrations, .cons hpersisted hregistrations⟩
  exact ⟨_, persistedArchive_eq_ok.mpr ⟨hc.count, hc.limits, registrations, hregistrations, rfl⟩⟩

/-- What capture accepts has a persisted form if every key and its metadata are of one supported venue, and what save
    writes of it is loaded: the same registrations in normal form with the statuses they resume with. Any state with the
    loaded registrations is captured as the loaded archive. -/
theorem archive_roundTrip (toVec : PersistedArchive → Bytes) (fromSlice : Bytes → Option PersistedArchive)
    (keccak256 : Bytes → B256) {snapshot : AdapterRegistrySnapshot} {chainId : Nat} {archive : AmmRegistrationArchive}
    (hcapture : AmmRegistrationArchive.capture chainId snapshot = .ok archive)
    (hserde : ∀ persisted, persistedArchive archive = .ok persisted → fromSlice (toVec persisted) = some persisted) :
    ((∀ r ∈ registrationsOf snapshot, Persistable r = true) → ∃ persisted, persistedArchive archive = .ok persisted) ∧
    ∀ bytes, archive.save toVec keccak256 = .ok bytes →
      ∃ loaded, AmmRegistrationArchive.load fromSlice keccak256 bytes chainId = .ok loaded ∧
        loaded.registrations = archive.registrations.map resumed ∧
        loaded.registrations.Perm ((registrationsOf snapshot).map fun r => resumed (normalized r)) ∧
        ∀ again : AdapterRegistrySnapshot, (again.activePools.map again.pool).Perm (loaded.registrations.map some) →
          AmmRegistrationArchive.capture chainId again = .ok loaded := by
  obtain ⟨rfl, hc, hperm⟩ := capture_canonical hcapture
  refine ⟨fun h => persistedArchive_of_canonical hc fun r hr => ?_, fun bytes hsave =>
    ⟨_, load_of_save hc hsave hserde, rfl, ?_, fun again hagain => capture_of_canonical hc.resume _ hagain⟩⟩
  · obtain ⟨origin, horigin, rfl⟩ := List.mem_map.mp (hperm.mem_iff.mp hr)
    exact (persistable_normalized origin).trans (h origin horigin)
  · have hresumed := hperm.map resumed
    rwa [List.map_map] at hresumed

end File

/-! ### A file of two pools -/

/-- A pool that keeps its warmed slots in the order in which they were read. -/
def tiered (topics : List B256) (status : PoolStatus) : PoolRegistration where
  key := .uniswapV3 0x11
  stateAddresses := [0x11]
  eventSources := [⟨0x11, topics, .direct, [], [], []⟩]
  metadata := .uniswapV3 ⟨some 0x22, some 0x33, some 3000, some 60, none, none, some ⟨0, 4, 5, 6, 60⟩, some 8, [4, 0]⟩
  status

/-- A pool with two accounts, both of which it reads and listens to. -/
def stable (stateAddresses : List Address) (sources : List (Address × List B256)) (slots : List U256) :
    PoolRegistration where
  key := .curve 0x44
  stateAddresses
  eventSources := sources.map fun source => ⟨source.1, source.2, .direct, [], [], []⟩
  metadata := .curve ⟨[0x33, 0x22], slots, .cryptoSwapNG, some [96, 0]⟩
  status := .disabled

def poolsSnapshot : AdapterRegistrySnapshot where
  registry := { AdapterRegistry.empty with
    pools := [stable [0x55, 0x44, 0x55] [(0x55, []), (0x44, [0xa])] [7, 3, 7], tiered [0xb, 0xa, 0xb] .ready]
    keys_nodup := by decide }
  activePools := [⟨.uniswapV3 0x11, 2⟩, ⟨.curve 0x44, 0⟩]
  keys_nodup := by decide

/-- The two pools as they are written: in the order of their keys, with their sets in canonical form. -/
def poolsArchive : AmmRegistrationArchive :=
  ⟨1, [tiered [0xa, 0xb] .ready, stable [0x44, 0x55] [(0x44, [0xa]), (0x55, [])] [3, 7]]⟩

def poolsPersisted : PersistedArchive :=
  ⟨1, [⟨.uniswapV3 0x11, [0x11], [⟨0x11, [0xa, 0xb], .direct, [], [], []⟩],
      .uniswapV3 ⟨some 0x22, some 0x33, some 3000, some 60, none, none, some ⟨0, 4, 5, 6, 60⟩, some 8, [4, 0]⟩, .ready⟩,
    ⟨.curve 0x44, [0x44, 0x55], [⟨0x44, [0xa], .direct, [], [], []⟩, ⟨0x55, [], .direct, [], [], []⟩],
      .curve [0x33, 0x22] [3, 7] .cryptoSwapNg (some [96, 0]), .disabled⟩]⟩

/-- A number in so many hexadecimal digits, and the list and the object of some texts, as serde writes them. -/
def hex (digits n : Nat) : List Char := "\"0x".toList ++ (Nat.toDigits 16 n).leftpad digits '0' ++ ['"']

def array (items : List (List Char)) : List Char := ['['] ++ List.intercalate [','] items ++ [']']

def object (fields : List (String × List Char)) : List Char :=
  "\x7b".toList ++ List.intercalate [','] (fields.map fun field => ['"'] ++ field.1.toList ++ ['"', ':'] ++ field.2) ++
    "\x7d".toList

def sourceText (emitter : Nat) (topics : List Nat) : List Char :=
  object [("emitter", hex 40 emitter), ("topics", array (topics.map (hex 64))),
    ("route", object [("kind", "\"direct\"".toList)])]

def tieredText : List Char :=
  object [("protocol", "\"uniswap_v3\"".toList), ("metadata", object [("token0", hex 40 0x22), ("token1", hex 40 0x33),
    ("fee", "3000".toList), ("tick_spacing", "60".toList), ("factory", "null".toList), ("quoter", "null".toList),
    ("storage_layout", object [("slot0_slot", hex 1 0), ("liquidity_slot", hex 1 4), ("ticks_base_slot", hex 1 5),
      ("tick_bitmap_base_slot", hex 1 6), ("tick_spacing", "60".toList)]),
    ("warm_word_radius", "8".toList), ("warmed_slots", array [hex 1 4, hex 1 0])])]

def stableText : List Char :=
  object [("protocol", "\"curve\"".toList), ("coins", array [hex 40 0x33, hex 40 0x22]),
    ("discovered_slots", array [hex 1 3, hex 1 7]), ("variant", "\"crypto_swap_ng\"".toList),
      ("code_seed", "[96,0]".toList)]

def poolsText : List Char :=
  object [("chain_id", ['1']), ("registrations", array
    [object [("key", object [("protocol", "\"uniswap_v3\"".toList), ("address", hex 40 0x11)]),
      ("state_addresses", array [hex 40 0x11]), ("event_sources", array [sourceText 0x11 [0xa, 0xb]]),
      ("metadata", tieredText), ("status", "\"ready\"".toList)],
    object [("key", object [("protocol", "\"curve\"".toList), ("address", hex 40 0x44)]),
      ("state_addresses", array [hex 40 0x44, hex 40 0x55]),
      ("event_sources", array [sourceText 0x44 [0xa], sourceText 0x55 []]),
      ("metadata", stableText), ("status", "\"disabled\"".toList)]])]

def poolsPayload : Bytes := poolsText.map fun c => BitVec.ofNat 8 c.toNat

/-- The checksum of the payload. -/
def poolsChecksum : B256 := 0x8cc9157b9e88b8f9d9ad5da8a3693ac98e875ab962aef8282d5e88173e847369

theorem archive_roundTrip_pools : ∃ loaded bytes,
    AmmRegistrationArchive.capture 1 poolsSnapshot = .ok poolsArchive ∧
    poolsArchive.save (fun _ => poolsPayload) (fun _ => poolsChecksum) = .ok bytes ∧
    AmmRegistrationArchive.load (fun payload => if payload = poolsPayload then some poolsPersisted else none)
      (fun _ => poolsChecksum) bytes 1 = .ok loaded ∧
    loaded.registrations =
      [tiered [0xa, 0xb] .pending, stable [0x44, 0x55] [(0x44, [0xa]), (0x55, [])] [3, 7]] := by
  have hcapture : AmmRegistrationArchive.capture 1 poolsSnapshot = .ok poolsArchive := rfl
  have hpersisted : persistedArchive poolsArchive = .ok poolsPersisted := rfl
  have hlength : poolsText.length ≤ 2000 := by decide +kernel
  have hsize : HEADER_BYTES + poolsPayload.length ≤ MAX_FILE_BYTES := by
    rw [poolsPayload, List.length_map, HEADER_BYTES, MAX_FILE_BYTES]
    omega
  obtain ⟨bytes, hsave⟩ : ∃ bytes, poolsArchive.save (fun _ => poolsPayload) (fun _ => poolsChecksum) = .ok bytes :=
    ⟨_, save_eq_ok.mpr ⟨poolsPersisted, hpersisted, hsize, rfl⟩⟩
  obtain ⟨-, hload⟩ := archive_roundTrip (fun _ => poolsPayload)
    (fun payload => if payload = poolsPayload then some poolsPersisted else none) (fun _ => poolsChecksum) hcapture
    fun persisted h => (if_pos rfl).trans (congrArg some (Except.ok.inj (hpersisted.symm.trans h)))
  obtain ⟨loaded, hloaded, hregistrations, -⟩ := hload bytes hsave
  exact ⟨loaded, bytes, hcapture, hsave, hloaded, hregistrations⟩

end AmmState.Persistence
