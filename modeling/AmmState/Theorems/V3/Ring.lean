import AmmState.Canonical.Oracle
import AmmState.Theorems.V3.Frames

/-! The observation ring of a replayed pool is that of the canonical `Oracle` library, over every run of events: the same
    index and cardinalities, and the same words written at the same positions. -/

namespace AmmState.Canonical
open V3 Checked

/-! ### The library -/

namespace OracleRing
variable (ring : OracleRing)

theorem index_lt_word : ring.index < 2 ^ 16 :=
  ring.index_lt.trans_le (ring.cardinality_le.trans ring.next_lt.le)

theorem indexUpdated_eq : ring.indexUpdated = (ring.index + 1) % ring.cardinalityUpdated := by
  have h₁ := ring.index_lt
  have h₂ := ring.cardinality_le
  have h₃ := ring.next_lt
  rw [indexUpdated, Nat.mod_eq_of_lt (show ring.index + 1 < 2 ^ 16 by omega)]

variable {ring} {time : BitVec 32} {tick : Int} {liquidity : Nat}

theorem write_same (h : ring.last.blockTimestamp = time) : ring.write time tick liquidity = ring := if_pos h

theorem write_observations (h : ring.last.blockTimestamp ≠ time) : (ring.write time tick liquidity).observations =
    Function.update ring.observations ring.indexUpdated (ring.last.transform time tick liquidity) := by
  rw [write, if_neg h]

theorem write_index (h : ring.last.blockTimestamp ≠ time) :
    (ring.write time tick liquidity).index = ring.indexUpdated := by
  rw [write, if_neg h]

theorem write_cardinality (h : ring.last.blockTimestamp ≠ time) :
    (ring.write time tick liquidity).cardinality = ring.cardinalityUpdated := by
  rw [write, if_neg h]

theorem write_cardinalityNext : (ring.write time tick liquidity).cardinalityNext = ring.cardinalityNext := by
  unfold write
  split_ifs <;> rfl

/-- After a write the newest observation is of its time. -/
theorem write_last : (ring.write time tick liquidity).last.blockTimestamp = time := by
  by_cases h : ring.last.blockTimestamp = time
  · rw [write_same h, h]
  · rw [last, write_observations h, write_index h, Function.update_self]
    rfl

variable {next : BitVec 16}

theorem grow_index : (ring.grow next).index = ring.index := by
  unfold grow
  split_ifs <;> rfl

theorem grow_cardinality : (ring.grow next).cardinality = ring.cardinality := by
  unfold grow
  split_ifs <;> rfl

theorem grow_cardinalityNext (h : ring.cardinalityNext < next.toNat) : (ring.grow next).cardinalityNext = next.toNat := by
  rw [grow, dif_neg (by omega)]

theorem grow_observations (i : Nat) : (ring.grow next).observations i =
    if ring.cardinalityNext ≤ i ∧ i < next.toNat then { ring.observations i with blockTimestamp := 1 }
    else ring.observations i := by
  unfold grow
  split_ifs with h₁ h₂ h₂
  · omega
  · rfl
  · exact if_pos h₂
  · exact if_neg h₂

/-- Growth leaves the newest observation, which is in use. -/
theorem grow_last : (ring.grow next).last = ring.last := by
  have h₁ := ring.index_lt
  have h₂ := ring.cardinality_le
  rw [last, grow_index, grow_observations, if_neg (by omega), last]

variable {call : OracleCall}

/-- A call changes the entries that it stores and no other. -/
theorem apply_observations (i : Nat) :
    (ring.apply call).observations i = (ring.stored call i).getD (ring.observations i) := by
  cases call with
  | write time tick liquidity =>
    by_cases h : ring.last.blockTimestamp = time
    · simp only [apply, write_same h, stored, h, ne_eq, not_true_eq_false, false_and, if_false, Option.getD_none]
    · simp only [apply, write_observations h, stored, ne_eq, h, not_false_eq_true, true_and, Function.update_apply]
      split_ifs <;> rfl
  | grow next =>
    simp only [apply, grow_observations, stored]
    split_ifs <;> rfl

/-- The cardinality grows to its reservation only from the last index. -/
theorem apply_cardinality : (ring.apply call).cardinality = ring.cardinality ∨
    ring.index + 1 = ring.cardinality ∧ (ring.apply call).cardinality = ring.cardinalityNext := by
  have hlt := ring.index_lt
  cases call with
  | write time tick liquidity =>
    by_cases h : ring.last.blockTimestamp = time
    · exact .inl (by rw [apply, write_same h])
    · rw [apply, write_cardinality h, cardinalityUpdated]
      split_ifs with hgrow
      · exact .inr ⟨by omega, rfl⟩
      · exact .inl rfl
  | grow next => exact .inl grow_cardinality

/-- A live entry is overwritten by an observation whose turn it is, and by nothing else. -/
theorem stored_of_live {i : Nat} {o : OracleEntry} (h : ring.stored call i = some o)
    (hlive : (ring.observations i).initialized = true) :
    ∃ time tick liquidity, call = .write time tick liquidity ∧ ring.last.blockTimestamp ≠ time ∧
      i = (ring.index + 1) % (ring.apply call).cardinality := by
  cases call with
  | write time tick liquidity =>
    simp only [stored] at h
    split_ifs at h with hc
    refine ⟨time, tick, liquidity, rfl, hc.1, ?_⟩
    rw [apply, write_cardinality hc.1, hc.2, indexUpdated_eq]
  | grow next =>
    simp only [stored] at h
    split_ifs at h with hc
    rw [ring.unreserved i hc.1] at hlive
    cases hlive

end OracleRing

/-- Neighbours that are in order and differ make a strict order. -/
theorem pairwise_lt_of_isChain {α : Type} [PartialOrder α] {l : List α} (hle : l.Pairwise (· ≤ ·))
    (hne : l.IsChain (· ≠ ·)) : l.Pairwise (· < ·) := by
  refine List.isChain_iff_pairwise.mp ?_
  induction l with
  | nil => exact List.isChain_nil
  | cons a l ih =>
    cases l with
    | nil => exact List.isChain_singleton _
    | cons b l =>
      obtain ⟨hab, hne⟩ := List.isChain_cons_cons.mp hne
      obtain ⟨ha, hle⟩ := List.pairwise_cons.mp hle
      exact List.isChain_cons_cons.mpr ⟨lt_of_le_of_ne (ha b List.mem_cons_self) hab, ih hle hne⟩

namespace OraclePool
variable {pool pool' : OraclePool} {event : PoolEvent × BitVec 32} {events : List (PoolEvent × BitVec 32)}

theorem step_eq_some (h : pool.step event = some pool') : pool'.ring = pool.ringAfter event.1 event.2 ∧
    pool'.tick = pool.tickAfter event.1 ∧ pool.liquidityAfter event.1 = some pool'.liquidity := by
  obtain ⟨liquidity, hl, rfl⟩ := Option.map_eq_some_iff.mp h
  exact ⟨rfl, rfl, hl⟩

theorem ringAfter_observations {event : PoolEvent} {time : BitVec 32} (i : Nat) :
    (pool.ringAfter event time).observations i = (pool.stored event time i).getD (pool.ring.observations i) := by
  unfold ringAfter stored
  cases pool.call event time with
  | none => rfl
  | some call => exact OracleRing.apply_observations i

/-- An observation is of the event's time. -/
theorem call_time {event : PoolEvent} {time time' : BitVec 32} {tick : Int} {liquidity : Nat}
    (h : pool.call event time = some (.write time' tick liquidity)) : time = time' := by
  unfold call at h
  split at h
  · split_ifs at h
    cases h
    rfl
  · split_ifs at h
    cases h
    rfl
  all_goals cases h

/-- An event that records an observation leaves it as the newest; no other event touches the newest one. -/
theorem ringAfter_last : (pool.ringAfter event.1 event.2).last.blockTimestamp =
    if pool.observes event.1 event.2 then event.2 else pool.ring.last.blockTimestamp := by
  unfold ringAfter observes
  cases hcall : pool.call event.1 event.2 with
  | none => rfl
  | some call =>
    cases call with
    | grow next => exact congrArg OracleEntry.blockTimestamp OracleRing.grow_last
    | write time tick liquidity =>
      obtain rfl := call_time hcall
      simp only [OracleRing.apply, OracleRing.write_last, decide_eq_true_eq]
      split_ifs with h
      · rfl
      · exact (not_not.mp h).symm

theorem observedTimes_cons (hstep : pool.step event = some pool') : pool.observedTimes (event :: events) =
    (if pool.observes event.1 event.2 then [event.2] else []) ++ pool'.observedTimes events := by
  rw [observedTimes, hstep]

theorem observes_ne (h : pool.observes event.1 event.2 = true) : pool.ring.last.blockTimestamp ≠ event.2 := by
  unfold observes at h
  split at h
  · exact of_decide_eq_true h
  · cases h

/-- Two observations in a row are of different times, the first of a run and the newest before it too. -/
theorem observedTimes_isChain (pool : OraclePool) (events : List (PoolEvent × BitVec 32)) :
    (pool.ring.last.blockTimestamp :: pool.observedTimes events).IsChain (· ≠ ·) := by
  induction events generalizing pool with
  | nil => exact List.isChain_singleton _
  | cons event events ih =>
    cases hstep : pool.step event with
    | none =>
      rw [observedTimes, hstep]
      split_ifs with h
      · exact List.isChain_pair.mpr (observes_ne h)
      · exact List.isChain_singleton _
    | some pool' =>
      have htail := ih pool'
      rw [(step_eq_some hstep).1, ringAfter_last] at htail
      rw [observedTimes_cons hstep]
      split_ifs at htail ⊢ with h
      · exact List.isChain_cons_cons.mpr ⟨observes_ne h, htail⟩
      · exact htail

theorem observedTimes_sublist (pool : OraclePool) (events : List (PoolEvent × BitVec 32)) :
    (pool.observedTimes events).Sublist (events.map (·.2)) := by
  induction events generalizing pool with
  | nil => exact List.Sublist.refl _
  | cons event events ih =>
    rw [observedTimes, List.map_cons]
    cases pool.step event with
    | none =>
      split_ifs
      · exact (List.nil_sublist _).cons_cons _
      · exact List.nil_sublist _
    | some pool' =>
      split_ifs
      · exact (ih pool').cons_cons _
      · exact (ih pool').cons _

/-- Where time does not run backwards, no two observations of a run are of the same time. -/
theorem observedTimes_strict (pool : OraclePool) {events : List (PoolEvent × BitVec 32)}
    (h : (events.map (·.2.toNat)).Pairwise (· ≤ ·)) : ((pool.observedTimes events).map (·.toNat)).Pairwise (· < ·) := by
  have hsub := (observedTimes_sublist pool events).map BitVec.toNat
  rw [List.map_map] at hsub
  refine pairwise_lt_of_isChain (h.sublist hsub) ((List.isChain_map _).mpr ?_)
  exact (observedTimes_isChain pool events).tail.imp fun _ _ hab heq => hab (BitVec.eq_of_toNat_eq heq)

end OraclePool

/-! ### Words of the ring -/

theorem OracleEntry.decode_word (o : OracleEntry) : OracleEntry.ofObservation (Observation.decode o.word) = o := by
  have hflag : (Observation.decode o.word).initialized = o.initialized := by
    have hget : Packed.get o.word 248 1 = BitVec.ofNat 1 o.initialized.toNat := by
      refine BitVec.eq_of_getLsbD_eq fun i hi => ?_
      obtain rfl : i = 0 := by omega
      rw [Packed.getLsbD_get (by omega), OracleEntry.word, Packed.getLsbD_set (by omega), if_pos (by omega)]
      cases o.initialized <;> rfl
    show decide ((Packed.get o.word 248 1).toNat ≠ 0) = o.initialized
    rw [hget]
    cases o.initialized <;> rfl
  rw [ofObservation_decode, hflag]
  unfold OracleEntry.word
  simp only []
  rw [Packed.get_set_of_disjoint (by omega), Packed.get_set_of_disjoint (by omega), Packed.get_set_of_disjoint (by omega),
    Packed.get_set_self (by omega), Packed.get_set_of_disjoint (by omega), Packed.get_set_of_disjoint (by omega),
    Packed.get_set_self (by omega), Packed.get_set_of_disjoint (by omega), Packed.get_set_self (by omega)]

theorem encode_eq_word (o : Observation) : o.encode = (OracleEntry.ofObservation o).word := rfl

theorem observationSlot_inj {i j : Nat} (hi : i < 2 ^ 16) (hj : j < 2 ^ 16) (h : observationSlot i = observationSlot j) :
    i = j := by
  rw [observationSlot_eq, observationSlot_eq] at h
  have h := congrArg BitVec.toNat h
  rw [BitVec.toNat_ofNat, BitVec.toNat_ofNat, Nat.mod_eq_of_lt (by omega), Nat.mod_eq_of_lt (by omega)] at h
  omega

/-! ### Views of a pool -/

/-- What `slot0` records of a pool and its ring. -/
structure Records (raw : U256) (pool : OraclePool) : Prop where
  index : field raw 184 16 = pool.ring.index
  cardinality : field raw 200 16 = pool.ring.cardinality
  cardinalityNext : field raw 216 16 = pool.ring.cardinalityNext
  tick : signedField raw 160 24 = pool.tick

/-- Every cell that the view holds of `slot0`, the liquidity and the ring is that of the pool. -/
structure Tracks (state : StateView) (address : Address) (pool : OraclePool) : Prop where
  slot0 : ∀ raw, state.storage address 0 = some raw → Records raw pool
  liquidity : ∀ word, state.storage address 4 = some word → word.toNat = pool.liquidity
  observations : ∀ i < 2 ^ 16, ∀ word, state.storage address (observationSlot i) = some word →
    (pool.ring.observations i).word = word

section
variable {keccak : Keccak} {state : StateView} {address : Address} {pool : OraclePool} {oracle : OracleAdvance}
  {raw word : U256} {t : Nat}

/-- The cells of an oracle advance are those of a write of the library. -/
structure AdvanceOf (ring ring' : OracleRing) (stored : Nat → Option OracleEntry) (oracle : OracleAdvance) : Prop where
  index : oracle.observationIndex = ring'.index
  cardinality : oracle.observationCardinality = ring'.cardinality
  next : ring'.cardinalityNext = ring.cardinalityNext
  write : ∀ i < 2 ^ 16, ∀ v, oracle.write = some (observationSlot i, v) ↔ ∃ o, stored i = some o ∧ o.word = v
  slot : ∀ w ∈ oracle.write, ∃ i < 2 ^ 16, w.1 = observationSlot i
  same : oracle.write = none → ring' = ring

theorem advanceOracle_write (h : Tracks state address pool) (hraw : state.storage address 0 = some raw)
    (hword : state.storage address 4 = some word) (hlt : word.toNat < 2 ^ 128) (ht : t < 2 ^ 32)
    (hok : advanceOracle address UNISWAP_V3_SURFACE (Slot0.decode raw) word.toNat state t = .ok oracle) :
    AdvanceOf pool.ring (pool.ring.write (BitVec.ofNat 32 t) pool.tick pool.liquidity)
      (pool.ring.stored (.write (BitVec.ofNat 32 t) pool.tick pool.liquidity)) oracle := by
  obtain ⟨hindex, hcard, hnext, htick⟩ := h.slot0 raw hraw
  have hliquidity := h.liquidity word hword
  obtain ⟨_, -, hok⟩ := bind_eq_ok.mp hok
  obtain ⟨_, -, hok⟩ := bind_eq_ok.mp hok
  obtain ⟨_, -, hok⟩ := bind_eq_ok.mp hok
  obtain ⟨cell, hcell, hok⟩ := bind_eq_ok.mp hok
  obtain ⟨_, -, hok⟩ := bind_eq_ok.mp hok
  simp only [Slot0.decode, hindex, hcard, hnext, htick, hliquidity] at hcell hok
  rw [hliquidity] at hlt
  have hlast : pool.ring.last.word = cell := h.observations _ pool.ring.index_lt_word _ (required_eq_ok.mp hcell)
  have hts : (Observation.decode cell).timestamp = t ↔ pool.ring.last.blockTimestamp = BitVec.ofNat 32 t := by
    have hstamp : BitVec.ofNat 32 (Observation.decode cell).timestamp = pool.ring.last.blockTimestamp := by
      rw [← hlast]
      exact congrArg OracleEntry.blockTimestamp (OracleEntry.decode_word _)
    rw [← hstamp]
    constructor
    · rintro rfl
      rfl
    · intro heq
      have heq := congrArg BitVec.toNat heq
      have hlt : (Observation.decode cell).timestamp < 2 ^ 32 := field_lt _ _ _
      rwa [BitVec.toNat_ofNat, BitVec.toNat_ofNat, Nat.mod_eq_of_lt hlt, Nat.mod_eq_of_lt ht] at heq
  have hnow : ((Observation.decode cell).transform t pool.tick pool.liquidity).encode =
      (pool.ring.last.transform (BitVec.ofNat 32 t) pool.tick pool.liquidity).word := by
    have heq : OracleEntry.ofObservation ((Observation.decode cell).transform t pool.tick pool.liquidity) = _ :=
      transform_eq ht (field_lt _ _ _) (field_lt _ _ _) hlt
    rw [encode_eq_word, heq, ← hlast, OracleEntry.decode_word]
  rw [hnow] at hok
  by_cases hsame : pool.ring.last.blockTimestamp = BitVec.ofNat 32 t
  · rw [if_pos (hts.mpr hsame)] at hok
    obtain rfl := pure_eq_ok.mp hok
    rw [OracleRing.write_same hsame]
    refine ⟨rfl, rfl, rfl, fun i _ v => ?_, fun _ hw => (by cases hw), fun _ => rfl⟩
    simp [OracleRing.stored, hsame]
  · rw [if_neg fun hc => hsame (hts.mp hc)] at hok
    obtain rfl := pure_eq_ok.mp hok
    have hslot : (pool.ring.index + 1) % pool.ring.cardinalityUpdated = pool.ring.indexUpdated :=
      pool.ring.indexUpdated_eq.symm
    have hlt' : pool.ring.indexUpdated < 2 ^ 16 :=
      (pool.ring.indexUpdated_lt.trans_le pool.ring.cardinalityUpdated_le).trans pool.ring.next_lt
    set now := pool.ring.last.transform (BitVec.ofNat 32 t) pool.tick pool.liquidity
    have hwrite : some (UNISWAP_V3_SURFACE.observationsBaseSlot + BitVec.ofNat 256 ((pool.ring.index + 1) %
        pool.ring.cardinalityUpdated), now.word) = some (observationSlot pool.ring.indexUpdated, now.word) := by
      rw [hslot]
      rfl
    refine ⟨?_, ?_, OracleRing.write_cardinalityNext, fun i hi v => ?_, fun w hw => ?_, fun hnone => by cases hnone⟩
    · rw [OracleRing.write_index hsame]
      exact hslot
    · exact (OracleRing.write_cardinality hsame).symm
    · refine (Eq.congr_left hwrite).trans ?_
      simp only [OracleRing.stored, ne_eq, hsame, not_false_eq_true, true_and, Option.some.injEq, Prod.mk.injEq]
      constructor
      · rintro ⟨heq, rfl⟩
        exact ⟨now, if_pos (observationSlot_inj hi hlt' heq.symm), rfl⟩
      · rintro ⟨o, ho, rfl⟩
        split_ifs at ho with hi'
        obtain rfl := Option.some.inj ho
        rw [hi']
        exact ⟨rfl, rfl⟩
    · obtain rfl := Option.some.inj (hwrite.symm.trans hw)
      exact ⟨_, hlt', rfl⟩

/-! ### Batches -/

/-- What a batch writes of a pool's `slot0`, liquidity and ring. -/
structure BatchOf (address : Address) (us : List StateUpdate) (pool pool' : OraclePool)
    (stored : Nat → Option OracleEntry) : Prop where
  slot0 : ∀ v, ⟨address, 0, v⟩ ∈ us → Records v pool'
  slot0_kept : (∀ v, ⟨address, 0, v⟩ ∉ us) → ∀ raw, Records raw pool → Records raw pool'
  liquidity : ∀ v, ⟨address, 4, v⟩ ∈ us → v.toNat = pool'.liquidity
  liquidity_kept : (∀ v, ⟨address, 4, v⟩ ∉ us) → pool'.liquidity = pool.liquidity
  ring : ∀ i < 2 ^ 16, ∀ v, ⟨address, observationSlot i, v⟩ ∈ us ↔ ∃ o, stored i = some o ∧ o.word = v
  observations : ∀ i, pool'.ring.observations i = (stored i).getD (pool.ring.observations i)

/-- A view that tracks the pool before the batch tracks it after. -/
theorem Tracks.of_batch {us : List StateUpdate} {cold : List U256} {pool' : OraclePool} {stored : Nat → Option OracleEntry}
    (h : Tracks state address pool) (hb : BatchOf address us pool pool' stored) :
    Tracks ((state.applyUpdates us).purge address cold) address pool' := by
  have hheld : ∀ slot v, ((state.applyUpdates us).purge address cold).storage address slot = some v →
      ⟨address, slot, v⟩ ∈ us ∨ state.storage address slot = some v ∧ ∀ w, ⟨address, slot, w⟩ ∉ us := by
    intro slot v hv
    rcases storage_applyUpdates (storage_purge hv).1 with hmem | ⟨hstate, hrest⟩
    · exact .inl hmem
    · exact .inr ⟨hstate, fun w hw => hrest _ hw rfl rfl⟩
  refine ⟨fun raw hraw => ?_, fun word hword => ?_, fun i hi word hword => ?_⟩
  · rcases hheld 0 raw hraw with hmem | ⟨hstate, hnone⟩
    · exact hb.slot0 raw hmem
    · exact hb.slot0_kept hnone raw (h.slot0 raw hstate)
  · rcases hheld 4 word hword with hmem | ⟨hstate, hnone⟩
    · exact hb.liquidity word hmem
    · rw [hb.liquidity_kept hnone]
      exact h.liquidity word hstate
  · rcases hheld _ word hword with hmem | ⟨hstate, hnone⟩
    · obtain ⟨o, ho, rfl⟩ := (hb.ring i hi word).mp hmem
      rw [hb.observations, ho, Option.getD_some]
    · have hstored : stored i = none := by
        refine Option.eq_none_iff_forall_ne_some.mpr fun o ho => ?_
        exact hnone _ ((hb.ring i hi o.word).mpr ⟨o, ho, rfl⟩)
      rw [hb.observations, hstored, Option.getD_none]
      exact h.observations i hi word hstate

/-- A batch that names none of the cells. -/
theorem BatchOf.untouched {us : List StateUpdate}
    (hus : ∀ u ∈ us, u.slot ≠ 0 ∧ u.slot ≠ 4 ∧ ∀ i < 2 ^ 16, u.slot ≠ observationSlot i) :
    BatchOf address us pool pool fun _ => none :=
  ⟨fun _ hv => absurd rfl (hus _ hv).1, fun _ _ h => h, fun _ hv => absurd rfl (hus _ hv).2.1, fun _ => rfl,
    fun i hi _ => ⟨fun hv => absurd rfl ((hus _ hv).2.2 i hi), nofun⟩, fun _ => rfl⟩

/-- The fees of a pool are none of the cells. -/
theorem BatchOf.accounting {us : List StateUpdate} (hus : ∀ u ∈ us, u.slot = 1 ∨ u.slot = 2 ∨ u.slot = 3) :
    BatchOf address us pool pool fun _ => none := by
  refine .untouched fun u hu => ?_
  rcases hus u hu with h | h | h
  · rw [h]
    exact ⟨by decide, by decide, fun i hi => (observationSlot_ne (n := 1) hi (by decide)).symm⟩
  · rw [h]
    exact ⟨by decide, by decide, fun i hi => (observationSlot_ne (n := 2) hi (by decide)).symm⟩
  · rw [h]
    exact ⟨by decide, by decide, fun i hi => (observationSlot_ne (n := 3) hi (by decide)).symm⟩

theorem Records.setFeeProtocol (h : Records raw pool) (v : BitVec 8) : Records (Packed.set raw 232 v) pool := by
  refine ⟨?_, ?_, ?_, ?_⟩
  · rw [← h.index, field, Packed.get_set_of_disjoint (by omega), field]
  · rw [← h.cardinality, field, Packed.get_set_of_disjoint (by omega), field]
  · rw [← h.cardinalityNext, field, Packed.get_set_of_disjoint (by omega), field]
  · rw [← h.tick, signedField, Packed.get_set_of_disjoint (by omega), signedField]

theorem BatchOf.setFeeProtocol (h : Records raw pool) (v : BitVec 8) :
    BatchOf address [⟨address, 0, Packed.set raw 232 v⟩] pool pool fun _ => none := by
  have hslot : ∀ slot w, (⟨address, slot, w⟩ : StateUpdate) ∈ [(⟨address, 0, Packed.set raw 232 v⟩ : StateUpdate)] →
      slot = 0 ∧ w = Packed.set raw 232 v := by
    intro slot w hw
    have heq := List.mem_singleton.mp hw
    simpa using heq
  refine ⟨fun w hw => ?_, fun _ _ h => h, fun w hw => ?_, fun _ => rfl, fun i hi w => ⟨fun hw => ?_, nofun⟩, fun _ => rfl⟩
  · rw [(hslot 0 w hw).2]
    exact h.setFeeProtocol v
  · exact absurd (hslot 4 w hw).1 (by decide)
  · exact absurd (hslot _ w hw).1 (observationSlot_ne (n := 0) hi (by decide))

/-! ### Growth -/

theorem Records.grow {next : BitVec 16} (h : Records raw pool) (hlt : pool.ring.cardinalityNext < next.toNat) :
    Records (Packed.set raw 216 next) { pool with ring := pool.ring.grow next } := by
  refine ⟨?_, ?_, ?_, ?_⟩
  · rw [OracleRing.grow_index, ← h.index, field, Packed.get_set_of_disjoint (by omega), field]
  · rw [OracleRing.grow_cardinality, ← h.cardinality, field, Packed.get_set_of_disjoint (by omega), field]
  · rw [OracleRing.grow_cardinalityNext hlt, field, Packed.get_set_self (by omega)]
  · rw [← h.tick, signedField, Packed.get_set_of_disjoint (by omega), signedField]

/-- The word that growth leaves in an entry that was never written. -/
theorem grown_word : OracleEntry.word { OracleEntry.empty with blockTimestamp := 1 } = 1 := by decide

/-- Growth stamps the words of its entries and records the reservation. -/
theorem BatchOf.growth {next : BitVec 16} (h : Records raw pool) (hlt : pool.ring.cardinalityNext < next.toNat) :
    BatchOf address (growthWrites address pool.ring.cardinalityNext next.toNat ++ [⟨address, 0, Packed.set raw 216 next⟩])
      pool { pool with ring := pool.ring.grow next } (pool.ring.stored (.grow next)) := by
  have hnext := next.isLt
  have hwrites : ∀ {slot w}, (⟨address, slot, w⟩ : StateUpdate) ∈
      growthWrites address pool.ring.cardinalityNext next.toNat →
      ∃ i, pool.ring.cardinalityNext ≤ i ∧ i < next.toNat ∧ slot = observationSlot i ∧ w = 1 := by
    intro slot w hw
    obtain ⟨i, hi, heq⟩ := List.mem_map.mp hw
    have hi := List.mem_range.mp hi
    simp only [StateUpdate.mk.injEq, true_and] at heq
    obtain ⟨rfl, rfl⟩ := heq
    exact ⟨pool.ring.cardinalityNext + i, by omega, by omega, rfl, rfl⟩
  refine ⟨fun v hv => ?_, fun hnone => ?_, fun v hv => ?_, fun _ => rfl, fun i hi v => ?_,
    fun i => (show (pool.ring.apply (.grow next)).observations i = _ from OracleRing.apply_observations i)⟩
  · rcases List.mem_append.mp hv with hv | hv
    · obtain ⟨i, -, hi, hslot, -⟩ := hwrites hv
      exact absurd hslot.symm (observationSlot_ne (n := 0) (by omega) (by decide))
    · have heq := List.mem_singleton.mp hv
      simp only [StateUpdate.mk.injEq, true_and] at heq
      rw [heq]
      exact h.grow hlt
  · exact absurd (List.mem_append_right _ List.mem_cons_self) (hnone _)
  · rcases List.mem_append.mp hv with hv | hv
    · obtain ⟨i, -, hi, hslot, -⟩ := hwrites hv
      exact absurd hslot.symm (observationSlot_ne (n := 4) (by omega) (by decide))
    · have heq := List.mem_singleton.mp hv
      simp at heq
  · constructor
    · intro hv
      rcases List.mem_append.mp hv with hv | hv
      · obtain ⟨j, hj, hj', hslot, rfl⟩ := hwrites hv
        obtain rfl := observationSlot_inj hi (by omega) hslot
        refine ⟨_, if_pos ⟨hj, hj'⟩, ?_⟩
        rw [pool.ring.unreserved i hj]
        exact grown_word
      · have heq := List.mem_singleton.mp hv
        simp only [StateUpdate.mk.injEq, true_and] at heq
        exact absurd heq.1 (observationSlot_ne (n := 0) hi (by decide))
    · rintro ⟨o, ho, rfl⟩
      simp only [OracleRing.stored] at ho
      split_ifs at ho with hi'
      obtain rfl := Option.some.inj ho
      refine List.mem_append_left _ (List.mem_map.mpr ⟨i - pool.ring.cardinalityNext, List.mem_range.mpr (by omega), ?_⟩)
      rw [Nat.add_sub_cancel' hi'.1, pool.ring.unreserved i hi'.1, grown_word]
      rfl

/-! ### Observations -/

theorem Records.encodeFinal (h : Records raw pool) {ring : OracleRing} (hindex : oracle.observationIndex = ring.index)
    (hcard : oracle.observationCardinality = ring.cardinality) (hnext : ring.cardinalityNext = pool.ring.cardinalityNext)
    {price : Nat} {tick : Int} (htick : MIN_TICK ≤ tick ∧ tick ≤ MAX_TICK) (liquidity : Nat) :
    Records ((Slot0.decode raw).encodeFinal price tick oracle.observationIndex oracle.observationCardinality)
      ⟨ring, tick, liquidity⟩ := by
  have hlt := ring.index_lt_word
  have hlt' : ring.cardinality < 2 ^ 16 := ring.cardinality_le.trans_lt ring.next_lt
  refine ⟨?_, ?_, ?_, encodeFinal_tick htick⟩
  · rw [hindex, encodeFinal_index hlt]
  · rw [hcard, encodeFinal_cardinality hlt']
  · rw [encodeFinal_rest (by omega), h.cardinalityNext, hnext]

/-- The oracle of a swap is that of its call, if it makes one. -/
theorem swapOracle_write (h : Tracks state address pool) (hraw : state.storage address 0 = some raw)
    (hword : state.storage address 4 = some word) (hlt : word.toNat < 2 ^ 128) (ht : t < 2 ^ 32) {swap : DecodedSwap}
    (hok : swapOracle address (Slot0.decode raw) word.toNat state t swap.tick = .ok oracle) :
    AdvanceOf pool.ring (pool.ringAfter (.swap swap) (BitVec.ofNat 32 t)) (pool.stored (.swap swap) (BitVec.ofNat 32 t))
      oracle := by
  have htick : (Slot0.decode raw).tick = pool.tick := (h.slot0 raw hraw).tick
  unfold swapOracle at hok
  unfold OraclePool.ringAfter OraclePool.stored OraclePool.call
  by_cases hmoves : pool.tick ≠ swap.tick
  · rw [if_pos (by rwa [htick])] at hok
    simp only [if_pos hmoves]
    exact advanceOracle_write h hraw hword hlt ht hok
  · rw [if_neg (by rwa [htick])] at hok
    simp only [if_neg hmoves]
    obtain rfl := Except.ok.inj hok
    exact ⟨(h.slot0 raw hraw).index, (h.slot0 raw hraw).cardinality, rfl, fun i _ v => ⟨nofun, nofun⟩, nofun, fun _ => rfl⟩

theorem BatchOf.swap (hk : DistinctKeys keccak) (h : Tracks state address pool) {swap : DecodedSwap}
    {context : AdapterEventContext} {us : List StateUpdate} (f : SwapFrame keccak address state swap context us) :
    BatchOf address us pool
      ⟨pool.ringAfter (.swap swap) (BitVec.ofNat 32 f.timestamp), swap.tick, swap.liquidity⟩
      (pool.stored (.swap swap) (BitVec.ofNat 32 f.timestamp)) := by
  have hadvance := swapOracle_write h f.slot0 f.liquidity f.liquidity_lt (validateContext_lt f.context_ok) f.advance
  have hrecords := h.slot0 f.raw f.slot0
  have hfinal := f.final_lt
  have hmem := fun {n : Nat} {v : U256} => f.mem_fixed hk (n := n) (v := v)
  have hring : ∀ n < 8, ∀ v, f.oracle.write ≠ some (BitVec.ofNat 256 n, v) := by
    intro n hn v hw
    obtain ⟨i, hi, hslot⟩ := hadvance.slot _ hw
    exact observationSlot_ne hi hn hslot.symm
  refine ⟨fun v hv => ?_, fun hnone => ?_, fun v hv => ?_, fun hnone => ?_, fun i hi v => ?_, fun i => ?_⟩
  · rcases (hmem (n := 0) (by decide)).mp hv with hv | hv
    · simp only [SwapFrame.fixed, List.mem_cons, StateUpdate.mk.injEq, List.not_mem_nil, or_false, true_and] at hv
      rcases hv with ⟨-, rfl⟩ | ⟨heq, -⟩ | ⟨heq, -⟩ | ⟨heq, -⟩ | ⟨heq, -⟩
      · exact hrecords.encodeFinal hadvance.index hadvance.cardinality hadvance.next f.tick_range _
      all_goals exact absurd heq (by decide)
    · exact absurd hv (hring 0 (by decide) v)
  · exact absurd ((hmem (by decide)).mpr (.inl List.mem_cons_self)) (hnone _)
  · rcases (hmem (n := 4) (by decide)).mp hv with hv | hv
    · simp only [SwapFrame.fixed, List.mem_cons, StateUpdate.mk.injEq, List.not_mem_nil, or_false, true_and] at hv
      rcases hv with ⟨heq, -⟩ | ⟨heq, -⟩ | ⟨heq, -⟩ | ⟨heq, -⟩ | ⟨-, rfl⟩
      · exact absurd heq (by decide)
      · exact absurd heq (by decide)
      · exact absurd heq (by decide)
      · exact absurd heq (by decide)
      · rw [BitVec.toNat_ofNat, Nat.mod_eq_of_lt (by omega)]
    · exact absurd hv (hring 4 (by decide) v)
  · exact absurd ((hmem (by decide)).mpr (.inl (by simp [SwapFrame.fixed]))) (hnone (BitVec.ofNat 256 swap.liquidity))
  · rw [observationSlot_eq, hmem (by omega), ← observationSlot_eq, ← hadvance.write i hi v]
    refine or_iff_right fun hv => ?_
    simp only [SwapFrame.fixed, List.mem_cons, StateUpdate.mk.injEq, List.not_mem_nil, or_false, true_and] at hv
    rcases hv with ⟨heq, -⟩ | ⟨heq, -⟩ | ⟨heq, -⟩ | ⟨heq, -⟩ | ⟨heq, -⟩
    · exact observationSlot_ne (n := 0) hi (by decide) heq
    · exact observationSlot_ne (n := 1) hi (by decide) heq
    · exact observationSlot_ne (n := 2) hi (by decide) heq
    · exact observationSlot_ne (n := 3) hi (by decide) heq
    · exact observationSlot_ne (n := 4) hi (by decide) heq
  · exact OraclePool.ringAfter_observations i

/-- The active cells of a change in range, with the observation it records. -/
theorem BatchOf.activeWrites (h : Records raw pool) {parent : LiquidityParent} {call : OracleCall}
    (hwrite : AdvanceOf pool.ring (pool.ring.apply call) (pool.ring.stored call) parent.oracle)
    (hslot0 : parent.slot0 = Slot0.decode raw) (hprice : PriceInTick fun _ => raw) (htick : parent.slot0.tick = pool.tick)
    {n : Nat} (hn : n < 2 ^ 128) :
    BatchOf address (activeWrites address parent n) pool ⟨pool.ring.apply call, pool.tick, n⟩ (pool.ring.stored call) := by
  have hlow : (BitVec.ofNat 256 n).toNat = n := by rw [BitVec.toNat_ofNat, Nat.mod_eq_of_lt (by omega)]
  have hrecords : Records (parent.slot0.encodeFinal parent.slot0.sqrtPriceX96 parent.slot0.tick
      parent.oracle.observationIndex parent.oracle.observationCardinality) ⟨pool.ring.apply call, pool.tick, n⟩ := by
    have htick' : MIN_TICK ≤ pool.tick ∧ pool.tick ≤ MAX_TICK := by
      rw [← h.tick]
      exact ⟨hprice.tick_ge, hprice.tick_lt.le⟩
    rw [htick, hslot0]
    exact h.encodeFinal hwrite.index hwrite.cardinality hwrite.next htick' n
  unfold AmmState.Canonical.activeWrites
  cases hw : parent.oracle.write with
  | none =>
    have hsame := hwrite.same hw
    rw [List.nil_append]
    refine ⟨fun v hv => ?_, fun _ raw hraw => ?_, fun v hv => ?_, fun hnone => ?_, fun i hi v => ?_,
      OracleRing.apply_observations⟩
    · simp at hv
    · rw [hsame]
      exact ⟨hraw.index, hraw.cardinality, hraw.cardinalityNext, hraw.tick⟩
    · simp only [List.mem_singleton, StateUpdate.mk.injEq, true_and] at hv
      rw [hv, hlow]
    · exact absurd (List.mem_singleton.mpr rfl) (hnone (BitVec.ofNat 256 n))
    · rw [← hwrite.write i hi v, hw]
      simp only [List.mem_singleton, StateUpdate.mk.injEq, true_and, reduceCtorEq, iff_false, not_and]
      exact fun heq => absurd heq (observationSlot_ne (n := 4) hi (by decide))
  | some w =>
    obtain ⟨slot, value⟩ := w
    obtain ⟨j, hj, hslot⟩ := hwrite.slot _ hw
    obtain rfl : slot = observationSlot j := hslot
    have h0 : observationSlot j ≠ 0 := observationSlot_ne (n := 0) hj (by decide)
    have h4 : observationSlot j ≠ 4 := observationSlot_ne (n := 4) hj (by decide)
    have hmem : ∀ {slot v}, (⟨address, slot, v⟩ : StateUpdate) ∈ [(⟨address, observationSlot j, value⟩ : StateUpdate),
        ⟨address, 0, parent.slot0.encodeFinal parent.slot0.sqrtPriceX96 parent.slot0.tick parent.oracle.observationIndex
          parent.oracle.observationCardinality⟩] ++ [⟨address, 4, BitVec.ofNat 256 n⟩] →
        slot = observationSlot j ∧ v = value ∨ slot = 0 ∧ v = parent.slot0.encodeFinal parent.slot0.sqrtPriceX96
          parent.slot0.tick parent.oracle.observationIndex parent.oracle.observationCardinality ∨
        slot = 4 ∧ v = BitVec.ofNat 256 n := by
      intro slot v hv
      simpa only [List.cons_append, List.nil_append, List.mem_cons, StateUpdate.mk.injEq, true_and, List.not_mem_nil,
        or_false] using hv
    refine ⟨fun v hv => ?_, fun hnone => ?_, fun v hv => ?_, fun hnone => ?_, fun i hi v => ?_,
      OracleRing.apply_observations⟩
    · rcases hmem hv with ⟨heq, -⟩ | ⟨-, rfl⟩ | ⟨heq, -⟩
      · exact absurd heq.symm h0
      · exact hrecords
      · exact absurd heq (by decide)
    · exact absurd (List.mem_append_left _ (List.mem_cons_of_mem _ List.mem_cons_self)) (hnone _)
    · rcases hmem hv with ⟨heq, -⟩ | ⟨heq, -⟩ | ⟨-, rfl⟩
      · exact absurd heq.symm h4
      · exact absurd heq (by decide)
      · exact hlow
    · exact absurd (List.mem_append_right _ List.mem_cons_self) (hnone _)
    · rw [← hwrite.write i hi v, hw, Option.some.injEq, Prod.mk.injEq]
      constructor
      · intro hv
        rcases hmem hv with ⟨heq, rfl⟩ | ⟨heq, -⟩ | ⟨heq, -⟩
        · exact ⟨heq.symm, rfl⟩
        · exact absurd heq (observationSlot_ne (n := 0) hi (by decide))
        · exact absurd heq (observationSlot_ne (n := 4) hi (by decide))
      · rintro ⟨heq, rfl⟩
        rw [← heq]
        exact List.mem_append_left _ List.mem_cons_self

/-- The active cells of a change. -/
theorem BatchOf.active (h : Tracks state address pool) {spacing : Int} {parent : LiquidityParent}
    {event : DecodedLiquidity} (ht : t < 2 ^ 32) (ha : 0 < event.amount)
    (hload : loadLiquidityParent address (.uniswap spacing) state t = .ok parent) {us : List StateUpdate}
    (hok : activeUpdates address (.uniswap spacing) event parent = .ok us) :
    ∃ pool', pool.step (.liquidity event, BitVec.ofNat 32 t) = some pool' ∧
      BatchOf address us pool pool' (pool.stored (.liquidity event) (BitVec.ofNat 32 t)) := by
  obtain ⟨raw, word, hraw, hword, hlt, hslot0, hliquidity, hprice, hadvance⟩ := loadLiquidityParent_cases hload
  have hrecords := h.slot0 raw hraw
  have htick : parent.slot0.tick = pool.tick := by
    rw [hslot0]
    exact hrecords.tick
  have hok : activeUpdates address (.uniswap (⟨0, spacing⟩ : Immutables).tickSpacing) event parent = .ok us := hok
  have hus := (activeUpdates_eq_ok ha).mp hok
  rw [htick] at hus
  unfold OraclePool.step OraclePool.stored OraclePool.ringAfter OraclePool.call OraclePool.liquidityAfter
    OraclePool.tickAfter
  simp only []
  by_cases hactive : pool.Active event
  · rw [if_pos hactive.2] at hus
    obtain ⟨n, hn, hlt', rfl⟩ := hus
    rw [hliquidity, h.liquidity word hword] at hn
    simp only [if_pos hactive, hn, Option.map_some, Option.bind_some]
    refine ⟨_, rfl, ?_⟩
    have hwrite : AdvanceOf pool.ring (pool.ring.apply (.write (BitVec.ofNat 32 t) pool.tick pool.liquidity)) _ _ :=
      advanceOracle_write h hraw hword hlt ht hadvance
    exact .activeWrites hrecords hwrite hslot0 hprice htick hlt'
  · have hout : ¬ (event.tickLower ≤ pool.tick ∧ pool.tick < event.tickUpper) := fun hr => hactive ⟨ha.ne', hr⟩
    rw [if_neg hout] at hus
    subst hus
    simp only [if_neg hactive, Option.map_some, Option.bind_none]
    exact ⟨_, rfl, .untouched nofun⟩

theorem BatchOf.append_derived (hk : DistinctKeys keccak) {pool' : OraclePool} {stored : Nat → Option OracleEntry}
    {cells us : List StateUpdate} (hcells : ∀ u ∈ cells, DerivedCell keccak u.slot)
    (h : BatchOf address us pool pool' stored) : BatchOf address (cells ++ us) pool pool' stored := by
  have hmem : ∀ n < 2 ^ 17, ∀ v, (⟨address, BitVec.ofNat 256 n, v⟩ : StateUpdate) ∈ cells ++ us ↔
      (⟨address, BitVec.ofNat 256 n, v⟩ : StateUpdate) ∈ us := by
    intro n hn v
    rw [List.mem_append]
    exact or_iff_right fun hv => DerivedCell.ne_fixed hk (hcells _ hv) hn rfl
  refine ⟨fun v hv => h.slot0 v ((hmem 0 (by decide) v).mp hv), fun hnone => h.slot0_kept fun v hv => ?_,
    fun v hv => h.liquidity v ((hmem 4 (by decide) v).mp hv), fun hnone => h.liquidity_kept fun v hv => ?_,
    fun i hi v => ?_, h.observations⟩
  · exact hnone v ((hmem 0 (by decide) v).mpr hv)
  · exact hnone v ((hmem 4 (by decide) v).mpr hv)
  · rw [← h.ring i hi v, observationSlot_eq]
    exact hmem _ (by omega) v

/-! ### Runs -/

/-- The time of a context as the pool's `uint32`. -/
def contextTime (context : AdapterEventContext) : BitVec 32 := BitVec.ofNat 32 (context.blockTimestamp.getD 0)

/-- The events with their times. -/
def timed (events : List (PoolEvent × AdapterEventContext)) : List (PoolEvent × BitVec 32) :=
  events.map fun event => (event.1, contextTime event.2)

variable {spacing : Int} {fee : Nat} {context : AdapterEventContext} {transition : CanonicalLiquidityTransition}

/-- Every event writes the cells of its call. -/
theorem replay_batch (hk : DistinctKeys keccak) (h : Tracks state address pool) {event : PoolEvent}
    (hok : replay keccak address (.uniswap spacing) fee event state context = .ok transition) :
    ∃ pool', pool.step (event, contextTime context) = some pool' ∧
      BatchOf address transition.updates pool pool' (pool.stored event (contextTime context)) := by
  have htime : ∀ {t}, validateContext context = .ok t → contextTime context = BitVec.ofNat 32 t := by
    intro t ht
    rw [contextTime, validateContext_timestamp ht, Option.getD_some]
  cases event with
  | swap swap =>
    obtain ⟨f⟩ := swap_frame (exactly_eq_ok.mp hok).1
    rw [htime f.context_ok]
    exact ⟨_, rfl, .swap hk h f⟩
  | liquidity event =>
    rcases liquidity_replay hok with ⟨hzero, rfl⟩ | ⟨r, hupdates, -⟩
    · have hactive : ¬ pool.Active event := fun hc => hc.1 hzero
      refine ⟨pool, ?_, ?_⟩
      · simp [OraclePool.step, OraclePool.liquidityAfter, OraclePool.ringAfter, OraclePool.call,
          OraclePool.tickAfter, hactive]
      · have hstored : pool.stored (.liquidity event) (contextTime context) = fun _ => none := by
          funext i
          simp [OraclePool.stored, OraclePool.call, hactive]
        rw [hstored]
        exact .untouched nofun
    · rw [htime r.context_ok, hupdates]
      obtain ⟨pool', hstep, hbatch⟩ := BatchOf.active h (validateContext_lt r.context_ok) r.amount_pos r.load r.active_ok
      exact ⟨pool', hstep, hbatch.append_derived hk fun u hu => (r.cells_derived hu).2⟩
  | flash event =>
    obtain ⟨growth0, growth1, fees, hus⟩ := deriveUniswapV3Flash_cases (exactly_eq_ok.mp hok).1
    refine ⟨pool, rfl, .accounting fun u hu => ?_⟩
    rw [hus] at hu
    simp only [List.mem_cons, List.not_mem_nil, or_false] at hu
    rcases hu with rfl | rfl | rfl
    · exact .inl rfl
    · exact .inr (.inl rfl)
    · exact .inr (.inr rfl)
  | setFeeProtocol event =>
    obtain ⟨raw, hraw, hus⟩ := deriveUniswapV3SetFeeProtocol_cases (exactly_eq_ok.mp hok).1
    rw [hus]
    exact ⟨pool, rfl, .setFeeProtocol (h.slot0 raw hraw) _⟩
  | collectProtocol event =>
    obtain ⟨fees, hus⟩ := deriveUniswapV3CollectProtocol_cases (exactly_eq_ok.mp hok).1
    refine ⟨pool, rfl, .accounting fun u hu => ?_⟩
    rw [hus] at hu
    rw [List.mem_singleton.mp hu]
    exact .inr (.inr rfl)
  | observationGrowth event =>
    obtain ⟨raw, hraw, hlt, hnext, hus⟩ := deriveUniswapV3ObservationGrowth_cases (exactly_eq_ok.mp hok).1
    have hrecords := h.slot0 raw hraw
    rw [← hnext, hrecords.cardinalityNext] at hlt hus
    rw [hus]
    exact ⟨_, rfl, .growth hrecords hlt⟩

/-- What one event does to the ring: the words it writes are those that its call stores, the cardinality grows only from the
    last index, and a live observation is overwritten only by a new one whose turn it is. -/
structure OracleStep (address : Address) (transition : CanonicalLiquidityTransition) (event : PoolEvent) (time : BitVec 32)
    (pool pool' : OraclePool) : Prop where
  writes : ∀ i < 2 ^ 16, ∀ word, ⟨address, observationSlot i, word⟩ ∈ transition.updates ↔
    ∃ o, pool.stored event time i = some o ∧ o.word = word
  kept : ∀ i, pool'.ring.observations i = (pool.stored event time i).getD (pool.ring.observations i)
  cardinality : pool'.ring.cardinality = pool.ring.cardinality ∨
    pool.ring.index + 1 = pool.ring.cardinality ∧ pool'.ring.cardinality = pool.ring.cardinalityNext
  turn : ∀ i o, pool.stored event time i = some o → (pool.ring.observations i).initialized = true →
    pool.observes event time = true ∧ i = (pool.ring.index + 1) % pool'.ring.cardinality

theorem BatchOf.oracleStep {pool' : OraclePool} {event : PoolEvent} {time : BitVec 32}
    (h : BatchOf address transition.updates pool pool' (pool.stored event time))
    (hstep : pool.step (event, time) = some pool') : OracleStep address transition event time pool pool' := by
  have hring : pool'.ring = pool.ringAfter event time := (OraclePool.step_eq_some hstep).1
  refine ⟨h.ring, h.observations, ?_, fun i o ho hlive => ?_⟩
  · rw [hring]
    unfold OraclePool.ringAfter
    cases pool.call event time with
    | none => exact .inl rfl
    | some call => exact OracleRing.apply_cardinality
  · rw [hring]
    unfold OraclePool.stored at ho
    unfold OraclePool.ringAfter OraclePool.observes
    cases hcall : pool.call event time with
    | none =>
      rw [hcall] at ho
      cases ho
    | some call =>
      rw [hcall] at ho
      obtain ⟨time', tick, liquidity, rfl, hne, hi⟩ := OracleRing.stored_of_live ho hlive
      obtain rfl := OraclePool.call_time hcall
      exact ⟨decide_eq_true hne, hi⟩

theorem replayStep_oracle (hk : DistinctKeys keccak) (h : Tracks state address pool)
    {event : PoolEvent × AdapterEventContext} {state' : StateView}
    (hok : replayStep keccak address (.uniswap spacing) fee state event = .ok state') :
    ∃ transition pool', replay keccak address (.uniswap spacing) fee event.1 state event.2 = .ok transition ∧
      pool.step (event.1, contextTime event.2) = some pool' ∧
      OracleStep address transition event.1 (contextTime event.2) pool pool' ∧ Tracks state' address pool' := by
  obtain ⟨transition, hreplay, hstate'⟩ := bind_eq_ok.mp hok
  obtain rfl := pure_eq_ok.mp hstate'
  obtain ⟨pool', hstep, hbatch⟩ := replay_batch hk h hreplay
  exact ⟨transition, pool', hreplay, hstep, hbatch.oracleStep hstep, h.of_batch hbatch⟩

theorem replayRun_tracks (hk : DistinctKeys keccak) (h : Tracks state address pool)
    {events : List (PoolEvent × AdapterEventContext)} {state' : StateView}
    (hrun : replayRun keccak address (.uniswap spacing) fee state events = .ok state') :
    ∃ pool', pool.run (timed events) = some pool' ∧ Tracks state' address pool' := by
  induction events generalizing state pool with
  | nil =>
    obtain rfl := pure_eq_ok.mp hrun
    exact ⟨pool, rfl, h⟩
  | cons event events ih =>
    obtain ⟨next, hnext, hrun⟩ := bind_eq_ok.mp hrun
    obtain ⟨transition, pool₁, -, hstep, -, hnext⟩ := replayStep_oracle hk h hnext
    obtain ⟨pool', hpool', htracks⟩ := ih hnext hrun
    refine ⟨pool', ?_, htracks⟩
    show (pool.step (event.1, contextTime event.2) >>= fun p => p.run (timed events)) = some pool'
    rw [hstep]
    exact hpool'

/-- Over every run of events the ring of the replay is that of the library: the final view, the words of each batch, and at
    most one observation for each time. -/
theorem replayRun_oracle (hk : DistinctKeys keccak) (h : Tracks state address pool)
    {events : List (PoolEvent × AdapterEventContext)} {state' : StateView}
    (hrun : replayRun keccak address (.uniswap spacing) fee state events = .ok state') :
    (∃ pool', pool.run (timed events) = some pool' ∧ Tracks state' address pool') ∧
      (∀ before event after, events = before ++ event :: after → ∃ s transition p p',
        replayRun keccak address (.uniswap spacing) fee state before = .ok s ∧ pool.run (timed before) = some p ∧
        Tracks s address p ∧ replay keccak address (.uniswap spacing) fee event.1 s event.2 = .ok transition ∧
        p.step (event.1, contextTime event.2) = some p' ∧
        OracleStep address transition event.1 (contextTime event.2) p p') ∧
      (pool.observedTimes (timed events)).IsChain (· ≠ ·) ∧
      (((timed events).map (·.2.toNat)).Pairwise (· ≤ ·) →
        ((pool.observedTimes (timed events)).map (·.toNat)).Pairwise (· < ·)) := by
  refine ⟨replayRun_tracks hk h hrun, ?_, (OraclePool.observedTimes_isChain pool _).tail,
    OraclePool.observedTimes_strict pool⟩
  rintro before event after rfl
  rw [replayRun, List.foldlM_append] at hrun
  obtain ⟨s, hbefore, hrun⟩ := bind_eq_ok.mp hrun
  obtain ⟨next, hnext, -⟩ := bind_eq_ok.mp hrun
  obtain ⟨p, hp, htracks⟩ := replayRun_tracks hk h hbefore
  obtain ⟨transition, p', hreplay, hstep, hspec, -⟩ := replayStep_oracle hk htracks hnext
  exact ⟨s, transition, p, p', hbefore, hp, htracks, hreplay, hstep, hspec⟩

end

/-- A new pool has the ring of its first observation. -/
theorem initialized_tracks {sqrtPriceX96 : Nat} {tick : Int} (ht : MIN_TICK ≤ tick ∧ tick ≤ MAX_TICK) (time : BitVec 32)
    (address : Address) : Tracks (viewOf (initialized sqrtPriceX96 tick time)) address ⟨.first time, tick, 0⟩ := by
  refine ⟨fun raw hraw => ?_, fun word hword => ?_, fun i hi word hword => ?_⟩
  · obtain rfl := Option.some.inj hraw
    have hfield : ∀ lo len, 184 ≤ lo →
        field (initialized sqrtPriceX96 tick time 0) lo len = field (initializedSlot0 0 0) lo len := by
      intro lo len hlo
      have hslot0 : initialized sqrtPriceX96 tick time 0 = initializedSlot0 sqrtPriceX96 tick := initialized_slot0
      rw [hslot0, field, initializedSlot0_high hlo, field]
    refine ⟨?_, ?_, ?_, initialized_tick ht⟩
    · rw [hfield 184 16 le_rfl]
      exact (by decide : field (initializedSlot0 0 0) 184 16 = 0)
    · rw [hfield 200 16 (by decide)]
      exact (by decide : field (initializedSlot0 0 0) 200 16 = 1)
    · rw [hfield 216 16 (by decide)]
      exact (by decide : field (initializedSlot0 0 0) 216 16 = 1)
  · obtain rfl := Option.some.inj hword
    rw [initialized_of_ne (by decide) (by decide)]
    rfl
  · obtain rfl := Option.some.inj hword
    by_cases h0 : i = 0
    · subst h0
      have hcell : initialized sqrtPriceX96 tick time 8 = OracleEntry.word ⟨time, 0, 0, true⟩ := by
        rw [initialized, Function.update_self]
      exact hcell.symm
    · have h8 : observationSlot i ≠ 8 := fun heq => h0 (observationSlot_inj hi (by decide) heq)
      rw [initialized_of_ne (observationSlot_ne (n := 0) hi (by decide)) h8]
      simp only [OracleRing.first, if_neg h0]
      decide

def growTo4 : PoolEvent × AdapterEventContext := (.observationGrowth ⟨1, 4⟩, contextAt 1005)
def mintInRange : PoolEvent × AdapterEventContext := (.liquidity mintAt90, contextAt 1012)

/-- A new pool reserves four entries, then a mint around its tick takes them into use. -/
theorem replayRun_oracle_growAndMint : ∃ state' pool',
    replayRun tabulatedKeccak 7 (.uniswap 60) 3000 (viewOf poolAt90) [growTo4, mintInRange] = .ok state' ∧
      OraclePool.run ⟨.first 1000, 90, 0⟩ (timed [growTo4, mintInRange]) = some pool' ∧ Tracks state' 7 pool' ∧
      pool'.ring.index = 1 ∧ pool'.ring.cardinality = 4 := by
  obtain ⟨state', hrun⟩ := isOk_iff.mp (show (replayRun tabulatedKeccak 7 (.uniswap 60) 3000 (viewOf poolAt90)
    [growTo4, mintInRange]).isOk = true by decide +kernel)
  obtain ⟨⟨pool', hpool', htracks⟩, -⟩ :=
    replayRun_oracle tabulatedKeccak_distinct (initialized_tracks (by decide) 1000 7) hrun
  have hring : (OraclePool.run ⟨.first 1000, 90, 0⟩ (timed [growTo4, mintInRange])).map
      (fun p => (p.ring.index, p.ring.cardinality)) = some (1, 4) := by decide +kernel
  rw [hpool', Option.map_some, Option.some.injEq, Prod.mk.injEq] at hring
  exact ⟨state', pool', hrun, hpool', htracks, hring.1, hring.2⟩

end AmmState.Canonical
