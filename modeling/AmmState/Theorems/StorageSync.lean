import AmmState.StorageSync

/-! Both loaders return the words of the slots in their order, and the decoder pairs each slot with its word. -/

namespace AmmState.StorageSync
open Evm

/-! ### Pushes -/

theorem decode_push {width : Nat} (hpos : 0 < width) (hle : width ≤ 32) :
    decode (PUSH1 + BitVec.ofNat 8 (width - 1)) = .push width := by
  have htoNat : (PUSH1 + BitVec.ofNat 8 (width - 1)).toNat = 0x5f + width := by
    rw [PUSH1, BitVec.toNat_add, BitVec.toNat_ofNat, show (0x60 : Byte).toNat = 0x60 from rfl]
    omega
  rw [decode, htoNat, if_pos ⟨by omega, by omega⟩, Nat.add_sub_cancel_left]

theorem take_findIdx (bytes : List Byte) : ∀ byte ∈ bytes.take ((bytes.findIdx? (· ≠ 0)).getD 31), byte = 0 := by
  intro byte hbyte
  cases hfind : bytes.findIdx? (· ≠ 0) with
  | none =>
    have hzero := List.findIdx?_eq_none_iff.mp hfind byte (List.mem_of_mem_take hbyte)
    simpa using hzero
  | some first =>
    rw [hfind, Option.getD_some] at hbyte
    obtain ⟨i, hi, rfl⟩ := List.mem_iff_getElem.mp hbyte
    obtain ⟨hlt, hbefore⟩ := List.findIdx?_eq_some_iff_getElem.mp hfind
    have hlen : i < first ∧ i < bytes.length := by simpa using hi
    have hzero := hbefore.2 i hlen.1
    simpa using hzero

/-- The push of a value is a push instruction with the bytes of the value. -/
theorem pushU256_spec (value : U256) :
    ∃ byte bytes, pushU256 value = byte :: bytes ∧ decode byte = .push bytes.length ∧ ofBytes bytes = value := by
  have hfirst : ((wordBytes value).findIdx? (· ≠ 0)).getD 31 ≤ 31 := by
    cases hfind : (wordBytes value).findIdx? (· ≠ 0) with
    | none => exact le_rfl
    | some first =>
      obtain ⟨hlt, -⟩ := List.findIdx?_eq_some_iff_getElem.mp hfind
      rw [length_wordBytes] at hlt
      exact Nat.le_of_lt_succ hlt
  refine ⟨_, _, rfl, ?_, ?_⟩
  · rw [List.length_drop, length_wordBytes]
    exact decode_push (by omega) (by omega)
  · have hdrop := ByteWords.fromBeBytes_drop (take_findIdx (wordBytes value))
    rw [ofBytes, hdrop]
    exact ofBytes_wordBytes value

theorem pushWords_eq_some {count : Nat} {bytes : Bytes} :
    pushWords count = some bytes ↔ 32 * count < 2 ^ 64 ∧ bytes = pushU256 (BitVec.ofNat 256 (32 * count)) := by
  unfold pushWords
  split_ifs with h
  · exact ⟨fun heq => ⟨h, (Option.some.inj heq).symm⟩, fun heq => congrArg some heq.2.symm⟩
  · exact ⟨nofun, fun heq => absurd heq.1 h⟩

theorem toNat_words {count : Nat} (h : 32 * count < 2 ^ 64) : (BitVec.ofNat 256 (32 * count)).toNat = 32 * count := by
  rw [BitVec.toNat_ofNat, Nat.mod_eq_of_lt (h.trans (Nat.pow_lt_pow_right (by decide) (by decide)))]

theorem loadSlot_eq_some {slot : U256} {index : Nat} {load : Bytes} :
    loadSlot slot index = some load ↔ 32 * index < 2 ^ 64 ∧
      load = pushU256 slot ++ [SLOAD] ++ pushU256 (BitVec.ofNat 256 (32 * index)) ++ [MSTORE] := by
  simp only [loadSlot, pushOffset, Option.bind_eq_bind, Option.bind_eq_some_iff, pushWords_eq_some, Option.pure_def,
    Option.some.injEq]
  exact ⟨fun ⟨_, ⟨h, hoffset⟩, hload⟩ => ⟨h, by rw [← hload, hoffset]⟩, fun ⟨h, hload⟩ => ⟨_, ⟨h, rfl⟩, hload.symm⟩⟩

/-! ### The baked loader -/

section
variable {env : Env} {before : Bytes} {memory : Memory} {stack : List Word}

/-- Running over a push. -/
theorem push_reaches {value : U256} (after : Bytes) (hcode : env.code = before ++ pushU256 value ++ after) 
    (hstack : stack.length < STACK_LIMIT) :
    Reaches env ⟨before.length, stack, memory⟩ ⟨(before ++ pushU256 value).length, value :: stack, memory⟩ := by
  obtain ⟨byte, bytes, hpush, hdecode, hvalue⟩ := pushU256_spec value
  rw [hpush] at hcode ⊢
  have hstep := step_push memory hdecode hcode hstack
  rw [hvalue] at hstep
  exact .head _ hstep .refl

/-- Loading one slot leaves its word in its place in memory. -/
theorem loadSlot_reaches {slot : U256} {index : Nat} {load : Bytes} (after : Bytes)
    (hload : loadSlot slot index = some load) (hcode : env.code = before ++ load ++ after) :
    Reaches env ⟨before.length, [], memory⟩
      ⟨(before ++ load).length, [], memory.store (32 * index) (env.storage slot)⟩ := by
  obtain ⟨hindex, rfl⟩ := loadSlot_eq_some.mp hload
  set offset : U256 := BitVec.ofNat 256 (32 * index) with hoffset
  have hslot : Reaches env ⟨before.length, [], memory⟩ ⟨(before ++ pushU256 slot).length, [slot], memory⟩ :=
    push_reaches ([SLOAD] ++ pushU256 offset ++ [MSTORE] ++ after) (by simp [hcode]) (Nat.zero_lt_succ _)
  have hsload : step env ⟨(before ++ pushU256 slot).length, [slot], memory⟩ =
      .continues ⟨(before ++ pushU256 slot ++ [SLOAD]).length, [env.storage slot], memory⟩ := by
    rw [step_at SLOAD (pushU256 offset ++ [MSTORE] ++ after) (by simp [hcode]), length_snoc]
    rfl
  have hpush : Reaches env ⟨(before ++ pushU256 slot ++ [SLOAD]).length, [env.storage slot], memory⟩
      ⟨(before ++ pushU256 slot ++ [SLOAD] ++ pushU256 offset).length, [offset, env.storage slot], memory⟩ :=
    push_reaches ([MSTORE] ++ after) (by simp [hcode]) (Nat.one_lt_succ_succ _)
  have hmstore : step env ⟨(before ++ pushU256 slot ++ [SLOAD] ++ pushU256 offset).length,
      [offset, env.storage slot], memory⟩ =
      .continues ⟨(before ++ pushU256 slot ++ [SLOAD] ++ pushU256 offset ++ [MSTORE]).length, [],
        memory.store (32 * index) (env.storage slot)⟩ := by
    rw [step_at MSTORE after (by simp [hcode]), length_snoc, ← toNat_words hindex]
    rfl
  have hload := hslot.trans (.head _ hsload (hpush.trans (.head _ hmstore .refl)))
  rwa [show before ++ pushU256 slot ++ [SLOAD] ++ pushU256 offset ++ [MSTORE] =
    before ++ (pushU256 slot ++ [SLOAD] ++ pushU256 offset ++ [MSTORE]) by simp] at hload

/-- The memory after the words of some slots were stored from an index on. -/
def loaded (storage : U256 → U256) (memory : Memory) : List (U256 × Nat) → Memory
  | [] => memory
  | (slot, index) :: rest => loaded storage (memory.store (32 * index) (storage slot)) rest

theorem loads_reach (before : Bytes) {slots : List (U256 × Nat)} {loads : List Bytes} (after : Bytes)
    (hloads : slots.mapM (fun entry => loadSlot entry.1 entry.2) = some loads)
    (hcode : env.code = before ++ loads.flatten ++ after) :
    Reaches env ⟨before.length, [], memory⟩ ⟨(before ++ loads.flatten).length, [], loaded env.storage memory slots⟩ := by
  induction slots generalizing before memory loads with
  | nil =>
    obtain rfl : [] = loads := by simpa using hloads
    simpa [loaded] using Reaches.refl
  | cons head rest ih =>
    obtain ⟨slot, index⟩ := head
    simp only [List.mapM_cons, Option.bind_eq_bind, Option.bind_eq_some_iff, Option.pure_def, Option.some.injEq] at hloads
    obtain ⟨load, hload, loads, hloads, rfl⟩ := hloads
    have hcode' : env.code = before ++ load ++ (loads.flatten ++ after) := by simp [hcode]
    have hfirst : Reaches env ⟨before.length, [], memory⟩ _ := loadSlot_reaches _ hload hcode'
    have hrest : Reaches env ⟨(before ++ load).length, [], memory.store (32 * index) (env.storage slot)⟩
        ⟨(before ++ load ++ loads.flatten).length, [], loaded env.storage memory ((slot, index) :: rest)⟩ :=
      ih _ hloads (by simp [hcode])
    rw [List.append_assoc] at hrest
    exact hfirst.trans hrest

/-- The loads exist for every list whose words have a place. -/
theorem mapM_loadSlot (slots : List (U256 × Nat)) (h : ∀ entry ∈ slots, 32 * entry.2 < 2 ^ 64) :
    ∃ loads, slots.mapM (fun entry => loadSlot entry.1 entry.2) = some loads := by
  induction slots with
  | nil => exact ⟨[], rfl⟩
  | cons head rest ih =>
    obtain ⟨loads, hloads⟩ := ih fun entry hentry => h entry (List.mem_cons_of_mem _ hentry)
    have hhead : loadSlot head.1 head.2 = some _ := loadSlot_eq_some.mpr ⟨h head List.mem_cons_self, rfl⟩
    exact ⟨_, by rw [List.mapM_cons, hhead, hloads]; rfl⟩

/-- Stored from the end of a prefix on, the words follow it. -/
theorem read_loaded (storage : U256 → U256) (slots : List U256) (memory : Memory) (count : Nat) :
    (loaded storage memory (slots.zipIdx count)).read 0 (32 * (count + slots.length)) =
      memory.read 0 (32 * count) ++ (slots.map storage).flatMap wordBytes := by
  induction slots generalizing memory count with
  | nil => simp [loaded]
  | cons slot rest ih =>
    rw [List.zipIdx_cons, loaded, List.length_cons, ← Nat.add_assoc, Nat.add_right_comm, ih, Nat.mul_add, Memory.read_store,
      List.map_cons, List.flatMap_cons, List.append_assoc]

end

/-- The loader with the slots in its code returns their words. -/
theorem returns_baked {slots : List U256} (hfits : 32 * slots.length < 2 ^ 64) (calldata : Bytes) (storage : U256 → U256) :
    ∃ code, buildSlotLoaderProgram slots = some code ∧
      Returns ⟨code, calldata, storage⟩ ((slots.map storage).flatMap wordBytes) := by
  obtain ⟨loads, hloads⟩ := mapM_loadSlot slots.zipIdx fun entry hentry => by
    have hlt := (List.mem_zipIdx hentry).2.1
    omega
  refine ⟨loads.flatten ++ pushU256 (BitVec.ofNat 256 (32 * slots.length)) ++ pushU256 0 ++ [RETURN], ?_, ?_⟩
  · simp [buildSlotLoaderProgram, hloads, pushLen, pushWords_eq_some.mpr ⟨hfits, rfl⟩]
  · set len : U256 := BitVec.ofNat 256 (32 * slots.length) with hlen
    set env : Env := ⟨loads.flatten ++ pushU256 len ++ pushU256 0 ++ [RETURN], calldata, storage⟩ with henv
    have hloads : Reaches env .start ⟨loads.flatten.length, [], loaded storage .zero slots.zipIdx⟩ :=
      loads_reach [] (pushU256 len ++ pushU256 0 ++ [RETURN]) hloads (by simp [henv])
    have hlen' : Reaches env ⟨loads.flatten.length, [], loaded storage .zero slots.zipIdx⟩
        ⟨(loads.flatten ++ pushU256 len).length, [len], loaded storage .zero slots.zipIdx⟩ :=
      push_reaches (pushU256 0 ++ [RETURN]) (by simp [henv]) (Nat.zero_lt_succ _)
    have hzero : Reaches env ⟨(loads.flatten ++ pushU256 len).length, [len], loaded storage .zero slots.zipIdx⟩
        ⟨(loads.flatten ++ pushU256 len ++ pushU256 0).length, [0, len], loaded storage .zero slots.zipIdx⟩ :=
      push_reaches [RETURN] rfl (Nat.one_lt_succ_succ _)
    have hreturn : step env ⟨(loads.flatten ++ pushU256 len ++ pushU256 0).length,
        [0, len], loaded storage .zero slots.zipIdx⟩ =
        .halts (.returned ((loaded storage .zero slots.zipIdx).read 0 (32 * slots.length))) := by
      rw [step_at RETURN [] rfl, ← toNat_words hfits]
      rfl
    have hread := read_loaded storage slots .zero 0
    rw [Nat.zero_add] at hread
    rw [hread] at hreturn
    exact (hloads.trans (hlen'.trans hzero)).returns hreturn

/-! ### The calldata loader -/

/-- The memory after the first words were stored. -/
def filled (storage : U256 → U256) (slots : List U256) : Nat → Memory
  | 0 => .zero
  | i + 1 => (filled storage slots i).store (32 * i) (storage (slots.getD i 0))

theorem read_filled (storage : U256 → U256) {slots : List U256} {i : Nat} (hi : i ≤ slots.length) :
    (filled storage slots i).read 0 (32 * i) = ((slots.take i).map storage).flatMap wordBytes := by
  induction i with
  | zero => simp [Memory.read]
  | succ i ih =>
    have hlt : i < slots.length := hi
    have hget : slots.getD i 0 = slots[i] := by simp [hlt]
    rw [filled, Nat.mul_succ, Memory.read_store, ih hlt.le, hget, List.take_succ_eq_append_getElem hlt, List.map_append,
      List.flatMap_append, List.map_singleton, List.flatMap_singleton]

section
variable {slots : List U256} {storage : U256 → U256}

def loaderEnv (slots : List U256) (storage : U256 → U256) : Env :=
  ⟨CALLDATA_SLOT_LOADER_CODE, slotLoaderCalldata slots, storage⟩

/-- The head of the loop, before the `i`-th slot. -/
def loopHead (storage : U256 → U256) (slots : List U256) (i : Nat) : Machine :=
  ⟨2, [BitVec.ofNat 256 (32 * i)], filled storage slots i⟩

/-- One turn of the loop loads one slot. -/
theorem loop_reaches (hfits : 32 * slots.length < 2 ^ 64) {i : Nat} (hi : i < slots.length) :
    Reaches (loaderEnv slots storage) (loopHead storage slots i) (loopHead storage slots (i + 1)) := by
  have hlt : 32 * i < 2 ^ 64 := by omega
  have hcalldata : BitVec.ofNat 256 (slotLoaderCalldata slots).length ≠ BitVec.ofNat 256 (32 * i) := fun heq => by
    have htoNat := congrArg BitVec.toNat heq
    rw [slotLoaderCalldata, length_flatMap_wordBytes, toNat_words hfits, toNat_words hlt] at htoNat
    omega
  have hword : ofBytes (window (slotLoaderCalldata slots) (BitVec.ofNat 256 (32 * i)).toNat 32) = slots.getD i 0 := by
    rw [toNat_words hlt, slotLoaderCalldata, window_flatMap_wordBytes hi, ofBytes_wordBytes]
    simp [hi]
  set c : Word := BitVec.ofNat 256 (32 * i) with hc
  set memory := filled storage slots i with hmemory
  have hstored : memory.store c.toNat (storage (slots.getD i 0)) = filled storage slots (i + 1) := by
    rw [toNat_words hlt]
    rfl
  have hnext : (32 : Word) + c = BitVec.ofNat 256 (32 * (i + 1)) := by
    rw [hc, Nat.mul_succ, Nat.add_comm, BitVec.ofNat_add]
    rfl
  refine .head ⟨3, [c], memory⟩ rfl (.head ⟨4, [c, c], memory⟩ rfl ?_)
  refine .head ⟨5, [BitVec.ofNat 256 (slotLoaderCalldata slots).length, c, c], memory⟩ rfl ?_
  -- The counter is not at the end.
  have heq : step (loaderEnv slots storage) ⟨5, [BitVec.ofNat 256 (slotLoaderCalldata slots).length, c, c], memory⟩ =
      .continues ⟨6, [if BitVec.ofNat 256 (slotLoaderCalldata slots).length = c then 1 else 0, c], memory⟩ := rfl
  rw [if_neg hcalldata] at heq
  refine .head _ heq ?_
  refine .head ⟨9, [22, 0, c], memory⟩ rfl (.head ⟨10, [c], memory⟩ rfl ?_)
  refine .head ⟨11, [c, c], memory⟩ rfl (.head ⟨12, [slots.getD i 0, c], memory⟩ (by rw [← hword]; rfl) ?_)
  refine .head ⟨13, [storage (slots.getD i 0), c], memory⟩ rfl (.head ⟨14, [c, storage (slots.getD i 0), c], memory⟩ rfl ?_)
  refine .head ⟨15, [c], filled storage slots (i + 1)⟩ (by rw [← hstored]; rfl) ?_
  refine .head ⟨17, [32, c], _⟩ rfl (.head ⟨18, [BitVec.ofNat 256 (32 * (i + 1))], _⟩ (by rw [← hnext]; rfl) ?_)
  exact .head ⟨21, [2, BitVec.ofNat 256 (32 * (i + 1))], _⟩ rfl (.head (loopHead storage slots (i + 1)) rfl .refl)

/-- The loader with the slots in its calldata returns their words. -/
theorem returns_calldata (hfits : 32 * slots.length < 2 ^ 64) :
    Returns (loaderEnv slots storage) ((slots.map storage).flatMap wordBytes) := by
  set c : Word := BitVec.ofNat 256 (32 * slots.length) with hc
  set memory := filled storage slots slots.length with hmemory
  have hcalldata : BitVec.ofNat 256 (slotLoaderCalldata slots).length = c := by
    rw [hc, slotLoaderCalldata, length_flatMap_wordBytes]
  have hloop : Reaches (loaderEnv slots storage) (loopHead storage slots 0) (loopHead storage slots slots.length) :=
    .iterate fun i hi => loop_reaches hfits hi
  have heq : step (loaderEnv slots storage) ⟨5, [BitVec.ofNat 256 (slotLoaderCalldata slots).length, c, c], memory⟩ =
      .continues ⟨6, [if BitVec.ofNat 256 (slotLoaderCalldata slots).length = c then 1 else 0, c], memory⟩ := rfl
  rw [if_pos hcalldata] at heq
  have hexit : Reaches (loaderEnv slots storage) (loopHead storage slots slots.length) ⟨25, [0, c], memory⟩ := by
    refine .head ⟨3, [c], memory⟩ rfl (.head ⟨4, [c, c], memory⟩ rfl (.head _ rfl (.head _ heq ?_)))
    refine .head ⟨9, [22, 1, c], memory⟩ rfl (.head ⟨22, [c], memory⟩ rfl ?_)
    exact .head ⟨23, [c], memory⟩ rfl (.head ⟨25, [0, c], memory⟩ rfl .refl)
  have hreturn : step (loaderEnv slots storage) ⟨25, [0, c], memory⟩ =
      .halts (.returned ((slots.map storage).flatMap wordBytes)) := by
    have hread := read_filled storage (le_refl slots.length)
    rw [List.take_length] at hread
    rw [← hread, ← toNat_words hfits]
    rfl
  have hstart : Reaches (loaderEnv slots storage) .start (loopHead storage slots 0) := .head _ rfl .refl
  exact (hstart.trans (hloop.trans hexit)).returns hreturn

end

/-! ### Both loaders and the decoder -/

theorem StorageSyncSpec.lt (spec : StorageSyncSpec) : 32 * spec.slots.length < 2 ^ 64 :=
  lt_of_le_of_lt spec.fits (by decide)

/-- The words of an output are those that were written. -/
theorem words_flatMap (words : List U256) :
    ((List.range ((words.flatMap wordBytes).length / 32)).map fun i => ofBytes
      (window (words.flatMap wordBytes) (32 * i) 32)) =
      words := by
  rw [length_flatMap_wordBytes, Nat.mul_div_cancel_left _ (by decide)]
  refine List.ext_getElem (by simp) fun i h hi => ?_
  rw [List.getElem_map, List.getElem_range, window_flatMap_wordBytes hi, ofBytes_wordBytes]

theorem decodeStorageSync_eq_error {spec : StorageSyncSpec} {output : Bytes} :
    (∃ text, decodeStorageSync spec output = .error (.malformed text)) ↔ output.length ≠ 32 * spec.slots.length := by
  rw [decodeStorageSync, Nat.mul_comm 32]
  by_cases h : output.length = spec.slots.length * 32
  · rw [if_neg (not_not.mpr h)]
    exact ⟨fun ⟨_, heq⟩ => absurd heq nofun, fun hne => absurd h hne⟩
  · rw [if_pos h]
    exact ⟨fun _ => h, fun _ => ⟨_, rfl⟩⟩

/-- Under either encoding the loader returns the words of the slots in their order; the decoder pairs each slot with its
    word, and refuses every output of another length. -/
theorem loaders_agree (spec : StorageSyncSpec) (storage : U256 → U256) :
    (∀ encoding, ∃ program, { spec with encoding }.program = some program ∧ program.target = spec.target ∧
      Returns ⟨program.code, program.calldata, storage⟩ ((spec.slots.map storage).flatMap wordBytes)) ∧
    decodeStorageSync spec ((spec.slots.map storage).flatMap wordBytes) =
      .ok ⟨spec.target, spec.slots.map fun slot => (slot, storage slot)⟩ ∧
    ∀ output, (∃ text, decodeStorageSync spec output = .error (.malformed text)) ↔
      output.length ≠ 32 * spec.slots.length := by
  refine ⟨fun encoding => ?_, ?_, fun output => decodeStorageSync_eq_error⟩
  · cases encoding with
    | bakedSlots =>
      obtain ⟨code, hcode, hreturns⟩ := returns_baked spec.lt [] storage
      exact ⟨⟨spec.target, code, []⟩, by simp [StorageSyncSpec.program, hcode], rfl, hreturns⟩
    | calldataSlots => exact ⟨_, rfl, rfl, returns_calldata spec.lt⟩
  · have hlength : ¬ ((spec.slots.map storage).flatMap wordBytes).length ≠ spec.slots.length * 32 := by
      rw [length_flatMap_wordBytes, List.length_map, Nat.mul_comm]
      exact not_not.mpr rfl
    have hzip : spec.slots.zip (spec.slots.map storage) = spec.slots.map fun slot => (slot, storage slot) := by
      rw [List.zip_map_right, List.zip, List.zipWith_self, List.map_map]
      rfl
    rw [decodeStorageSync, if_neg hlength, words_flatMap, ← hzip]

end AmmState.StorageSync
