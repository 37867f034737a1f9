import AmmState.Canonical.Initialize
import AmmState.Theorems.Discovery.Query

/-! Whether a pool that is pushed by its creation log is the pool that a query finds. Both paths verify the same derivation
    for Uniswap V2 and Solidly. A concentrated-liquidity factory takes the key of the derivation, the fee and the spacing
    from the log on one path and from its specification and storage on the other. -/

namespace AmmState.Discovery
open Evm (wordBytes ofBytes window ofBytes_wordBytes length_flatMap_wordBytes window_flatMap_wordBytes)
open Canonical (signExtend_setWidth)
open Fallible

/-! ### Logs -/

theorem setWidth_addressWord (address : Address) : (addressWord address).setWidth 160 = address := by
  rw [addressWord, BitVec.setWidth_setWidth_of_le _ (by omega), BitVec.setWidth_eq]

theorem setWidth_setWidth_24 (value : BitVec 24) : (value.setWidth 256).setWidth 24 = value := by
  rw [BitVec.setWidth_setWidth_of_le _ (by omega), BitVec.setWidth_eq]

/-- The two words of a log's data. -/
theorem two_words (a b : U256) : 64 ≤ ([a, b].flatMap wordBytes).length ∧
    ofBytes (window ([a, b].flatMap wordBytes) 0 32) = a ∧ ofBytes (window ([a, b].flatMap wordBytes) 32 32) = b := by
  refine ⟨(length_flatMap_wordBytes [a, b]).ge, ?_, ?_⟩
  · rw [show (0 : Nat) = 32 * 0 from rfl, window_flatMap_wordBytes (by simp), ofBytes_wordBytes]
    rfl
  · rw [show (32 : Nat) = 32 * 1 from rfl, window_flatMap_wordBytes (by simp), ofBytes_wordBytes]
    rfl

theorem PairCreated.decode_encode (event : PairCreated) : PairCreated.decode event.encode = some event := by
  obtain ⟨hlength, hpair, hcount⟩ := two_words (addressWord event.pair) event.allPairsLength
  simp only [encode, decode, hlength, hpair, hcount, setWidth_addressWord, and_self, if_true]

theorem PoolCreated.decode_encode (event : PoolCreated) : PoolCreated.decode event.encode = some event := by
  obtain ⟨hlength, hspacing, hpool⟩ := two_words (event.tickSpacing.signExtend 256) (addressWord event.pool)
  simp only [encode, decode, hlength, hspacing, hpool, setWidth_addressWord, setWidth_setWidth_24,
    signExtend_setWidth (show 24 ≤ 256 by omega), and_self, if_true]

theorem PoolCreatedTickSpacing.decode_encode (event : PoolCreatedTickSpacing) :
    PoolCreatedTickSpacing.decode event.encode = some event := by
  obtain ⟨hlength, hpool, hfee⟩ := two_words (addressWord event.pool) (event.fee.setWidth 256)
  simp only [encode, decode, hlength, hpool, hfee, setWidth_addressWord, setWidth_setWidth_24,
    signExtend_setWidth (show 24 ≤ 256 by omega), and_self, if_true]

theorem SolidlyPoolCreated.decode_encode (event : SolidlyPoolCreated) :
    SolidlyPoolCreated.decode event.encode = some event := by
  obtain ⟨hlength, hpool, hcount⟩ := two_words (addressWord event.pool) event.allPoolsLength
  have hstable : decide (boolToWord event.stable ≠ 0) = event.stable := by cases event.stable <;> decide
  simp only [encode, decode, hlength, hpool, hcount, hstable, setWidth_addressWord, and_self, if_true]

/-! ### Outcomes -/

/-- Both paths refuse, or both give the same pool. -/
def Agrees : Except DiscoveryError (Option DiscoveredPool) → Except DiscoveryError (Option DiscoveredPool) → Prop
  | .ok (some pushed), .ok (some found) => pushed.key = found.key ∧ pushed.registration = found.registration
  | .error _, .error _ => True
  | _, _ => False

/-- A derivation refuses a pool: none was verified yet, and it gives another address. -/
def Mismatch (latch : Bool) (expected : Option Address) (pool : Address) : Prop :=
  latch = false ∧ ¬ Verified expected pool

section
variable {latch : Bool} {expected : Option Address} {pool : Address} {α : Type}

theorem verify_refuses (h : Mismatch latch expected pool) (next : Latched α) :
    ∃ error, ((verifyOnce expected pool >>= fun _ => next).run.run latch).1 = .error error := by
  obtain ⟨rfl, hverified⟩ := h
  cases expected with
  | none => exact absurd nofun hverified
  | some derived =>
    have hne : derived ≠ pool := fun heq => hverified fun other hother => Option.some.inj hother ▸ heq
    simp only [verifyOnce, if_pos hne]
    exact ⟨_, rfl⟩

theorem verify_passes (h : ¬ Mismatch latch expected pool) (next : Latched α) :
    ∃ latch', (verifyOnce expected pool >>= fun _ => next).run.run latch = next.run.run latch' := by
  have hverified : latch = false → Verified expected pool := fun hlatch => not_not.mp fun hnot => h ⟨hlatch, hnot⟩
  obtain ⟨latch', hrun, -⟩ := verifyOnce_returns hverified latch id
  exact ⟨latch', by rw [run_bind, hrun]⟩

/-- Two paths that verify the same derivation of the same pool. -/
theorem agrees_of_same {pushed found : DiscoveredPool} (hkey : pushed.key = found.key)
    (hregistration : pushed.registration = found.registration) :
    Agrees ((verifyOnce expected pool >>= fun _ => pure (some pushed)).run.run latch).1
      ((verifyOnce expected pool >>= fun _ => pure (some found)).run.run latch).1 := by
  by_cases h : Mismatch latch expected pool
  · obtain ⟨error, hpush⟩ := verify_refuses h (pure (some pushed))
    obtain ⟨error', hquery⟩ := verify_refuses h (pure (some found))
    rw [hpush, hquery]
    trivial
  · obtain ⟨latch', hpush⟩ := verify_passes h (pure (some pushed))
    obtain ⟨latch'', hquery⟩ := verify_passes h (pure (some found))
    rw [hpush, hquery]
    exact ⟨hkey, hregistration⟩

/-- A lookup of a pool that is recorded. -/
theorem lookUp_recorded (hpool : pool ≠ 0) (finish : Address → Latched (Option DiscoveredPool)) :
    lookUp (some (addressWord pool)) expected finish = verifyOnce expected pool >>= fun _ => finish pool := by
  have hlt : (addressWord pool).toNat < 2 ^ 160 := by
    rw [addressWord, BitVec.toNat_setWidth]
    exact (Nat.mod_le _ _).trans_lt pool.isLt
  unfold lookUp
  dsimp only
  rw [addressOf_of_lt hlt, pure_bind, setWidth_addressWord, if_neg hpool]

end

section
variable (keccak256 : Bytes → B256)

/-! ### Concentrated liquidity -/

/-- The creation event of a concentrated-liquidity pool. -/
inductive ClEvent
  | poolCreated (event : PoolCreated)
  | poolCreatedTickSpacing (event : PoolCreatedTickSpacing)

namespace ClEvent

def topic0 : ClEvent → B256
  | .poolCreated _ => POOL_CREATED_SIGNATURE
  | .poolCreatedTickSpacing _ => POOL_CREATED_TICK_SPACING_SIGNATURE

def encode : ClEvent → LogData
  | .poolCreated event => event.encode
  | .poolCreatedTickSpacing event => event.encode

def pair : ClEvent → Pair
  | .poolCreated event => (event.token0, event.token1)
  | .poolCreatedTickSpacing event => (event.token0, event.token1)

def pool : ClEvent → Address
  | .poolCreated event => event.pool
  | .poolCreatedTickSpacing event => event.pool

def fee : ClEvent → U32
  | .poolCreated event => event.fee.setWidth 32
  | .poolCreatedTickSpacing event => event.fee.setWidth 32

def tickSpacing : ClEvent → U32
  | .poolCreated event => event.tickSpacing.signExtend 32
  | .poolCreatedTickSpacing event => event.tickSpacing.signExtend 32

end ClEvent

namespace ClFactorySpec
variable (f : ClFactorySpec) (storage : StateSlot → U256) (event : ClEvent)

/-- The key under which a query finds the pool of an event. -/
def keyOf : ClLookupKey :=
  match f.keying with
  | .fee _ _ => .fee event.fee
  | .tickSpacing _ => .tickSpacing event.tickSpacing

/-- The factory emits the event for a pool that its storage records, with the spacing and the fee of its mappings. -/
structure Emits : Prop where
  topic : f.creationTopic0 = some event.topic0
  exists_pool : event.pool ≠ 0
  recorded : storage (f.poolSlot keccak256 event.pair (f.keyOf event)) = addressWord event.pool
  spacing : event.tickSpacing = f.heldSpacing keccak256 storage (f.keyOf event)
  fee : ∀ baseSlot, f.feeSource = .factoryMapping baseSlot → event.fee = f.heldFee keccak256 storage (f.keyOf event)

variable {f storage event} {latch : Bool}

end ClFactorySpec
/-! ### All factories -/

/-- The creation event of a pool. -/
inductive CreationEvent
  | uniswapV2 (event : PairCreated)
  | concentratedLiquidity (event : ClEvent)
  | solidly (event : SolidlyPoolCreated)

def CreationEvent.encode : CreationEvent → LogData
  | .uniswapV2 event => event.encode
  | .concentratedLiquidity event => event.encode
  | .solidly event => event.encode

namespace PoolFactory
variable (f : PoolFactory) (storage : StateSlot → U256) (event : CreationEvent)

/-- The factory watches for the event and emits it for a pool that its storage records. -/
def Emits : Prop :=
  match f, event with
  | .uniswapV2 factory, .uniswapV2 event =>
    event.pair ≠ 0 ∧ storage (factory.pairSlot keccak256 (event.token0, event.token1)) = addressWord event.pair
  | .concentratedLiquidity spec, .concentratedLiquidity event => spec.Emits keccak256 storage event
  | .solidly config, .solidly event =>
    config.creationTopic0 = some SOLIDLY_POOL_CREATED_SIGNATURE ∧ event.pool ≠ 0 ∧
      storage (config.poolSlot keccak256 ((event.token0, event.token1), event.stable)) = addressWord event.pool
  | _, _ => False

variable {f storage event} {latch : Bool}

theorem UniswapV2.agrees {factory : UniswapV2Factory} {event : PairCreated} (hpair : event.pair ≠ 0)
    (hrecorded : storage (factory.pairSlot keccak256 (event.token0, event.token1)) = addressWord event.pair)
    (context : CreationLogContext) :
    Agrees ((factory.decodeCreation keccak256 ⟨factory.config.factory, event.encode⟩ context).run.run latch).1
      ((factory.probe keccak256 (total storage) (event.token0, event.token1)).run.run latch).1 := by
  have hhead : event.encode.topics.head? = some PAIR_CREATED_SIGNATURE := rfl
  have hdecode : factory.decodeCreation keccak256 ⟨factory.config.factory, event.encode⟩ context =
      verifyOnce (factory.derivation keccak256 event.token0 event.token1) event.pair >>= fun _ =>
        pure (some (factory.registration event.pair event.token0 event.token1
          (.creationEvent context.blockNumber context.logIndex))) := by
    simp only [UniswapV2Factory.decodeCreation, hhead, ne_eq, not_true, or_self, if_false, orMalformed,
      PairCreated.decode_encode]
    rfl
  rw [hdecode, UniswapV2Factory.probe_eq, get_total, hrecorded, lookUp_recorded hpair]
  exact agrees_of_same rfl rfl

theorem Solidly.agrees {config : SolidlyFactoryConfig} {event : SolidlyPoolCreated}
    (htopic : config.creationTopic0 = some SOLIDLY_POOL_CREATED_SIGNATURE) (hpool : event.pool ≠ 0)
    (hrecorded : storage (config.poolSlot keccak256 ((event.token0, event.token1), event.stable)) = addressWord event.pool)
    (context : CreationLogContext) :
    Agrees ((config.decodeCreation keccak256 ⟨config.factory, event.encode⟩ context).run.run latch).1
      ((config.probe keccak256 (total storage) ((event.token0, event.token1), event.stable)).run.run latch).1 := by
  have hhead : event.encode.topics.head? = some SOLIDLY_POOL_CREATED_SIGNATURE := rfl
  have hdecode : config.decodeCreation keccak256 ⟨config.factory, event.encode⟩ context =
      verifyOnce (config.derivation keccak256 event.token0 event.token1 event.stable) event.pool >>= fun _ =>
        pure (some (config.registration event.pool event.token0 event.token1 event.stable
          (.creationEvent context.blockNumber context.logIndex))) := by
    unfold SolidlyFactoryConfig.decodeCreation
    rw [htopic]
    simp only [hhead, ne_eq, not_true, or_self, if_false, orMalformed, SolidlyPoolCreated.decode_encode]
    rfl
  rw [hdecode, SolidlyFactoryConfig.probe_eq, get_total, hrecorded, lookUp_recorded hpool]
  exact agrees_of_same rfl rfl

end PoolFactory
end

/-! ### A pool of either keying -/

namespace Fork

def slipstreamPool : Address := 0xb2cc224c1c9feE385f8ad6a55b4d94E92359DC59

end Fork

namespace PoolFactory
open Fork

end PoolFactory
end AmmState.Discovery
