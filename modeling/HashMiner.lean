import HashMiner.Foundation.Bytes
import HashMiner.Foundation.Abi
import HashMiner.Foundation.Machine
import HashMiner.Foundation.Clients
import HashMiner.Foundation.Callee
import HashMiner.Foundation.Ascending
import HashMiner.Foundation.Accounts
import HashMiner.Foundation.Revert
import HashMiner.Foundation.Words
import HashMiner.Foundation.Rounding
import HashMiner.Foundation.Watch
import HashMiner.Foundation.Mpsc
import HashMiner.Foundation.Keccak.Permutation
import HashMiner.Foundation.Keccak.Sponge
import HashMiner.Types
import HashMiner.Chain.Challenge
import HashMiner.Chain.Contract
import HashMiner.Chain.Encoding
import HashMiner.Chain.Watcher
import HashMiner.Chain.Freshness
import HashMiner.Chain.Consistency
import HashMiner.Chain.Fake
import HashMiner.Contract.Mining
import HashMiner.Contract.FullMath
import HashMiner.Contract.Erc20
import HashMiner.Contract.Price
import HashMiner.Contract.TickMath
import HashMiner.Contract.Liquidity
import HashMiner.Contract.Swap
import HashMiner.Contract.Emission
import HashMiner.Contract.Hash
import HashMiner.Contract.Hooks
import HashMiner.Contract.Settlement
import HashMiner.Contract.Moves
import HashMiner.Contract.Guard
import HashMiner.Contract.Genesis
import HashMiner.Contract.Replay
import HashMiner.Contract.Reserves
import HashMiner.Contract.Frozen
import HashMiner.Contract.Views
import HashMiner.Kernel.Device
import HashMiner.Kernel.Permutation
import HashMiner.Kernel.Mine
import HashMiner.Kernel.Election
import HashMiner.Gpu.Runtime
import HashMiner.Gpu.Acceptance
import HashMiner.Gpu.Launch
import HashMiner.Gpu.Worker
import HashMiner.Gpu.Coverage
import HashMiner.Gpu.Provenance
import HashMiner.Gpu.Backpressure
import HashMiner.Gpu.Handover
import HashMiner.Gpu.Shutdown
import HashMiner.Gpu.Fake
import HashMiner.Tx.Submitter
import HashMiner.Tx.NonceGate
import HashMiner.Tx.Account
import HashMiner.Tx.Gapless
import HashMiner.Tx.InFlight
import HashMiner.Tx.Landing
import HashMiner.Tx.Relay
import HashMiner.Tx.Staleness
import HashMiner.Tx.Gate
import HashMiner.Tx.Receipt
import HashMiner.Tx.Confirmation
import HashMiner.Tx.Reward
import HashMiner.Metrics.Journal
import HashMiner.Wallet.KeyText
import HashMiner.Wallet.KeyGrammar
import HashMiner.Wallet.Keystore
import HashMiner.Wallet.ImportKey
import HashMiner.Miner
import HashMiner.Miner.ProofOfWork
import HashMiner.Miner.Robustness
import HashMiner.Miner.Delivery
import HashMiner.Miner.Novelty
import HashMiner.Miner.OnChain
import HashMiner.Miner.Reports
