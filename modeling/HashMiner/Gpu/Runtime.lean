import HashMiner.Kernel.Election

/-!
# The device runtime

`hotSwap` loads a challenge and a target into device buffers, `launchMine` runs
the kernel once over a batch of nonces. What the driver answers to each call is
an argument; so is the order in which the threads of a launch take their steps.
-/

namespace HashMiner.Gpu

open Foundation Kernel

structure GpuRuntime where
  challengeBuf : Vector U64 4
  targetBuf : Vector U64 4
  resultBuf : U64
  foundBuf : U32
  epochIdHost : U32

/-- A copy to the device; one that fails leaves the buffer in an unknown state. -/
inductive Copy (Buffer : Type) where
  | done
  | failed (error : String) (left : Buffer)

structure HotSwapCalls where
  challenge : Copy (Vector U64 4)
  target : Copy (Vector U64 4)
  sync : Option String

structure LaunchCalls where
  resetFound : Copy U32
  resetResult : Copy U64
  launch : Option String
  sync : Option String
  dtohFound : Option String
  dtohResult : Option String
  schedule : List Nat

inductive Launched where
  | ok (nonce : Option U64)
  | err (error : MinerError)
  | panicked

def challengeLanes (challenge : B256) : Vector U64 4 :=
  let cb := challenge.toList
  #v[leWord ((cb.drop 0).take 8), leWord ((cb.drop 8).take 8), leWord ((cb.drop 16).take 8),
    leWord ((cb.drop 24).take 8)]

def targetLanes (target : U256) : Vector U64 4 :=
  let tb := beBytes 32 target.toNat
  #v[beWord ((tb.drop 0).take 8), beWord ((tb.drop 8).take 8), beWord ((tb.drop 16).take 8),
    beWord ((tb.drop 24).take 8)]

/-- `(batch_size / block_size as u64) as u32` -/
def gridCount (batchSize : U64) (blockSize : U32) : U32 :=
  (batchSize / blockSize.setWidth 64).setWidth 32

namespace GpuRuntime

def init : GpuRuntime := ⟨Vector.replicate 4 0, Vector.replicate 4 0, 0, 0, 0⟩

def hotSwap (rt : GpuRuntime) (challenge : B256) (target : U256) (epochId : U32)
    (calls : HotSwapCalls) : Except MinerError Unit × GpuRuntime :=
  match calls.challenge with
  | .failed e left => (.error (.gpu ("htod challenge: " ++ e)), { rt with challengeBuf := left })
  | .done =>
    let rt := { rt with challengeBuf := challengeLanes challenge }
    match calls.target with
    | .failed e left => (.error (.gpu ("htod target: " ++ e)), { rt with targetBuf := left })
    | .done =>
      let rt := { rt with targetBuf := targetLanes target, epochIdHost := epochId }
      match calls.sync with
      | some e => (.error (.gpu ("hot_swap sync: " ++ e)), rt)
      | none => (.ok (), rt)

def launch (rt : GpuRuntime) (nonceStart batchSize : U64) (blockSize : U32) : Launch :=
  ⟨rt.challengeBuf, rt.targetBuf, nonceStart, gridCount batchSize blockSize, blockSize⟩

/-- `none` says that the schedule is not one of the launch: a thread steps outside
the grid or after its exit, or the host is told to go on before all have exited. -/
def launchMine (rt : GpuRuntime) (nonceStart batchSize : U64) (blockSize : U32)
    (calls : LaunchCalls) : Option (Launched × GpuRuntime) :=
  match calls.resetFound with
  | .failed e left => some (.err (.gpu ("reset found: " ++ e)), { rt with foundBuf := left })
  | .done =>
    let rt := { rt with foundBuf := 0 }
    match calls.resetResult with
    | .failed e left => some (.err (.gpu ("reset result: " ++ e)), { rt with resultBuf := left })
    | .done =>
      let rt := { rt with resultBuf := 0 }
      if blockSize = 0 then some (.panicked, rt) else
      match calls.launch with
      | some e => some (.err (.gpu ("launch mine: " ++ e)), rt)
      | none =>
        let l := rt.launch nonceStart batchSize blockSize
        match (Grid.machine l).run (.start rt.foundBuf rt.resultBuf) calls.schedule with
        | none => none
        | some grid =>
          let rt := { rt with foundBuf := grid.found, resultBuf := grid.result }
          match calls.sync with
          | some e => some (.err (.gpu ("launch sync: " ++ e)), rt)
          | none =>
            if grid.Complete l then
              match calls.dtohFound with
              | some e => some (.err (.gpu ("dtoh found: " ++ e)), rt)
              | none =>
                if rt.foundBuf ≠ 0 then
                  match calls.dtohResult with
                  | some e => some (.err (.gpu ("dtoh result: " ++ e)), rt)
                  | none => some (.ok (some rt.resultBuf), rt)
                else some (.ok none, rt)
            else none

end GpuRuntime

end HashMiner.Gpu
