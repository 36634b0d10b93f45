import GridTick.Tick.Tick

/-!
# GridTick.Tick.Ticker — the engine, from start to shutdown

A `Ticker` is a checked configuration and a pool.  It either starts a pool of the configured size, or is given one
and says so when the sizes differ.
-/

namespace GridTick

/-- The engine at work. -/
structure Ticker where
  config : Config
  executor : Executor
deriving Repr

namespace Ticker

/-- An engine on a given pool, and what it logs at its start. -/
def ofExecutor (config : Config) (executor : Executor) : Ticker × List Notice :=
  let (config, notices) := config.validate
  if config.threads.toNat = executor.threads then (⟨config, executor⟩, notices)
  else (⟨config, executor⟩, notices ++ [.sizeDiffers config.threads executor.threads])

/-- An engine on a pool of its own, and what it logs at its start. -/
def start (config : Config) : Ticker × List Notice :=
  let (config, notices) := config.validate
  let (ticker, more) := ofExecutor config (Executor.ofConfig config)
  (ticker, notices ++ more)

/-- One tick. -/
def tick {σ C E : Type} (t : Ticker) (w : World σ C E) (plan : Plan) (turn : Turn C) (s : σ) : TickResult σ C E :=
  GridTick.tick w t.config.enable plan turn s

/-- End the engine, waiting for its workers as long as it is configured to. -/
def shutdown (t : Ticker) (clock : Clock) (receipts : List Receipt) : Except Fault (Except TickError Unit) :=
  t.executor.shutdown clock t.config.timeout receipts

end Ticker

end GridTick
