import GridTick.Tick.Program

/-!
# GridTick.Tick.Contract — offering an entity its tick

An entity that was removed or is frozen is passed over.  Otherwise it first gets the chance to despawn.  Then, if it
rides a vehicle that is still there and still lists it, it is left to the vehicle; if its vehicle is gone or no longer
lists it, it is taken off and ticked by itself; if it rides nothing, it is ticked.

* `contract`: the calls made for one entity.
* `offer`: the same between two notes, so that the history shows who was offered a tick.
-/

namespace GridTick

namespace Program

variable {C E : Type}

/-- Whether a vehicle still carries an entity: it is there, and it lists the entity. -/
def stillCarries (vehicle entity : E) : Program C E Bool := do
  let gone ← call (.isRemoved vehicle)
  if gone then return false
  else call (.hasPassenger vehicle entity)

/-- What happens once an entity is known to take part: it may despawn, and it is ticked unless its vehicle does it. -/
def takePart (entity : E) : Program C E EntityTick := do
  call (.checkDespawn entity)
  let vehicle ← call (.vehicle entity)
  match vehicle with
  | none =>
    call (.tickEntity entity)
    return .ticked false
  | some v =>
    let carried ← stillCarries v entity
    if carried then return .passenger
    else
      call (.stopRiding entity)
      call (.tickEntity entity)
      return .ticked true

def contract (entity : E) : Program C E EntityTick := do
  let gone ← call (.isRemoved entity)
  if gone then return .removed
  else
    let frozen ← call (.isFrozen entity)
    if frozen then return .frozen
    else takePart entity

def offer (entity : E) : Program C E EntityTick := do
  note (.offered entity)
  let result ← contract entity
  note (.settled entity result)
  return result

/-- Offer each entity its tick, in order. -/
def offerAll : List E → Program C E Unit
  | [] => return ()
  | e :: rest => do
    let _ ← offer e
    offerAll rest

end Program

end GridTick
