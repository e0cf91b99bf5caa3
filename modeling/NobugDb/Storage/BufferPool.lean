import NobugDb.Storage.Page

/-!
# The buffer pool's clock

The frames of `BufferPool` (`src/storage/buffer_pool.cc`) and the search for one to evict.
-/

namespace NobugDb

structure BufferPool.Frame where
  page : Page := []
  fileId : Nat := 0
  pageId : Nat := 0
  pinCount : Int := 0
  isDirty : Bool := false
  isReferenced : Bool := false
  isOccupied : Bool := false

structure BufferPool where
  frames : List BufferPool.Frame
  clockHand : Nat

namespace BufferPool

/-- The loop of `find_victim_frame` with the number of frames it may still examine. -/
def sweep : Nat → BufferPool → BufferPool × Except Exn Nat
  | 0, pool => (pool, .error ⟨.storage, "No free buffer frame available (all pinned)"⟩)
  | n + 1, pool =>
    match pool.frames[pool.clockHand]? with
    | none => (pool, .error ⟨.undefined, "clock hand past the last frame"⟩)
    | some frame =>
      let victim := pool.clockHand
      let pool := { pool with clockHand := (victim + 1) % pool.frames.length }
      if !frame.isOccupied then (pool, .ok victim)
      else if 0 < frame.pinCount then sweep n pool
      else if frame.isReferenced then
        sweep n { pool with frames := pool.frames.set victim { frame with isReferenced := false } }
      else (pool, .ok victim)

/-- `BufferPool::find_victim_frame` (`buffer_pool.cc:82-103`): the pool it leaves and its outcome. -/
def findVictimFrame (pool : BufferPool) : BufferPool × Except Exn Nat :=
  sweep (pool.frames.length * 2) pool

end BufferPool

end NobugDb
