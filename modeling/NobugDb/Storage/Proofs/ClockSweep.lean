import NobugDb.Storage.BufferPool

/-!
# Two rounds of the clock

The first round of the hand clears the reference bit of a frame that is not pinned, so the second
one takes it, if no other was taken before.
-/

namespace NobugDb.BufferPool

namespace Frame

/-- The frame is free or not pinned. -/
def Takable (frame : Frame) : Prop := frame.isOccupied = false ∨ frame.pinCount ≤ 0

def cleared (frame : Frame) : Frame := { frame with isReferenced := false }

end Frame

variable {frames : List Frame} {hand d n : Nat} {frame : Frame}

/-- One turn of the loop: the frame under the hand is taken, or the hand moves on, with at most
    the reference bit of the frame cleared, which was set if the frame can be taken. -/
theorem sweep_succ (here : frames[hand]? = some frame) :
    (∃ next, sweep (n + 1) ⟨frames, hand⟩ = (⟨frames, next⟩, .ok hand) ∧ frame.Takable) ∨
      ∃ left : Frame, sweep (n + 1) ⟨frames, hand⟩ =
          sweep n ⟨frames.set hand left, (hand + 1) % frames.length⟩ ∧
        left.cleared = frame.cleared ∧
        (frame.Takable → frame.isReferenced = true ∧ left = frame.cleared) := by
  obtain ⟨inRange, isFrame⟩ := List.getElem?_eq_some_iff.mp here
  have eq : frames.set hand frame = frames := by rw [← isFrame, List.set_getElem_self]
  simp only [sweep, here, Frame.Takable]
  by_cases free : frame.isOccupied = false
  · exact .inl ⟨(hand + 1) % frames.length, by simp [free], .inl free⟩
  · by_cases pinned : 0 < frame.pinCount
    · exact .inr ⟨frame, by simp [free, pinned, eq], rfl, by simp [free, Int.not_le.mpr pinned]⟩
    · by_cases referenced : frame.isReferenced = true
      · exact .inr ⟨frame.cleared, by simp [free, pinned, referenced, Frame.cleared], rfl,
          by simp [referenced]⟩
      · exact .inl ⟨(hand + 1) % frames.length, by simp [free, pinned, referenced],
          .inr (Int.not_lt.mp pinned)⟩

/-- Only reference bits change, and a frame that is taken can be. -/
theorem sweep_spec (inRange : hand < frames.length) :
    (sweep n ⟨frames, hand⟩).1.frames.map Frame.cleared = frames.map Frame.cleared ∧
      ∀ victim, (sweep n ⟨frames, hand⟩).2 = .ok victim →
        ∃ frame, (frames.map Frame.cleared)[victim]? = some frame ∧ frame.Takable := by
  induction n generalizing frames hand with
  | zero => exact ⟨rfl, fun _ ok => by cases ok⟩
  | succ n ih =>
    have here := List.getElem?_eq_getElem inRange
    rcases sweep_succ (n := n) here with ⟨next, eq, takable⟩ | ⟨left, eq, same, -⟩
    · rw [eq]
      refine ⟨rfl, fun victim ok => ?_⟩
      cases ok
      exact ⟨Frame.cleared _, by rw [List.getElem?_map, here]; rfl, takable⟩
    · have kept : (frames.set hand left).map Frame.cleared = frames.map Frame.cleared := by
        rw [List.map_set, same, ← List.getElem_map Frame.cleared (h := by simpa using inRange),
          List.set_getElem_self]
      rw [eq, ← kept]
      exact ih (by simpa using Nat.mod_lt _ (Nat.zero_lt_of_lt inRange))

/-- A frame `d` places ahead that can be taken is taken, or another, in `d` turns and a round. -/
theorem sweep_finds (inRange : hand < frames.length) (near : d < frames.length)
    (ahead : frames[(hand + d) % frames.length]? = some frame) (takable : frame.Takable)
    (enough : d + frames.length < n ∨ d < n ∧ frame.isReferenced = false) :
    ∃ victim, (sweep n ⟨frames, hand⟩).2 = .ok victim := by
  induction n generalizing frames hand frame d with
  | zero => omega
  | succ n ih =>
    rcases sweep_succ (n := n) (List.getElem?_eq_getElem inRange) with
      ⟨next, eq, -⟩ | ⟨left, eq, -, clears⟩
    · exact ⟨_, by rw [eq]⟩
    rw [eq]
    have length : (frames.set hand left).length = frames.length := by simp
    have next := Nat.mod_lt (hand + 1) (Nat.zero_lt_of_lt inRange)
    have moved : ∀ d, ((hand + 1) % frames.length + d) % frames.length =
        (hand + (d + 1)) % frames.length := by
      intro d
      rw [Nat.mod_add_mod, Nat.add_right_comm, Nat.add_assoc]
    cases d with
    | zero =>
      -- The frame under the hand has lost its bit, and is a round less one turn ahead.
      rw [Nat.add_zero, Nat.mod_eq_of_lt inRange, List.getElem?_eq_getElem inRange] at ahead
      obtain rfl := Option.some.inj ahead
      obtain ⟨referenced, rfl⟩ := clears takable
      refine ih (d := frames.length - 1) (by rwa [length]) (by rw [length]; omega) ?_
        (show (Frame.cleared _).Takable from takable) (.inr ⟨?_, rfl⟩)
      · rw [length, moved, Nat.sub_add_cancel near, Nat.add_mod_right, Nat.mod_eq_of_lt inRange]
        simp [inRange]
      · rcases enough with more | ⟨-, unset⟩
        · omega
        · cases referenced.symm.trans unset
    | succ d =>
      have apart : hand ≠ (hand + (d + 1)) % frames.length := by
        rcases Nat.lt_or_ge (hand + (d + 1)) frames.length with less | more
        · rw [Nat.mod_eq_of_lt less]
          omega
        · rw [Nat.mod_eq_sub_mod more, Nat.mod_eq_of_lt (by omega)]
          omega
      refine ih (d := d) (by rwa [length]) (by rw [length]; omega) ?_ takable ?_
      · rw [length, moved, List.getElem?_set_ne apart]
        exact ahead
      · rw [length]
        exact enough.imp (by omega) (And.imp_left (by omega))

/-- `find_victim_frame` throws exactly when every frame is occupied and pinned. Otherwise it
    returns a frame that is free or not pinned. It changes reference bits and the hand only. -/
theorem findVictimFrame_spec (pool : BufferPool) (inRange : pool.clockHand < pool.frames.length) :
    ((∃ e, pool.findVictimFrame.2 = .error e) ↔
        ∀ frame ∈ pool.frames, frame.isOccupied = true ∧ 0 < frame.pinCount) ∧
      (∀ victim, pool.findVictimFrame.2 = .ok victim →
        ∃ frame, pool.frames[victim]? = some frame ∧ frame.Takable) ∧
      pool.findVictimFrame.1.frames.map Frame.cleared = pool.frames.map Frame.cleared := by
  obtain ⟨frames, hand⟩ := pool
  change hand < frames.length at inRange
  obtain ⟨kept, taken⟩ := sweep_spec (n := frames.length * 2) inRange
  have takes : ∀ victim, (findVictimFrame ⟨frames, hand⟩).2 = .ok victim →
      ∃ frame, frames[victim]? = some frame ∧ frame.Takable := by
    intro victim ok
    obtain ⟨frame, isFrame, takable⟩ := taken victim ok
    obtain ⟨original, isOriginal, rfl⟩ := Option.map_eq_some_iff.mp (List.getElem?_map ▸ isFrame)
    exact ⟨original, isOriginal, takable⟩
  refine ⟨⟨?_, ?_⟩, takes, kept⟩
  · rintro ⟨e, fails⟩ frame (mem : frame ∈ frames)
    by_contra free
    have takable : frame.Takable := by
      simpa only [Frame.Takable, not_and_or, Bool.not_eq_true, Int.not_lt] using free
    obtain ⟨i, less, rfl⟩ := List.mem_iff_getElem.mp mem
    have reached : (hand + (i + frames.length - hand) % frames.length) % frames.length = i := by
      rw [Nat.add_mod_mod, Nat.add_sub_cancel' (by omega), Nat.add_mod_right, Nat.mod_eq_of_lt less]
    have near := Nat.mod_lt (i + frames.length - hand) (Nat.zero_lt_of_lt less)
    obtain ⟨victim, ok⟩ := sweep_finds (n := frames.length * 2) inRange near
      (by rw [reached, List.getElem?_eq_getElem less]) takable (.inl (by omega))
    cases fails.symm.trans ok
  · intro pinned
    cases outcome : (findVictimFrame ⟨frames, hand⟩).2 with
    | error e => exact ⟨e, rfl⟩
    | ok victim =>
      obtain ⟨frame, isFrame, takable⟩ := takes victim outcome
      obtain ⟨occupied, held⟩ := pinned frame (List.mem_of_getElem? isFrame)
      rcases takable with free | unpinned
      · cases occupied.symm.trans free
      · omega

/-- Both frames are occupied, the first is pinned, and the second is taken in the second round. -/
theorem second_frame_taken :
    let pool : BufferPool := ⟨[{ isOccupied := true, pinCount := 1 },
      { isOccupied := true, isReferenced := true }], 0⟩
    ∃ victim, pool.findVictimFrame.2 = .ok victim := by
  intro pool
  have spec := findVictimFrame_spec pool (by decide)
  cases outcome : pool.findVictimFrame.2 with
  | ok victim => exact ⟨victim, rfl⟩
  | error e => exact absurd (spec.1.mp ⟨e, outcome⟩) (by simp [pool])

end NobugDb.BufferPool
