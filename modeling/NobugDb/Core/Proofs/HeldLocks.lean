import NobugDb.Core.Proofs.LockOwners

/-!
# Granted locks

What the functions of the lock manager do to the granted locks of an id. `release_all` goes by
`txn_tables_`, so that it takes back every granted lock rests on the keys noted there.
-/

namespace NobugDb

open Misc (AssocMap)

namespace LockManager

variable {lm : LockManager} {i j : Nat} {key : String} {mode : LockMode}

/-- A lock is granted under an id. -/
def holds (lm : LockManager) (i : Nat) : Bool :=
  lm.tables.any (fun e => e.2.any (fun req => req.granted && req.txnId = i))

theorem holds_iff :
    lm.holds i = true ↔ ∃ k req, lm.Queued k req ∧ req.granted = true ∧ req.txnId = i := by
  simp only [holds, Queued, List.any_eq_true, decide_eq_true_eq, Prod.exists, Bool.and_eq_true]
  constructor
  · rintro ⟨k, q, entry, req, mem, isI⟩
    exact ⟨k, req, ⟨q, entry, mem⟩, isI⟩
  · rintro ⟨k, req, ⟨q, entry, mem⟩, isI⟩
    exact ⟨k, q, entry, req, mem, isI⟩

theorem mentions_of_holds (held : lm.holds i = true) : lm.mentions i = true := by
  obtain ⟨k, req, queued, -, isI⟩ := holds_iff.1 held
  exact mentions_iff.2 ⟨k, req, queued, isI⟩

/-- The keys noted for an id in `txn_tables_`. -/
def noted (lm : LockManager) (i : Nat) : List String := (lm.txnTables.lookup i).getD []

def Noted (lm : LockManager) : Prop :=
  ∀ e ∈ lm.tables, ∀ req ∈ e.2, req.granted = true → e.1 ∈ lm.noted req.txnId

theorem noted_noteHeld : (lm.noteHeld i key).noted i = key :: lm.noted i ∨
    key ∈ lm.noted i ∧ (lm.noteHeld i key).noted i = lm.noted i := by
  unfold noteHeld
  dsimp only
  split
  · next there => exact .inr ⟨by simpa [noted] using there, rfl⟩
  · refine .inl ?_
    show ((AssocMap.assign i (key :: lm.noted i) lm.txnTables).lookup i).getD [] = _
    rw [Misc.lookup_assign, if_pos rfl]
    rfl

theorem mem_noted_noteHeld : key ∈ (lm.noteHeld i key).noted i := by
  obtain new | ⟨there, eq⟩ := @noted_noteHeld lm i key
  · rw [new]
    exact List.mem_cons_self
  · rwa [eq]

theorem noted_noteHeld_of_ne (ne : j ≠ i) : (lm.noteHeld i key).noted j = lm.noted j := by
  unfold noteHeld
  dsimp only
  split
  · rfl
  · show ((AssocMap.assign i _ lm.txnTables).lookup j).getD [] = _
    rw [Misc.lookup_assign, if_neg ne]
    rfl

theorem noted_subset_noteHeld {k : String} (there : k ∈ lm.noted j) :
    k ∈ (lm.noteHeld i key).noted j := by
  by_cases eq : j = i
  · subst eq
    obtain new | ⟨-, kept⟩ := @noted_noteHeld lm j key
    · rw [new]
      exact List.mem_cons_of_mem _ there
    · rwa [kept]
  · rwa [noted_noteHeld_of_ne eq]

variable {req : LockRequest}

theorem Noted.of_queued {k : String} (noted : lm.Noted) (queued : lm.Queued k req)
    (got : req.granted = true) : k ∈ lm.noted req.txnId := by
  obtain ⟨q, entry, mem⟩ := queued
  exact noted (k, q) entry req mem got

/-- Asking grants nothing, and what is granted to the id already is noted. -/
theorem holds_request (held : (lm.request i key mode).1.holds j = true) : lm.holds j = true := by
  obtain ⟨k, req, queued, got, isJ⟩ := holds_iff.1 held
  obtain old | rfl := queued_request queued
  · exact holds_iff.2 ⟨k, req, old, got, isJ⟩
  · cases got

theorem Noted.request (noted : lm.Noted) : (lm.request i key mode).1.Noted := by
  intro e entry req mem got
  obtain old | rfl := queued_request ⟨e.2, entry, mem⟩
  · have there := noted.of_queued old got
    unfold LockManager.request
    split
    · exact noted_subset_noteHeld there
    · exact there
  · cases got

theorem holds_attempt (held : (lm.attempt i key mode).1.holds j = true) :
    lm.holds j = true ∨ j = i ∧ (lm.attempt i key mode).2 = .granted := by
  obtain ⟨k, req, queued, got, rfl⟩ := holds_iff.1 held
  obtain old | ⟨-, isI, turn, -⟩ := queued_attempt queued
  · exact .inl (holds_iff.2 ⟨k, req, old, got, rfl⟩)
  · exact .inr ⟨isI, turn⟩

theorem Noted.attempt (noted : lm.Noted) : (lm.attempt i key mode).1.Noted := by
  intro e entry req mem got
  obtain old | ⟨isKey, isI, turn, -⟩ := queued_attempt ⟨e.2, entry, mem⟩
  · have there := noted.of_queued old got
    unfold LockManager.attempt
    split_ifs
    · exact noted_subset_noteHeld there
    · exact there
    · exact there
  · unfold LockManager.attempt at turn ⊢
    split_ifs at turn ⊢
    rw [isKey, isI]
    exact mem_noted_noteHeld

theorem Noted.holds_releaseAll (noted : lm.Noted) (held : (lm.releaseAll i).holds j = true) :
    j ≠ i ∧ lm.holds j = true := by
  obtain ⟨k, req, queued, got, rfl⟩ := holds_iff.1 held
  obtain ⟨old, gone⟩ := queued_releaseAll queued
  refine ⟨fun isI => ?_, holds_iff.2 ⟨k, req, old, got, rfl⟩⟩
  exact gone (isI ▸ noted.of_queued old got) isI

theorem Noted.releaseAll (noted : lm.Noted) : (lm.releaseAll i).Noted := by
  intro e entry req mem got
  obtain ⟨old, gone⟩ := queued_releaseAll ⟨e.2, entry, mem⟩
  have there := noted.of_queued old got
  by_cases isI : req.txnId = i
  · exact absurd isI (gone (isI ▸ there))
  · show e.1 ∈ ((AssocMap.erase i lm.txnTables).lookup req.txnId).getD []
    rw [Misc.lookup_erase, if_neg isI]
    exact there

end LockManager

end NobugDb
