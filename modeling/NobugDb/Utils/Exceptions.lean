import Mathlib

/-!
# Exceptions

The exception classes of `include/utils/exceptions.h` that the modelled code throws, and the
standard library's `std::out_of_range`, `std::invalid_argument` and
`std::filesystem::filesystem_error`. `undefined` stands for a point at which the C++ program has
undefined behaviour (an integer division by zero, a read past the end of a range).
-/

namespace NobugDb

/-- The classes of exceptions. -/
inductive ExnKind where
  | parse
  | constraint
  | type
  | notFound
  | invalidOperation
  | storage
  | deadlock
  | outOfRange
  | invalidArgument
  | filesystem
  | undefined
  deriving DecidableEq, Repr

/-- An exception with the message it was constructed from. -/
structure Exn where
  kind : ExnKind
  message : String
  deriving DecidableEq, Repr

namespace Exn

/-- `what()`: each database exception puts the name of its class before the message. -/
def what (e : Exn) : String :=
  match e.kind with
  | .parse => "Parse Error: " ++ e.message
  | .constraint => "Constraint Error: " ++ e.message
  | .type => "Type Error: " ++ e.message
  | .notFound => "Not Found: " ++ e.message
  | .invalidOperation => "Invalid Operation: " ++ e.message
  | .storage => "Storage Error: " ++ e.message
  | .deadlock => "Deadlock Error: " ++ e.message
  | .outOfRange => e.message
  | .invalidArgument => e.message
  | .filesystem => e.message
  | .undefined => e.message

/-- A computation that ends without an exception, and its first step. -/
theorem bind_eq_ok {ε α β : Type} {x : Except ε α} {f : α → Except ε β} {b : β}
    (done : (x >>= f) = .ok b) : ∃ a, x = .ok a ∧ f a = .ok b := by
  cases x with
  | error e => cases done
  | ok a => exact ⟨a, rfl, done⟩

theorem mapM_eq_ok_iff {ε α β : Type} {f : α → Except ε β} {l : List α} {results : List β} :
    l.mapM f = .ok results ↔ l.map (fun a => (f a).toOption) = results.map some := by
  induction l generalizing results with
  | nil => cases results <;> simp [pure, Except.pure]
  | cons a l ih =>
    rw [List.mapM_cons, List.map_cons]
    constructor
    · intro done
      obtain ⟨b, fst, done⟩ := bind_eq_ok done
      obtain ⟨bs, rest, done⟩ := bind_eq_ok done
      cases done
      rw [fst, ih.mp rest]
      rfl
    · intro eq
      cases results with
      | nil => cases eq
      | cons b bs =>
        obtain ⟨fst, rest⟩ := List.cons.inj eq
        cases isFirst : f a with
        | error e =>
          rw [isFirst] at fst
          cases fst
        | ok c =>
          rw [isFirst] at fst
          cases fst
          rw [ih.mpr rest]
          rfl

/-- Steps that may throw, from states that are related. -/
theorem foldlM_congr {ε σ α : Type} {step : σ → α → Except ε σ} {R : σ → σ → Prop}
    (congr : ∀ s t a s', R s t → step s a = .ok s' → ∃ t', step t a = .ok t' ∧ R s' t')
    {l : List α} {s t s' : σ} (related : R s t) (done : l.foldlM step s = .ok s') :
    ∃ t', l.foldlM step t = .ok t' ∧ R s' t' := by
  induction l generalizing s t with
  | nil =>
    cases done
    exact ⟨t, rfl, related⟩
  | cons a l ih =>
    rw [List.foldlM_cons] at done
    obtain ⟨s₁, fst, done⟩ := bind_eq_ok done
    obtain ⟨t₁, firstToo, related⟩ := congr s t a s₁ related fst
    rw [List.foldlM_cons, firstToo]
    exact ih related done

/-- Steps that may throw and commute can be taken in any order. -/
theorem foldlM_perm {ε σ α : Type} {step : σ → α → Except ε σ} {R : σ → σ → Prop} (refl : ∀ s, R s s)
    (trans : ∀ s t u, R s t → R t u → R s u)
    (congr : ∀ s t a s', R s t → step s a = .ok s' → ∃ t', step t a = .ok t' ∧ R s' t')
    (comm : ∀ s a b s₁ s₂, step s a = .ok s₁ → step s₁ b = .ok s₂ →
      ∃ t₁ t₂, step s b = .ok t₁ ∧ step t₁ a = .ok t₂ ∧ R s₂ t₂)
    {l l' : List α} (perm : l.Perm l') {s s' : σ} (done : l.foldlM step s = .ok s') :
    ∃ t', l'.foldlM step s = .ok t' ∧ R s' t' := by
  induction perm generalizing s s' with
  | nil => exact ⟨s', done, refl s'⟩
  | cons a _ ih =>
    rw [List.foldlM_cons] at done ⊢
    obtain ⟨s₁, fst, done⟩ := bind_eq_ok done
    rw [fst]
    exact ih done
  | swap a b l =>
    rw [List.foldlM_cons] at done
    obtain ⟨s₁, fst, done⟩ := bind_eq_ok done
    rw [List.foldlM_cons] at done
    obtain ⟨s₂, snd, done⟩ := bind_eq_ok done
    obtain ⟨t₁, t₂, firstToo, secondToo, related⟩ := comm s b a s₁ s₂ fst snd
    rw [List.foldlM_cons, firstToo]
    show ∃ t', (b :: l).foldlM step t₁ = .ok t' ∧ R s' t'
    rw [List.foldlM_cons, secondToo]
    exact foldlM_congr congr related done
  | trans _ _ ih₁ ih₂ =>
    obtain ⟨t, done, related⟩ := ih₁ done
    obtain ⟨u, done, relatedToo⟩ := ih₂ done
    exact ⟨u, done, trans _ _ _ related relatedToo⟩

end Exn

end NobugDb
