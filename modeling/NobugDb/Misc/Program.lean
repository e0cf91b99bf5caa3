import NobugDb.Misc.Run

/-!
# Programs of operations

A program performs operations on a state and goes on with their responses. An operation may
have to wait; the program then stops in front of it and is taken up again later. A program is
kept as a tree, so that a condition on every operation it performs, or an invariant each
operation preserves, is stated once and proved by induction on the tree.
-/

namespace NobugDb.Misc

/-- A program over the operations `P` with the responses `R`. -/
inductive Program (P R α : Type) where
  | done (a : α)
  | perform (p : P) (next : R → Program P R α)

namespace Program

variable {P R α β σ τ : Type}

def bind : Program P R α → (α → Program P R β) → Program P R β
  | done a, f => f a
  | perform p next, f => perform p (fun r => bind (next r) f)

instance : Monad (Program P R) where
  pure := done
  bind := bind

theorem bind_done (program : Program P R α) : program.bind done = program := by
  induction program with
  | done a => rfl
  | perform p next ih => exact congrArg (perform p) (funext ih)

theorem bind_bind {γ : Type} (program : Program P R α) (f : α → Program P R β)
    (g : β → Program P R γ) : (program.bind f).bind g = program.bind (fun a => (f a).bind g) := by
  induction program with
  | done a => rfl
  | perform p next ih => exact congrArg (perform p) (funext ih)

instance : LawfulMonad (Program P R) :=
  LawfulMonad.mk' _ bind_done (fun _ _ => rfl) bind_bind

def operation (p : P) : Program P R R := perform p done

/-- Runs a program until it ends or an operation has to wait: the state it leaves, and what
    remains of the program. -/
def exec (step : σ → P → Option (σ × R)) : σ → Program P R α → σ × Program P R α
  | s, done a => (s, done a)
  | s, perform p next =>
    match step s p with
    | none => (s, perform p next)
    | some (s', r) => exec step s' (next r)

/-- The operations `exec` performs, each with the state it is performed in. -/
def performed (step : σ → P → Option (σ × R)) : σ → Program P R α → List (σ × P)
  | _, done _ => []
  | s, perform p next =>
    match step s p with
    | none => []
    | some (s', r) => (s, p) :: performed step s' (next r)

@[simp] theorem exec_done (step : σ → P → Option (σ × R)) (s : σ) (a : α) :
    exec step s (done a : Program P R α) = (s, done a) := rfl

@[simp] theorem performed_done (step : σ → P → Option (σ × R)) (s : σ) (a : α) :
    performed step s (done a : Program P R α) = [] := rfl

section Step

variable {step : σ → P → Option (σ × R)} {s s' : σ} {p : P} {r : R} {next : R → Program P R α}

theorem exec_waits (waits : step s p = none) : exec step s (perform p next) = (s, perform p next) := by
  simp only [exec, waits]

theorem exec_perform (ran : step s p = some (s', r)) :
    exec step s (perform p next) = exec step s' (next r) := by
  simp only [exec, ran]

theorem performed_waits (waits : step s p = none) : performed step s (perform p next) = [] := by
  simp only [performed, waits]

theorem performed_perform (ran : step s p = some (s', r)) :
    performed step s (perform p next) = (s, p) :: performed step s' (next r) := by
  simp only [performed, ran]

end Step

variable {step : σ → P → Option (σ × R)} {program : Program P R α}

/-- A state that follows the operations, beside the one they act on, stays related to it. -/
theorem exec_simulation {step : σ → P → Option (σ × R)} {follow : τ → σ × P → τ}
    {I : σ → τ → Prop} {program : Program P R α} {s : σ} {t : τ}
    (pres : ∀ e ∈ performed step s program, ∀ s' r t, step e.1 e.2 = some (s', r) →
      I e.1 t → I s' (follow t e))
    (start : I s t) :
    I (exec step s program).1 ((performed step s program).foldl follow t) := by
  induction program generalizing s t with
  | done a => exact start
  | perform p next ih =>
    cases ran : step s p with
    | none =>
      rw [exec_waits ran, performed_waits ran]
      exact start
    | some res =>
      obtain ⟨s', r⟩ := res
      rw [performed_perform ran] at pres
      rw [exec_perform ran, performed_perform ran]
      refine ih r (fun e mem => pres e (by simp [mem])) ?_
      exact pres (s, p) (by simp) s' r t ran start

theorem exec_inv {step : σ → P → Option (σ × R)} {I : σ → Prop} {program : Program P R α} {s : σ}
    (pres : ∀ e ∈ performed step s program, ∀ s' r, step e.1 e.2 = some (s', r) → I e.1 → I s')
    (start : I s) : I (exec step s program).1 := by
  refine @exec_simulation P R α σ Unit step (fun t _ => t) (fun s _ => I s) program s () ?_ start
  exact fun e mem s' r _ ran => pres e mem s' r ran

theorem performed_inv {I : σ → Prop} {s : σ}
    (pres : ∀ e ∈ performed step s program, ∀ s' r, step e.1 e.2 = some (s', r) →
      I e.1 → I s') (start : I s) : ∀ e ∈ performed step s program, I e.1 := by
  induction program generalizing s with
  | done a => simp
  | perform p next ih =>
    cases ran : step s p with
    | none => simp [performed_waits ran]
    | some res =>
      obtain ⟨s', r⟩ := res
      rw [performed_perform ran] at pres ⊢
      intro e mem
      rcases List.mem_cons.mp mem with rfl | mem
      · exact start
      · exact ih r (fun e mem => pres e (by simp [mem]))
          (pres (s, p) (by simp) s' r ran start) e mem

/-- What related states give of an operation holds of every operation, each with the state that
    has followed the ones before it. -/
theorem performed_meets {follow : τ → σ × P → τ} {I : σ → τ → Prop} {ok : τ → σ × P → Prop} {s : σ}
    {t : τ} (pres : ∀ e ∈ performed step s program, ∀ s' r t, step e.1 e.2 = some (s', r) →
      I e.1 t → I s' (follow t e)) (gives : ∀ e ∈ performed step s program, ∀ t, I e.1 t → ok t e)
    (start : I s t) : Meets follow ok t (performed step s program) := by
  induction program generalizing s t with
  | done a => trivial
  | perform p next ih =>
    cases ran : step s p with
    | none =>
      rw [performed_waits ran]
      trivial
    | some res =>
      obtain ⟨s', r⟩ := res
      rw [performed_perform ran] at pres gives ⊢
      refine ⟨gives (s, p) (by simp) t start, ?_⟩
      refine ih r (fun e mem => pres e (by simp [mem])) (fun e mem => gives e (by simp [mem])) ?_
      exact pres (s, p) (by simp) s' r t ran start

/-- The states an operation finds are ordered, and come before the state the program leaves, by a
    relation that holds across each operation. -/
theorem performed_pairwise {I : σ → Prop} {before : σ → σ → Prop} {s : σ} (refl : ∀ s, before s s)
    (trans : ∀ a b c, before a b → before b c → before a c)
    (ord : ∀ e ∈ performed step s program, ∀ s' r, step e.1 e.2 = some (s', r) →
      I e.1 → I s' ∧ before e.1 s') (start : I s) :
    ((performed step s program).map Prod.fst ++ [(exec step s program).1]).Pairwise before ∧
      ∀ x ∈ (performed step s program).map Prod.fst ++ [(exec step s program).1], before s x := by
  induction program generalizing s with
  | done a => simp [refl]
  | perform p next ih =>
    cases ran : step s p with
    | none => simp [performed_waits ran, exec_waits ran, refl]
    | some res =>
      obtain ⟨s', r⟩ := res
      rw [performed_perform ran] at ord
      rw [performed_perform ran, exec_perform ran]
      obtain ⟨kept, first⟩ := ord (s, p) (by simp) s' r ran start
      obtain ⟨later, after⟩ := ih r (fun e mem => ord e (by simp [mem])) kept
      have fromHere (x : σ) (mem : x ∈ (performed step s' (next r)).map Prod.fst ++
          [(exec step s' (next r)).1]) : before s x := trans s s' x first (after x mem)
      refine ⟨List.pairwise_cons.mpr ⟨fromHere, later⟩, fun x mem => ?_⟩
      obtain rfl | mem := List.mem_cons.mp mem
      · exact refl _
      · exact fromHere x mem

/-! ## Programs that run to their end -/

/-- From `s` the program runs to its end, with the result `a`, and leaves `s'`. -/
def Runs (step : σ → P → Option (σ × R)) (s : σ) (program : Program P R α) (s' : σ) (a : α) : Prop :=
  exec step s program = (s', done a)

/-- The result of a program that has come to its end. -/
def result? : Program P R α → Option α
  | done a => some a
  | perform _ _ => none

section Runs

variable {step : σ → P → Option (σ × R)} {s s' : σ} {a b : α}

@[simp] theorem runs_done_iff : Runs step s (done a) s' b ↔ s' = s ∧ b = a := by
  unfold Runs
  rw [exec_done, Prod.mk.injEq, done.injEq]
  exact and_congr eq_comm eq_comm

theorem runs_perform_iff {p : P} {next : R → Program P R α} :
    Runs step s (perform p next) s' b ↔
      ∃ s₁ r, step s p = some (s₁, r) ∧ Runs step s₁ (next r) s' b := by
  unfold Runs
  cases ran : step s p with
  | none => simp [exec_waits ran]
  | some res =>
    obtain ⟨s₁, r⟩ := res
    rw [exec_perform ran]
    simp

variable {program : Program P R α}

theorem runs_bind_iff {f : α → Program P R β} {c : β} :
    Runs step s (program.bind f) s' c ↔
      ∃ s₁ a, Runs step s program s₁ a ∧ Runs step s₁ (f a) s' c := by
  induction program generalizing s with
  | done a => simp [bind]
  | perform p next ih =>
    simp only [bind, runs_perform_iff, ih]
    grind

theorem mem_performed_bind {f : α → Program P R β} {e : σ × P} :
    e ∈ performed step s (program.bind f) ↔
      e ∈ performed step s program ∨
        ∃ s₁ a, Runs step s program s₁ a ∧ e ∈ performed step s₁ (f a) := by
  induction program generalizing s with
  | done a => simp [bind]
  | perform p next ih =>
    simp only [bind]
    cases ran : step s p with
    | none => simp [performed_waits ran, runs_perform_iff, ran]
    | some res =>
      obtain ⟨s₁, r⟩ := res
      rw [performed_perform ran, performed_perform ran, List.mem_cons, List.mem_cons,
        ih r, or_assoc]
      simp [runs_perform_iff, ran]

theorem runs_of_result {program : Program P R α} (ends : (exec step s program).2.result? = some a) :
    Runs step s program (exec step s program).1 a := by
  unfold Runs
  generalize exec step s program = reached at ends ⊢
  obtain ⟨s', rest⟩ := reached
  cases rest with
  | done b =>
    cases ends
    rfl
  | perform p next => cases ends

theorem Runs.unique {t : σ} (fst : Runs step s program s' a) (snd : Runs step s program t b) :
    s' = t ∧ a = b := by
  unfold Runs at fst snd
  rw [fst, Prod.mk.injEq, done.injEq] at snd
  exact snd

end Runs

/-- Every operation in the program, on every path through it, is one of `Q`. -/
def All (Q : P → Prop) : Program P R α → Prop
  | done _ => True
  | perform p next => Q p ∧ ∀ r, All Q (next r)

section All

variable {Q Q' : P → Prop}

variable {program : Program P R α} {step : σ → P → Option (σ × R)}

theorem All.mono (sub : ∀ p, Q p → Q' p) (all : program.All Q) : program.All Q' := by
  induction program with
  | done a => trivial
  | perform p next ih => exact ⟨sub p all.1, fun r => ih r (all.2 r)⟩

theorem All.bind {f : α → Program P R β} (fst : program.All Q) (rest : ∀ a, (f a).All Q) :
    (program.bind f).All Q := by
  induction program with
  | done a => exact rest a
  | perform p next ih => exact ⟨fst.1, fun r => ih r (fst.2 r)⟩

theorem All.performed {s : σ} (all : program.All Q) : ∀ e ∈ performed step s program, Q e.2 := by
  induction program generalizing s with
  | done a => simp
  | perform p next ih =>
    intro e mem
    cases ran : step s p with
    | none =>
      rw [performed_waits ran] at mem
      cases mem
    | some res =>
      rw [performed_perform ran] at mem
      rcases List.mem_cons.mp mem with rfl | mem
      · exact all.1
      · exact ih res.2 (all.2 res.2) e mem

theorem All.rest (all : program.All Q) (s : σ) : (exec step s program).2.All Q := by
  induction program generalizing s with
  | done a => trivial
  | perform p next ih =>
    cases ran : step s p with
    | none =>
      rw [exec_waits ran]
      exact all
    | some res =>
      rw [exec_perform ran]
      exact ih res.2 (all.2 res.2) res.1

theorem All.keeps {I : σ → Prop} {s s' : σ} {a : α} (all : program.All Q)
    (pres : ∀ s p s' r, Q p → step s p = some (s', r) → I s → I s')
    (runs : Runs step s program s' a) (start : I s) : I s' := by
  induction program generalizing s with
  | done b =>
    rw [(runs_done_iff.mp runs).1]
    exact start
  | perform p next ih =>
    obtain ⟨s₁, r, ran, runs⟩ := runs_perform_iff.mp runs
    exact ih r (all.2 r) runs (pres s p s₁ r all.1 ran start)

theorem All.ends {step : σ → P → Option (σ × R)} {program : Program P R α} (all : program.All Q)
    (responds : ∀ p, Q p → ∀ s, (step s p).isSome = true) (s : σ) :
    ∃ s' a, Runs step s program s' a := by
  induction program generalizing s with
  | done a => exact ⟨s, a, rfl⟩
  | perform p next ih =>
    obtain ⟨⟨s₁, r⟩, ran⟩ := Option.isSome_iff_exists.mp (responds p all.1 s)
    obtain ⟨s', a, runs⟩ := ih r (all.2 r) s₁
    exact ⟨s', a, runs_perform_iff.mpr ⟨s₁, r, ran, runs⟩⟩

end All

/-! ## Invariants and values -/

/-- Every operation, performed where `I` holds, keeps `I`, and the value satisfies `post`. -/
def Upholds (step : σ → P → Option (σ × R)) (I : σ → Prop) (post : α → Prop) : Program P R α → Prop
  | done a => post a
  | perform p next => ∀ s s' r, I s → step s p = some (s', r) → I s' ∧ Upholds step I post (next r)

/-- On every path through the program each operation is one of `Q`, and the value satisfies
    `post`. -/
def AllTo (Q : P → Prop) (post : α → Prop) : Program P R α → Prop
  | done a => post a
  | perform p next => Q p ∧ ∀ r, AllTo Q post (next r)

section Upholds

variable {step : σ → P → Option (σ × R)} {I : σ → Prop} {post : α → Prop} {post' : β → Prop}
  {Q : P → Prop} {program : Program P R α}

theorem Upholds.bind {f : α → Program P R β} (fst : program.Upholds step I post)
    (rest : ∀ a, post a → (f a).Upholds step I post') : (program.bind f).Upholds step I post' := by
  induction program with
  | done a => exact rest a fst
  | perform p next ih =>
    intro s s' r holds ran
    obtain ⟨kept, follows⟩ := fst s s' r holds ran
    exact ⟨kept, ih r follows⟩

theorem Upholds.mono {post' : α → Prop} (upholds : program.Upholds step I post)
    (weaker : ∀ a, post a → post' a) : program.Upholds step I post' := by
  induction program with
  | done a => exact weaker a upholds
  | perform p next ih =>
    intro s s' r holds ran
    obtain ⟨kept, follows⟩ := upholds s s' r holds ran
    exact ⟨kept, ih r follows⟩

theorem Upholds.exec {s : σ} (upholds : program.Upholds step I post) (start : I s) :
    I (exec step s program).1 := by
  induction program generalizing s with
  | done a => exact start
  | perform p next ih =>
    cases ran : step s p with
    | none =>
      rw [exec_waits ran]
      exact start
    | some res =>
      obtain ⟨s', r⟩ := res
      obtain ⟨kept, follows⟩ := upholds s s' r start ran
      rw [exec_perform ran]
      exact ih r follows kept

theorem AllTo.upholds (all : program.AllTo Q post)
    (pres : ∀ s p s' r, Q p → step s p = some (s', r) → I s → I s') :
    program.Upholds step I post := by
  induction program with
  | done a => exact all
  | perform p next ih =>
    intro s s' r holds ran
    exact ⟨pres s p s' r all.1 ran holds, ih r (all.2 r)⟩

theorem AllTo.mono {Q' : P → Prop} (all : program.AllTo Q post) (sub : ∀ p, Q p → Q' p) :
    program.AllTo Q' post := by
  induction program with
  | done a => exact all
  | perform p next ih => exact ⟨sub p all.1, fun r => ih r (all.2 r)⟩

theorem AllTo.all (all : program.AllTo Q post) : program.All Q := by
  induction program with
  | done a => trivial
  | perform p next ih => exact ⟨all.1, fun r => ih r (all.2 r)⟩

theorem All.allTo (all : program.All Q) : program.AllTo Q (fun _ => True) := by
  induction program with
  | done a => trivial
  | perform p next ih => exact ⟨all.1, fun r => ih r (all.2 r)⟩

end Upholds

end Program

end NobugDb.Misc
