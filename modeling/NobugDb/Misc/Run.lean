import Mathlib

/-!
# Runs of a transition function

A system is a total step function on its states; a run is a list of actions taken from a
state. `Meets` restricts a run to the actions that meet a condition on the state they are
taken in. An invariant, or a simulation of one system by another, is proved for one step
and lifted here to every run.
-/

namespace NobugDb.Misc

variable {σ τ α ω : Type*}

def run (step : σ → α → σ) (s : σ) (actions : List α) : σ := actions.foldl step s

@[simp] theorem run_nil (step : σ → α → σ) (s : σ) : run step s [] = s := rfl

@[simp] theorem run_cons (step : σ → α → σ) (s : σ) (a : α) (as : List α) :
    run step s (a :: as) = run step (step s a) as := rfl

variable {step : σ → α → σ} {actions : List α} {ok : σ → α → Prop} {I : σ → Prop}

theorem run_inv {step : σ → α → σ} {I : σ → Prop} (pres : ∀ s a, I s → I (step s a))
    {s : σ} (start : I s) (actions : List α) : I (run step s actions) := by
  induction actions generalizing s with
  | nil => exact start
  | cons a as ih => exact ih (pres s a start)

theorem run_inv_of_mem (pres : ∀ s, ∀ a ∈ actions, I s → I (step s a)) {s : σ} (start : I s) :
    I (run step s actions) := by
  induction actions generalizing s with
  | nil => exact start
  | cons a as ih =>
    apply ih
    · intro s b mem
      exact pres s b (List.mem_cons_of_mem _ mem)
    · exact pres s a List.mem_cons_self start

/-- Every action of the run meets `ok` in the state it is taken in. -/
def Meets (step : σ → α → σ) (ok : σ → α → Prop) : σ → List α → Prop
  | _, [] => True
  | s, a :: as => ok s a ∧ Meets step ok (step s a) as

instance Meets.decidable (step : σ → α → σ) (ok : σ → α → Prop) [∀ s a, Decidable (ok s a)] :
    (s : σ) → (actions : List α) → Decidable (Meets step ok s actions)
  | _, [] => .isTrue trivial
  | s, a :: as =>
    have := Meets.decidable step ok (step s a) as
    inferInstanceAs (Decidable (_ ∧ _))

theorem Meets.and_forall {P : α → Prop} {s : σ} (meets : Meets step ok s actions)
    (all : ∀ a ∈ actions, P a) : Meets step (fun s a => ok s a ∧ P a) s actions := by
  induction actions generalizing s with
  | nil => trivial
  | cons a as ih =>
    exact ⟨⟨meets.1, all a (by simp)⟩, ih meets.2 (fun x mem => all x (by simp [mem]))⟩

/-- What an invariant and the condition give for one action holds of every action of the run. -/
theorem Meets.of_inv {step : σ → α → σ} {ok P : σ → α → Prop} {I : σ → Prop}
    (pres : ∀ s a, I s → ok s a → I (step s a)) (gives : ∀ s a, I s → ok s a → P s a)
    {s : σ} {actions : List α} (meets : Meets step ok s actions) (start : I s) :
    Meets step P s actions := by
  induction actions generalizing s with
  | nil => trivial
  | cons a as ih =>
    exact ⟨gives s a start meets.1, ih meets.2 (pres s a start meets.1)⟩

theorem Meets.iff_of_inv {step : σ → α → σ} {ok P : σ → α → Prop} {I : σ → Prop}
    {actions : List α} (pres : ∀ s, ∀ a ∈ actions, I s → ok s a → I (step s a))
    (eq : ∀ s, ∀ a ∈ actions, I s → (ok s a ↔ P s a)) {s : σ} (start : I s) :
    Meets step ok s actions ↔ Meets step P s actions := by
  induction actions generalizing s with
  | nil => exact Iff.rfl
  | cons a as ih =>
    rw [Meets, Meets, eq s a (by simp) start]
    refine and_congr_right fun meets => ?_
    refine ih (fun s b mem => pres s b (by simp [mem])) (fun s b mem => eq s b (by simp [mem])) ?_
    exact pres s a (by simp) start ((eq s a (by simp) start).mpr meets)

theorem Meets.invariant (pres : ∀ s a, I s → ok s a → I (step s a)) {s : σ}
    (meets : Meets step ok s actions) (start : I s) : I (run step s actions) := by
  induction actions generalizing s with
  | nil => exact start
  | cons a as ih => exact ih meets.2 (pres s a start meets.1)

theorem Meets.lift {step : σ → α → σ} {ok : σ → α → Prop} {whole : τ → α → τ} {part : τ → σ}
    (steps : ∀ t a, part (whole t a) = step (part t) a) {t : τ} {actions : List α}
    (meets : Meets step ok (part t) actions) : Meets whole (fun t a => ok (part t) a) t actions := by
  induction actions generalizing t with
  | nil => trivial
  | cons a as ih => exact ⟨meets.1, ih (steps t a ▸ meets.2)⟩

theorem Meets.simulation {spec : τ → α → τ} {R : σ → τ → Prop}
    (pres : ∀ s t a, R s t → ok s a → R (step s a) (spec t a)) {s : σ} {t : τ}
    (meets : Meets step ok s actions) (start : R s t) :
    R (run step s actions) (run spec t actions) := by
  induction actions generalizing s t with
  | nil => exact start
  | cons a as ih => exact ih meets.2 (pres s t a start meets.1)

/-- A property that a step keeps just when its action meets the condition holds at the end of the
    run just when it holds at the start and every action meets the condition. -/
theorem run_iff_meets (step_iff : ∀ s a, I (step s a) ↔ I s ∧ ok s a) (s : σ) (actions : List α) :
    I (run step s actions) ↔ I s ∧ Meets step ok s actions := by
  induction actions generalizing s with
  | nil => exact (and_iff_left trivial).symm
  | cons a as ih => rw [run_cons, ih, step_iff, and_assoc, Meets]

/-! ## What is seen along a run -/

/-- What each state of the run shows, and what is seen in the course of each step. -/
def seen (step : σ → α → σ) (shows : σ → ω) (during : σ → α → List ω) : σ → List α → List ω
  | s, [] => [shows s]
  | s, a :: as => shows s :: (during s a ++ seen step shows during (step s a) as)

/-- What is seen along a run is ordered by a relation that orders what is seen in each step. -/
theorem Meets.seen_pairwise {shows : σ → ω} {during : σ → α → List ω} {before : ω → ω → Prop}
    (refl : ∀ x, before x x) (trans : ∀ x y z, before x y → before y z → before x z)
    (pres : ∀ s a, I s → ok s a → I (step s a))
    (ord : ∀ s a, I s → ok s a → (during s a ++ [shows (step s a)]).Pairwise before)
    (later : ∀ s a, I s → ok s a → ∀ x ∈ during s a ++ [shows (step s a)], before (shows s) x) {s : σ}
    (meets : Meets step ok s actions) (start : I s) :
    (seen step shows during s actions).Pairwise before ∧
      ∀ x ∈ seen step shows during s actions, before (shows s) x := by
  induction actions generalizing s with
  | nil => simp [seen, refl]
  | cons a as ih =>
    obtain ⟨rest, fromNext⟩ := ih meets.2 (pres s a start meets.1)
    obtain ⟨inStep, -, toNext⟩ := List.pairwise_append.mp (ord s a start meets.1)
    have fst := later s a start meets.1
    have fromHere (x : ω) (mem : x ∈ during s a ++ seen step shows during (step s a) as) :
        before (shows s) x := by
      obtain isIn | after := List.mem_append.mp mem
      · exact fst x (by simp [isIn])
      · exact trans _ _ x (fst _ (by simp)) (fromNext x after)
    have whole : (during s a ++ seen step shows during (step s a) as).Pairwise before := by
      refine List.pairwise_append.mpr ⟨inStep, rest, fun x isIn y after => ?_⟩
      exact trans x _ y (toNext x isIn _ (by simp)) (fromNext y after)
    refine ⟨List.pairwise_cons.mpr ⟨fromHere, whole⟩, fun x mem => ?_⟩
    obtain rfl | mem := List.mem_cons.mp mem
    · exact refl _
    · exact fromHere x mem

end NobugDb.Misc
