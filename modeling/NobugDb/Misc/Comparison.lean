import NobugDb.Misc.SortedMultimap

/-!
# Comparisons

A comparison of the values of some set that is that of a total order on it, up to the values it
calls equal, carried with the proof. Lists are compared component by component, each position by a
comparison of its own, and a list is below its extensions.
-/

namespace NobugDb.Misc

/-- A comparison, lawful on `dom`. -/
structure Comparison (V : Type) where
  dom : V → Prop
  cmp : V → V → Ordering
  swap : ∀ a b, dom a → dom b → cmp a b = (cmp b a).swap
  trans : ∀ a b c, dom a → dom b → dom c → cmp a b = .lt → cmp b c = .lt → cmp a c = .lt
  congr : ∀ a b c, dom a → dom b → dom c → cmp a b = .eq → cmp a c = cmp b c

namespace Comparison

variable {V : Type}

section Laws

variable (o : Comparison V) {a b c : V}

theorem cmp_self (ha : o.dom a) : o.cmp a a = .eq := by
  have same := o.swap a a ha ha
  cases h : o.cmp a a with
  | eq => rfl
  | lt | gt => rw [h] at same; cases same

theorem gt_iff_lt (ha : o.dom a) (hb : o.dom b) : o.cmp a b = .gt ↔ o.cmp b a = .lt := by
  rw [o.swap a b ha hb]
  cases o.cmp b a <;> decide

theorem congr_right (ha : o.dom a) (hb : o.dom b) (hc : o.dom c) (same : o.cmp b c = .eq) :
    o.cmp a b = o.cmp a c := by
  rw [o.swap a b ha hb, o.swap a c ha hc, o.congr b c a hb hc ha same]

theorem lt_or_lt (ha : o.dom a) (hb : o.dom b) (hc : o.dom c) (less : o.cmp a c = .lt) :
    o.cmp a b = .lt ∨ o.cmp b c = .lt := by
  cases h : o.cmp a b with
  | lt => exact .inl rfl
  | eq => exact .inr (o.congr a b c ha hb hc h ▸ less)
  | gt => exact .inr (o.trans b a c hb ha hc ((o.gt_iff_lt ha hb).1 h) less)

theorem totalOn {S : V → Prop} (inDom : ∀ a, S a → o.dom a) {lt eq : V → V → Bool}
    (ltIff : ∀ a b, S a → S b → (lt a b = true ↔ o.cmp a b = .lt))
    (eqIff : ∀ a b, S a → S b → (eq a b = true ↔ o.cmp a b = .eq)) : TotalOn ⟨lt, eq⟩ S where
  irrefl a ha := by
    rw [← Bool.not_eq_true]
    intro less
    have := (ltIff a a ha ha).1 less
    rw [o.cmp_self (inDom a ha)] at this
    cases this
  trans a b d ha hb hd less next := by
    rw [ltIff a d ha hd]
    exact o.trans a b d (inDom a ha) (inDom b hb) (inDom d hd) ((ltIff a b ha hb).1 less)
      ((ltIff b d hb hd).1 next)
  split a b d ha hb hd less := by
    rw [ltIff a b ha hb, ltIff b d hb hd]
    exact o.lt_or_lt (inDom a ha) (inDom b hb) (inDom d hd) ((ltIff a d ha hd).1 less)
  eq_iff a b ha hb := by
    rw [eqIff a b ha hb, ← Bool.not_eq_true, ← Bool.not_eq_true, ltIff a b ha hb, ltIff b a hb ha,
      ← o.gt_iff_lt (inDom a ha) (inDom b hb)]
    cases o.cmp a b <;> decide

end Laws

/-- The comparison by a test that is irreflexive, transitive and total up to equality. -/
def ofLt (dom : V → Prop) (lt : V → V → Bool) (irrefl : ∀ a, dom a → lt a a = false)
    (trans : ∀ a b c, dom a → dom b → dom c → lt a b = true → lt b c = true → lt a c = true)
    (total : ∀ a b, dom a → dom b → lt a b = true ∨ a = b ∨ lt b a = true) : Comparison V where
  dom := dom
  cmp a b := if lt a b then .lt else if lt b a then .gt else .eq
  swap a b ha hb := by
    by_cases less : lt a b = true
    · have asymm : lt b a = false := by
        rw [← Bool.not_eq_true]
        intro back
        have loop := trans a b a ha hb ha less back
        rw [irrefl a ha] at loop
        cases loop
      simp [less, asymm]
    · by_cases more : lt b a = true <;> simp [less, more]
  trans a b c ha hb hc less next := by
    have first : lt a b = true := by
      by_contra no
      by_cases more : lt b a = true <;> simp [no, more] at less
    have second : lt b c = true := by
      by_contra no
      by_cases more : lt c b = true <;> simp [no, more] at next
    rw [if_pos (trans a b c ha hb hc first second)]
  congr a b c ha hb _ same := by
    obtain less | rfl | more := total a b ha hb
    · simp [less] at same
    · rfl
    · by_cases less : lt a b = true <;> simp [less, more] at same

section OfLt

variable {dom : V → Prop} {lt : V → V → Bool} {irrefl : ∀ a, dom a → lt a a = false}
  {trans : ∀ a b c, dom a → dom b → dom c → lt a b = true → lt b c = true → lt a c = true}
  {total : ∀ a b, dom a → dom b → lt a b = true ∨ a = b ∨ lt b a = true} {a b : V}

@[simp] theorem ofLt_dom : (ofLt dom lt irrefl trans total).dom = dom := rfl

theorem ofLt_cmp :
    (ofLt dom lt irrefl trans total).cmp a b =
      if lt a b then .lt else if lt b a then .gt else .eq := rfl

theorem ofLt_cmp_lt : (ofLt dom lt irrefl trans total).cmp a b = .lt ↔ lt a b = true := by
  rw [ofLt_cmp]
  by_cases less : lt a b = true
  · simp [less]
  · by_cases more : lt b a = true <;> simp [less, more]

theorem ofLt_cmp_eq (ha : dom a) (hb : dom b) :
    (ofLt dom lt irrefl trans total).cmp a b = .eq ↔ a = b := by
  rw [ofLt_cmp]
  obtain less | rfl | more := total a b ha hb
  · have unequal : a ≠ b := fun same => by
      subst same
      rw [irrefl a ha] at less
      cases less
    simp [less, unequal]
  · simp [irrefl a ha]
  · have unequal : a ≠ b := fun same => by
      subst same
      rw [irrefl a ha] at more
      cases more
    by_cases less : lt a b = true <;> simp [less, more, unequal]

end OfLt

/-! ## Lists -/

/-- Every component of a list, which may be shorter, is in the domain of its position. -/
def InDoms : List (Comparison V) → List V → Prop
  | _, [] => True
  | [], _ :: _ => False
  | o :: os, a :: as => o.dom a ∧ InDoms os as

/-- The first components that differ decide; a list is below its extensions. -/
def lexCmp : List (Comparison V) → List V → List V → Ordering
  | o :: os, a :: as, b :: bs => (o.cmp a b).then (lexCmp os as bs)
  | _, [], [] => .eq
  | _, [], _ :: _ => .lt
  | _, _ :: _, [] => .gt
  | [], _ :: _, _ :: _ => .eq

variable (os : List (Comparison V))

theorem lexCmp_swap (as bs : List V) (ha : InDoms os as) (hb : InDoms os bs) :
    lexCmp os as bs = (lexCmp os bs as).swap := by
  induction os generalizing as bs with
  | nil => cases as <;> cases bs <;> rfl
  | cons o os ih =>
    cases as with
    | nil => cases bs <;> rfl
    | cons a as =>
      cases bs with
      | nil => rfl
      | cons b bs =>
        simp only [lexCmp, Ordering.swap_then]
        rw [o.swap a b ha.1 hb.1, ih as bs ha.2 hb.2]

theorem lexCmp_congr (as bs cs : List V) (ha : InDoms os as) (hb : InDoms os bs) (hc : InDoms os cs)
    (same : lexCmp os as bs = .eq) : lexCmp os as cs = lexCmp os bs cs := by
  induction os generalizing as bs cs with
  | nil =>
    cases as with
    | cons a as => exact ha.elim
    | nil =>
      cases bs with
      | cons b bs => exact hb.elim
      | nil => rfl
  | cons o os ih =>
    cases as with
    | nil =>
      cases bs with
      | nil => rfl
      | cons b bs => cases same
    | cons a as =>
      cases bs with
      | nil => cases same
      | cons b bs =>
        simp only [lexCmp, Ordering.then_eq_eq] at same
        cases cs with
        | nil => rfl
        | cons c cs =>
          simp only [lexCmp]
          rw [o.congr a b c ha.1 hb.1 hc.1 same.1, ih as bs cs ha.2 hb.2 hc.2 same.2]

theorem lexCmp_trans (as bs cs : List V) (ha : InDoms os as) (hb : InDoms os bs) (hc : InDoms os cs)
    (less : lexCmp os as bs = .lt) (next : lexCmp os bs cs = .lt) : lexCmp os as cs = .lt := by
  induction os generalizing as bs cs with
  | nil =>
    cases bs with
    | cons b bs => exact hb.elim
    | nil =>
      cases as with
      | nil => cases less
      | cons a as => cases less
  | cons o os ih =>
    cases bs with
    | nil => cases as <;> cases less
    | cons b bs =>
      cases cs with
      | nil => cases next
      | cons c cs =>
        cases as with
        | nil => rfl
        | cons a as =>
          simp only [lexCmp, Ordering.then_eq_lt] at less next ⊢
          obtain below | ⟨eq, less⟩ := less
          · obtain above | ⟨eq, next⟩ := next
            · exact .inl (o.trans a b c ha.1 hb.1 hc.1 below above)
            · exact .inl (o.congr_right ha.1 hb.1 hc.1 eq ▸ below)
          · rw [o.congr a b c ha.1 hb.1 hc.1 eq]
            obtain above | ⟨equal, next⟩ := next
            · exact .inl above
            · exact .inr ⟨equal, ih as bs cs ha.2 hb.2 hc.2 less next⟩

/-- The comparison of lists by comparisons of their components. -/
def lex (os : List (Comparison V)) : Comparison (List V) where
  dom := InDoms os
  cmp := lexCmp os
  swap := lexCmp_swap os
  trans := lexCmp_trans os
  congr := lexCmp_congr os

end Comparison

end NobugDb.Misc
