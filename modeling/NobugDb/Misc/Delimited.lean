import Mathlib

/-!
# Text in delimited pieces

`List.splitOn` cuts a list at a separator and `List.intercalate` joins pieces with it. What is
added here: a piece has no separator, and the pieces with one more element for each of them are as
long as the list with one more element.
-/

namespace NobugDb.Misc

variable {α : Type} {sep : α} {pieces : List (List α)}

/-- How long pieces are when each is followed by a separator. -/
def weight (pieces : List (List α)) : Nat := (pieces.map (fun piece => piece.length + 1)).sum

@[simp] theorem weight_nil : weight ([] : List (List α)) = 0 := rfl

@[simp] theorem weight_cons (piece : List α) (pieces : List (List α)) :
    weight (piece :: pieces) = piece.length + 1 + weight pieces := rfl

theorem weight_le_of_sublist {some all : List (List α)} (sub : some.Sublist all) :
    weight some ≤ weight all := by
  induction sub with
  | slnil => exact Nat.le_refl _
  | cons piece _ ih => rw [weight_cons]; omega
  | cons_cons piece _ ih => rw [weight_cons, weight_cons]; omega

theorem weight_eq_of_ne_nil (sep : α) (nonempty : pieces ≠ []) :
    weight pieces = ([sep].intercalate pieces).length + 1 := by
  induction pieces with
  | nil => exact absurd rfl nonempty
  | cons piece pieces ih =>
    cases pieces with
    | nil => simp
    | cons next pieces =>
      rw [weight_cons, ih (List.cons_ne_nil _ _)]
      simp only [List.intercalate_cons_cons, List.length_append, List.length_singleton]
      omega

theorem flatMap_append_eq (sep : α) (piece : List α) (pieces : List (List α)) :
    piece ++ [sep] ++ pieces.flatMap (fun piece => piece ++ [sep]) =
      [sep].intercalate (piece :: pieces) ++ [sep] := by
  induction pieces generalizing piece with
  | nil => simp
  | cons next pieces ih =>
    rw [List.flatMap_cons, ih, List.intercalate_cons_cons]
    simp only [List.append_assoc]

variable {x : α} {piece : List α}

theorem mem_intercalate (mem : x ∈ [sep].intercalate pieces) :
    x = sep ∨ ∃ piece ∈ pieces, x ∈ piece := by
  induction pieces with
  | nil => simp at mem
  | cons piece pieces ih =>
    cases pieces with
    | nil => exact .inr ⟨piece, by simp, by simpa using mem⟩
    | cons next pieces =>
      rw [List.intercalate_cons_cons] at mem
      simp only [List.mem_append, List.mem_singleton] at mem
      obtain (here | rfl) | later := mem
      · exact .inr ⟨piece, by simp, here⟩
      · exact .inl rfl
      · obtain rfl | ⟨ne, among, isIn⟩ := ih later
        · exact .inl rfl
        · exact .inr ⟨ne, List.mem_cons_of_mem _ among, isIn⟩

theorem mem_intercalate_of_mem (among : piece ∈ pieces) (isIn : x ∈ piece) :
    x ∈ [sep].intercalate pieces := by
  induction pieces with
  | nil => simp at among
  | cons fst pieces ih =>
    cases pieces with
    | nil => simp_all
    | cons next pieces =>
      rw [List.intercalate_cons_cons]
      obtain rfl | later := List.mem_cons.1 among
      · simp [isIn]
      · simp [ih later]

section Splitting

variable [BEq α] [LawfulBEq α] {xs : List α}

theorem not_mem_of_mem_splitOn (mem : piece ∈ xs.splitOn sep) : sep ∉ piece := by
  induction xs generalizing piece with
  | nil => simp_all
  | cons x xs ih =>
    rw [List.splitOn_cons_eq_if_modifyHead] at mem
    split at mem
    · obtain rfl | mem := List.mem_cons.1 mem
      · simp
      · exact ih mem
    · next apart =>
      -- The first piece of the rest gets `x`, which is no separator.
      obtain ⟨fst, rest, pieces⟩ := List.exists_cons_of_ne_nil (List.splitOn_ne_nil sep xs)
      rw [pieces, List.modifyHead_cons] at mem
      obtain rfl | mem := List.mem_cons.1 mem
      · have clear : sep ∉ fst := ih (by simp [pieces])
        have ne : sep ≠ x := by rintro rfl; simp at apart
        simp [clear, ne]
      · exact ih (by simp [pieces, mem])

theorem mem_of_mem_splitOn (among : piece ∈ xs.splitOn sep) (isIn : x ∈ piece) : x ∈ xs := by
  have joined : [sep].intercalate (xs.splitOn sep) = xs := List.intercalate_splitOn sep
  rw [← joined]
  exact mem_intercalate_of_mem among isIn

omit [LawfulBEq α] in
theorem weight_splitOn (sep : α) (xs : List α) : weight (xs.splitOn sep) = xs.length + 1 := by
  induction xs with
  | nil => simp
  | cons x xs ih =>
    rw [List.splitOn_cons_eq_if_modifyHead]
    split
    · rw [weight_cons, ih]
      simp only [List.length_nil, List.length_cons]
      omega
    · obtain ⟨fst, rest, pieces⟩ := List.exists_cons_of_ne_nil (List.splitOn_ne_nil sep xs)
      rw [pieces, weight_cons] at ih
      rw [pieces, List.modifyHead_cons, weight_cons]
      simp only [List.length_cons]
      omega

end Splitting

end NobugDb.Misc
