import NobugDb.Types.Value
import NobugDb.Misc.SortedMultimap

/-!
# Index keys

`IndexKey` (`include/core/index_key.h`, `src/core/index_key.cc`): the values of an index's
columns in one row, compared component by component with the operators of `Value`.
-/

namespace NobugDb

/-- `IndexKey`: `components_`. -/
abbrev IndexKey := List Value

namespace IndexKey

/-- `IndexKey::has_null` (`index_key.cc:20-27`). -/
def hasNull (key : IndexKey) : Bool := key.any Value.isNull

/-- `IndexKey::starts_with` (`index_key.cc:29-39`). -/
def startsWith : IndexKey → IndexKey → Bool
  | _, [] => true
  | [], _ :: _ => false
  | k :: ks, p :: ps => k.eq p && startsWith ks ps

/-- `IndexKey::operator==` (`index_key.cc:41-43`): `std::vector`'s, by `Value::operator==`. -/
def eq : IndexKey → IndexKey → Bool
  | [], [] => true
  | a :: as, b :: bs => a.eq b && eq as bs
  | _, _ => false

/-- `IndexKey::operator<` (`index_key.cc:49-61`): the first component on which one of the
    two is below the other decides, and after the common length the shorter key is below. -/
def lt : IndexKey → IndexKey → Bool
  | a :: as, b :: bs => if a.lt b then true else if b.lt a then false else lt as bs
  | [], _ :: _ => true
  | _, [] => false

/-- `BTreeIndex::is_less` and `BTreeIndex::is_equal` (`btree_index.cc:7-11`). -/
def cmp : Misc.KeyCmp IndexKey := ⟨lt, eq⟩

@[simp] theorem cmp_lt : cmp.lt = lt := rfl

@[simp] theorem cmp_eq : cmp.eq = eq := rfl

/-- The keys an index holds: `insert`, `remove` and the lookups ignore all others. -/
def indexable (key : IndexKey) : Bool := !hasNull key && !key.isEmpty

/-- Integer keys, as an index on one INT column has them. -/
def IsInt (key : IndexKey) : Prop := ∃ v, key = [.int v]

theorem totalOn_isInt : Misc.TotalOn cmp IsInt where
  irrefl := by
    rintro _ ⟨a, rfl⟩
    simp [cmp, lt, Value.lt]
  trans := by
    rintro _ _ _ ⟨a, rfl⟩ ⟨b, rfl⟩ ⟨d, rfl⟩ less next
    simp only [cmp, lt, Value.lt] at less next ⊢
    simp at less next ⊢
    omega
  split := by
    rintro _ _ _ ⟨a, rfl⟩ ⟨b, rfl⟩ ⟨d, rfl⟩ less
    simp only [cmp, lt, Value.lt] at less ⊢
    simp at less ⊢
    omega
  eq_iff := by
    rintro _ _ ⟨a, rfl⟩ ⟨b, rfl⟩
    simp only [cmp, lt, eq, Value.lt, Value.eq]
    simp
    omega

theorem IsInt.indexable {key : IndexKey} (isInt : IsInt key) : indexable key = true := by
  obtain ⟨v, rfl⟩ := isInt
  rfl

end IndexKey

end NobugDb
