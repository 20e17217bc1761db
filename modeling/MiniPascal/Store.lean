import MiniPascal.Value

/-!
# Stores

A store holds a value for each of finitely many names, kept in ascending order of the names (characters compared by code
point, which is also the order of their bytes).

* `Store.get?_assign`: what is read is what was last assigned.
* `Store.ext_get?`: a store is determined by what is read from it.
-/

namespace MiniPascal

structure Store where
  entries : List (String × Value)
  ascending : entries.Pairwise (·.1 < ·.1)
  deriving DecidableEq

namespace Store

/-- Puts a value at its place in an ascending list, over an older value of the name. -/
def insertEntry (name : String) (value : Value) : List (String × Value) → List (String × Value)
  | [] => [(name, value)]
  | (key, old) :: others =>
    if name < key then (name, value) :: (key, old) :: others
    else if name = key then (name, value) :: others
    else (key, old) :: insertEntry name value others

theorem mem_insertEntry {name : String} {value : Value} {e : String × Value} :
    ∀ {entries : List (String × Value)}, e ∈ insertEntry name value entries → e = (name, value) ∨ e ∈ entries
  | [], h => .inl (List.mem_singleton.mp h)
  | (key, old) :: others, h => by
    rw [insertEntry] at h
    split at h
    · exact List.mem_cons.mp h
    split at h
    · exact (List.mem_cons.mp h).imp_right (List.mem_cons_of_mem _)
    · rcases List.mem_cons.mp h with rfl | h
      · exact .inr List.mem_cons_self
      · exact (mem_insertEntry h).imp_right (List.mem_cons_of_mem _)

theorem lt_of_not_lt_of_ne {a b : String} (h : ¬ a < b) (hne : a ≠ b) : b < a :=
  String.not_le.mp fun hle => hne (String.le_antisymm hle (String.not_lt.mp h))

theorem ascending_insertEntry {name : String} {value : Value} :
    ∀ {entries : List (String × Value)}, entries.Pairwise (·.1 < ·.1) →
      (insertEntry name value entries).Pairwise (·.1 < ·.1)
  | [], _ => List.pairwise_singleton _ _
  | (key, old) :: others, h => by
    obtain ⟨hkey, hothers⟩ := List.pairwise_cons.mp h
    rw [insertEntry]
    split
    next hlt =>
      refine List.pairwise_cons.mpr ⟨fun e he => ?_, h⟩
      rcases List.mem_cons.mp he with rfl | he
      · exact hlt
      · exact String.lt_trans hlt (hkey e he)
    next hnlt =>
      split
      next heq => exact List.pairwise_cons.mpr ⟨fun e he => heq ▸ hkey e he, hothers⟩
      next hne =>
        refine List.pairwise_cons.mpr ⟨fun e he => ?_, ascending_insertEntry hothers⟩
        rcases mem_insertEntry he with rfl | he
        · exact lt_of_not_lt_of_ne hnlt hne
        · exact hkey e he

/-! ## Operations -/

def empty : Store := ⟨[], .nil⟩

def assign (store : Store) (name : String) (value : Value) : Store :=
  ⟨insertEntry name value store.entries, ascending_insertEntry store.ascending⟩

def get? (store : Store) (name : String) : Option Value := store.entries.lookup name

def size (store : Store) : Nat := store.entries.length

def isEmpty (store : Store) : Bool := store.entries.isEmpty

/-! ## Laws -/

@[simp] theorem get?_empty (name : String) : empty.get? name = none := rfl

theorem lookup_entry (other key : String) (value : Value) (others : List (String × Value)) :
    ((key, value) :: others).lookup other = if other = key then some value else others.lookup other := by
  by_cases h : other = key
  · simp [h]
  · simp [List.lookup_cons, h, beq_eq_false_iff_ne.mpr h]

theorem lookup_insertEntry (name other : String) (value : Value) : ∀ entries : List (String × Value),
    (insertEntry name value entries).lookup other = if other = name then some value else entries.lookup other
  | [] => lookup_entry other name value []
  | (key, old) :: others => by
    rw [insertEntry]
    split
    · exact lookup_entry other name value _
    split
    next heq => rw [lookup_entry, lookup_entry, ← heq]; split <;> rfl
    next hne =>
      rw [lookup_entry, lookup_entry, lookup_insertEntry name other value others]
      by_cases hkey : other = key
      · rw [if_pos hkey, if_neg fun h : other = name => hne (h ▸ hkey), if_pos hkey]
      · rw [if_neg hkey, if_neg hkey]

@[simp] theorem get?_assign (store : Store) (name other : String) (value : Value) :
    (store.assign name value).get? other = if other = name then some value else store.get? other :=
  lookup_insertEntry name other value store.entries

theorem lookup_eq_none {name : String} : ∀ {entries : List (String × Value)}, (∀ e ∈ entries, name < e.1) →
    entries.lookup name = none
  | [], _ => rfl
  | (key, value) :: others, h => by
    have hkey : name ≠ key := fun heq => String.lt_irrefl name (heq ▸ h _ List.mem_cons_self)
    rw [lookup_entry, if_neg hkey]
    exact lookup_eq_none fun e he => h e (List.mem_cons_of_mem _ he)

/-- Ascending lists that agree on every name are equal. -/
theorem entries_eq : ∀ {s t : List (String × Value)}, s.Pairwise (·.1 < ·.1) → t.Pairwise (·.1 < ·.1) →
    (∀ name, s.lookup name = t.lookup name) → s = t
  | [], [], _, _, _ => rfl
  | [], (key, value) :: t, _, _, h => by have := h key; simp at this
  | (key, value) :: s, [], _, _, h => by have := h key; simp at this
  | (k, v) :: s, (l, w) :: t, hs, ht, h => by
    obtain ⟨hk, hs⟩ := List.pairwise_cons.mp hs
    have ht := List.pairwise_cons.mp ht
    have least : ∀ {a b : String} {x : Value} {u : List (String × Value)}, a < b → (∀ e ∈ u, b < e.1) →
        ((b, x) :: u).lookup a = none := fun hab hu => lookup_eq_none fun e he => by
      rcases List.mem_cons.mp he with rfl | he
      · exact hab
      · exact String.lt_trans hab (hu e he)
    have hkl : k = l := by
      by_cases hlt : k < l
      · have := h k; rw [least hlt ht.1, lookup_entry, if_pos rfl] at this; cases this
      · by_cases hne : k = l
        · exact hne
        · have := h l; rw [least (lt_of_not_lt_of_ne hlt hne) hk, lookup_entry, if_pos rfl] at this; cases this
    subst hkl
    have hvw := h k
    rw [lookup_entry, lookup_entry, if_pos rfl, if_pos rfl, Option.some.injEq] at hvw
    subst hvw
    refine congrArg _ (entries_eq hs ht.2 fun name => ?_)
    by_cases hname : name = k
    · rw [hname, lookup_eq_none hk, lookup_eq_none ht.1]
    · have := h name
      rwa [lookup_entry, lookup_entry, if_neg hname, if_neg hname] at this

theorem ext_get? {s t : Store} (h : ∀ name, s.get? name = t.get? name) : s = t := by
  obtain ⟨entries, hs⟩ := s
  obtain ⟨others, ht⟩ := t
  have : entries = others := entries_eq hs ht h
  subst this
  rfl

end Store

end MiniPascal
