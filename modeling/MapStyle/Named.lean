/-!
# Lists of named things

The members of an object, the entries of a table, the contents of a directory:
names with something under each, in the order in which the names first came up.
Setting a name that is there replaces what is under it and leaves it in its
place.
-/

namespace MapStyle

/-- What stands in a list with one member more. -/
theorem getElem?_concat_eq_some {α : Type} {as : List α} {a b : α} {i : Nat}
    (h : (as ++ [b])[i]? = some a) : as[i]? = some a ∨ i = as.length ∧ a = b := by
  rcases Nat.lt_trichotomy i as.length with hlt | rfl | hgt
  · rw [List.getElem?_append_left hlt] at h
    exact Or.inl h
  · rw [List.getElem?_concat_length] at h
    exact Or.inr ⟨rfl, (Option.some.inj h).symm⟩
  · rw [List.getElem?_eq_none (by simp; omega)] at h
    exact absurd h (Option.some_ne_none a).symm

namespace Named

variable {α β : Type}

/-- What is under a name. -/
def find? (name : String) : List (String × α) → Option α
  | [] => none
  | (n, a) :: rest => if n = name then some a else find? name rest

/-- **The list after a name was set.** -/
def set (name : String) (a : α) : List (String × α) → List (String × α)
  | [] => [(name, a)]
  | (n, b) :: rest => if n = name then (n, a) :: rest else (n, b) :: set name a rest

/-- The list of pairs set one after the other. -/
def ofPairs (pairs : List (String × α)) : List (String × α) :=
  pairs.foldl (fun list p => set p.1 p.2 list) []

/-- What is found under a name is there. -/
theorem mem_of_find? {name : String} {a : α} {list : List (String × α)}
    (h : find? name list = some a) : (name, a) ∈ list := by
  induction list with
  | nil => exact nomatch h
  | cons p rest ih =>
    rw [find?] at h
    split at h
    · next hn =>
      obtain rfl := Option.some.inj h
      exact hn ▸ List.mem_cons_self
    · exact List.mem_cons_of_mem _ (ih h)

/-- Setting a name brings in nothing else. -/
theorem eq_or_mem_of_mem_set {name : String} {a : α} {list : List (String × α)} {p : String × α}
    (h : p ∈ set name a list) : p = (name, a) ∨ p ∈ list := by
  induction list with
  | nil => exact Or.inl (List.mem_singleton.mp h)
  | cons q rest ih =>
    rw [set] at h
    split at h
    · next hn =>
      rcases List.mem_cons.mp h with rfl | h
      · exact Or.inl (hn ▸ rfl)
      · exact Or.inr (List.mem_cons_of_mem _ h)
    · rcases List.mem_cons.mp h with rfl | h
      · exact Or.inr List.mem_cons_self
      · exact (ih h).imp_right (List.mem_cons_of_mem _)

/-- What was set under a name is found there. -/
@[simp] theorem find?_set_self (name : String) (a : α) (list : List (String × α)) :
    find? name (set name a list) = some a := by
  induction list with
  | nil => simp [set, find?]
  | cons p rest ih =>
    rw [set]
    split
    · next h => simp [find?, h]
    · next h => simp [find?, h, ih]

/-- Setting a name leaves the others alone. -/
theorem find?_set_of_ne {name other : String} (h : name ≠ other) (a : α)
    (list : List (String × α)) : find? other (set name a list) = find? other list := by
  induction list with
  | nil => simp [set, find?, h]
  | cons p rest ih =>
    rw [set]
    split
    · next hn => simp [find?, hn, h]
    · simp only [find?, ih]

end Named

end MapStyle
