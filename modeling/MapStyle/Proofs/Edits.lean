import MapStyle.Schema.Closest
import Mathlib.Order.Bounds.Basic
import Mathlib.Order.MinMax

/-!
# The least number of edits

A text is edited one character at a time: a character is inserted, deleted, or replaced by
another (`Text.Edit`). Nothing is said of where the edits are made or in which order, so
there are many ways from one text to another (`Text.Edits`). The edit distance is the length
of a shortest one.

The recursion that everything goes through is `Text.distance`, at the front of the two texts.
It is found in the table with both texts read backwards: a row has the distances to a text
and to its continuations (`Text.distances`), and one character more at the end of the first
text is one at the front when that is read backwards (`Text.foldl_nextRow`). An edit read
backwards is an edit, so that does no harm.

That as many edits suffice is seen by following the recursion (`Text.edits_distance`). That
no fewer do is less obvious, since the edits of a sequence may undo each other and are not
made from the front to the back. What is shown instead is that one edit, wherever it is made,
changes the distance to any other text by one at most (`Text.Edit.near`).
-/

namespace MapStyle.Text

/-! ## Sequences of edits -/

/-- **One edit** of a text. -/
inductive Edit : List Char → List Char → Prop
  | insert (c : Char) (before after : List Char) : Edit (before ++ after) (before ++ c :: after)
  | delete (c : Char) (before after : List Char) : Edit (before ++ c :: after) (before ++ after)
  | substitute (c d : Char) (before after : List Char) :
      Edit (before ++ c :: after) (before ++ d :: after)

/-- **One text is turned into another by so many edits**, one after the other. -/
inductive Edits : ℕ → List Char → List Char → Prop
  | nil (as : List Char) : Edits 0 as as
  | cons {n : ℕ} {as bs cs : List Char} (h : Edit as bs) (hs : Edits n bs cs) :
      Edits (n + 1) as cs

/-- An edit may be made behind another character. -/
theorem Edit.behind {as bs : List Char} (h : Edit as bs) (c : Char) :
    Edit (c :: as) (c :: bs) := by
  cases h with
  | insert d before after => exact .insert d (c :: before) after
  | delete d before after => exact .delete d (c :: before) after
  | substitute d e before after => exact .substitute d e (c :: before) after

/-- So may a sequence of edits. -/
theorem Edits.behind {n : ℕ} {as bs : List Char} (h : Edits n as bs) (c : Char) :
    Edits n (c :: as) (c :: bs) := by
  induction h with
  | nil as => exact .nil _
  | cons h _ ih => exact .cons (h.behind c) ih

/-- **An edit read backwards is an edit.** -/
theorem Edit.reverse {as bs : List Char} (h : Edit as bs) : Edit as.reverse bs.reverse := by
  cases h with
  | insert c before after => simpa using Edit.insert c after.reverse before.reverse
  | delete c before after => simpa using Edit.delete c after.reverse before.reverse
  | substitute c d before after =>
    simpa using Edit.substitute c d after.reverse before.reverse

/-- A sequence of edits may be read backwards, edit by edit. -/
theorem Edits.reverse {n : ℕ} {as bs : List Char} (h : Edits n as bs) :
    Edits n as.reverse bs.reverse := by
  induction h with
  | nil as => exact .nil _
  | cons h _ ih => exact .cons h.reverse ih

/-! ## The recursion -/

/-- **The least number of edits**, found from the front: what stands first is deleted, or
inserted, or replaced by what should stand there. -/
def distance : List Char → List Char → ℕ
  | [], bs => bs.length
  | a :: as, [] => as.length + 1
  | a :: as, b :: bs =>
    min (min (distance as (b :: bs) + 1) (distance (a :: as) bs + 1))
      (distance as bs + if a = b then 0 else 1)
termination_by as bs => as.length + bs.length

@[simp] theorem distance_nil_left (bs : List Char) : distance [] bs = bs.length := by
  rw [distance]

@[simp] theorem distance_nil_right (as : List Char) : distance as [] = as.length := by
  cases as with
  | nil => rw [distance]
  | cons a as => rw [distance, List.length_cons]

theorem distance_cons_cons (a b : Char) (as bs : List Char) :
    distance (a :: as) (b :: bs)
      = min (min (distance as (b :: bs) + 1) (distance (a :: as) bs + 1))
          (distance as bs + if a = b then 0 else 1) := by
  rw [distance]

/-- No edit is needed where nothing is to be changed. -/
theorem distance_self (as : List Char) : distance as as = 0 := by
  induction as with
  | nil => rw [distance_nil_left, List.length_nil]
  | cons a as ih => rw [distance_cons_cons, ih, if_pos rfl, Nat.min_zero]

/-- **As many edits suffice.** -/
theorem edits_distance (as bs : List Char) : Edits (distance as bs) as bs := by
  induction as, bs using distance.induct with
  | case1 bs =>
    rw [distance_nil_left]
    induction bs with
    | nil => exact .nil []
    | cons b bs ih => exact .cons (.insert b [] []) (ih.behind b)
  | case2 a as =>
    rw [distance_nil_right]
    induction as generalizing a with
    | nil => exact .cons (.delete a [] []) (.nil [])
    | cons a' as ih => exact .cons (.delete a [] (a' :: as)) (ih a')
  | case3 a as b bs hdelete hinsert hreplace =>
    rw [distance_cons_cons]
    rcases min_choice (min (distance as (b :: bs) + 1) (distance (a :: as) bs + 1))
      (distance as bs + if a = b then 0 else 1) with h | h
    · rw [h]
      rcases min_choice (distance as (b :: bs) + 1) (distance (a :: as) bs + 1) with h | h
      · rw [h]
        exact .cons (.delete a [] as) hdelete
      · rw [h]
        exact .cons (.insert b [] (a :: as)) (hinsert.behind b)
    · rw [h]
      split
      · next heq =>
        rw [heq]
        exact hreplace.behind b
      · exact .cons (.substitute a b [] as) (hreplace.behind b)

/-! ## No fewer edits suffice -/

/-- **To no text is one of the two more than one edit further** than the other. -/
def Near (as bs : List Char) : Prop := ∀ cs, distance as cs ≤ distance bs cs + 1

/-- A character more to be reached is one edit more at most. -/
theorem distance_cons_right_le (as : List Char) (c : Char) (cs : List Char) :
    distance as (c :: cs) ≤ distance as cs + 1 := by
  cases as with
  | nil => rw [distance_nil_left, distance_nil_left, List.length_cons]
  | cons a as =>
    rw [distance_cons_cons]
    exact (min_le_left _ _).trans (min_le_right _ _)

/-- Nearness is not lost behind another character. -/
theorem Near.behind {as bs : List Char} (h : Near as bs) (c : Char) :
    Near (c :: as) (c :: bs) := by
  intro cs
  induction cs with
  | nil => simpa using h []
  | cons d ds ih =>
    have hdelete := h (d :: ds)
    have hreplace := h ds
    rw [distance_cons_cons, distance_cons_cons]
    omega

/-- What has a character more in front is near. -/
theorem near_cons_left (c : Char) (as : List Char) : Near (c :: as) as := by
  intro cs
  cases cs with
  | nil => simp
  | cons d ds =>
    rw [distance_cons_cons]
    exact (min_le_left _ _).trans (min_le_left _ _)

/-- What has a character less in front is near. -/
theorem near_cons_right (c : Char) (as : List Char) : Near as (c :: as) := by
  intro cs
  induction cs with
  | nil =>
    rw [distance_nil_right, distance_nil_right, List.length_cons]
    omega
  | cons d ds ih =>
    have hinsert := distance_cons_right_le as d ds
    rw [distance_cons_cons]
    omega

/-- What has another character in front is near. -/
theorem near_cons_cons (c d : Char) (as : List Char) : Near (c :: as) (d :: as) := by
  intro cs
  induction cs with
  | nil => simp
  | cons e es ih =>
    rw [distance_cons_cons, distance_cons_cons]
    split <;> split <;> omega

/-- **One edit is one edit at most towards any other text.** -/
theorem Edit.near {as bs : List Char} (h : Edit as bs) : Near as bs := by
  have hbehind : ∀ before {as bs : List Char}, Near as bs → Near (before ++ as) (before ++ bs) := by
    intro before as bs hnear
    induction before with
    | nil => exact hnear
    | cons c before ih => exact ih.behind c
  cases h with
  | insert c before after => exact hbehind before (near_cons_right c after)
  | delete c before after => exact hbehind before (near_cons_left c after)
  | substitute c d before after => exact hbehind before (near_cons_cons c d after)

/-- **No fewer edits suffice.** -/
theorem Edits.distance_le {n : ℕ} {as bs : List Char} (h : Edits n as bs) :
    distance as bs ≤ n := by
  induction h with
  | nil as => exact (distance_self as).le
  | cons h _ ih => exact (h.near _).trans (Nat.succ_le_succ ih)

/-! ## The table -/

/-- **A row of the table**: the distances from a text to another and to its continuations by
more and more characters, where both are read backwards. -/
def distances (as bs : List Char) : List Char → List ℕ
  | [] => [distance as bs]
  | c :: cs => distance as bs :: distances as (c :: bs) cs

/-- A row starts with the distance to the text that is not continued. -/
theorem distances_eq_cons (as bs cs : List Char) :
    distances as bs cs = distance as bs :: (distances as bs cs).tail := by
  cases cs with
  | nil => rfl
  | cons c cs => rfl

/-- A row ends with the distance to the text that is continued by all characters. -/
theorem getLastD_distances (as bs cs : List Char) :
    (distances as bs cs).getLastD 0 = distance as (cs.reverse ++ bs) := by
  induction cs generalizing bs with
  | nil => rfl
  | cons c cs ih =>
    rw [distances, distances_eq_cons, List.getLastD_cons, List.getLastD_cons, List.reverse_cons,
      List.append_assoc, List.singleton_append, ← ih (c :: bs), distances_eq_cons as (c :: bs) cs,
      List.getLastD_cons, List.tail_cons]

/-- The row of the empty text counts the characters. -/
theorem distances_nil (bs cs : List Char) :
    distances [] bs cs = List.range' bs.length (cs.length + 1) := by
  induction cs generalizing bs with
  | nil => simp [distances]
  | cons c cs ih =>
    rw [distances, ih (c :: bs), distance_nil_left, List.length_cons, List.length_cons,
      ← List.range'_succ]

/-- The entries of a row are found from left to right, each from the three beside and
above it. -/
theorem extendRow_distances (a : Char) (as bs cs : List Char) :
    extendRow a (distance (a :: as) bs) cs (distances as bs cs)
      = (distances (a :: as) bs cs).tail := by
  induction cs generalizing bs with
  | nil => rfl
  | cons c cs ih =>
    rw [distances, distances_eq_cons as (c :: bs) cs]
    simp only [extendRow]
    rw [← distance_cons_cons, ← distances_eq_cons, ih (c :: bs), ← distances_eq_cons, distances,
      List.tail_cons]

/-- **One character more** leads from a row to the next. -/
theorem nextRow_distances (a : Char) (as bs : List Char) :
    nextRow bs (distances as [] bs) a = distances (a :: as) [] bs := by
  have hfirst : distance as [] + 1 = distance (a :: as) [] := by simp
  rw [distances_eq_cons as [] bs]
  simp only [nextRow]
  rw [← distances_eq_cons, hfirst, extendRow_distances, ← distances_eq_cons]

/-- **The row after so many characters** of the first text. -/
theorem foldl_nextRow (as bs cs : List Char) :
    as.foldl (nextRow cs) (distances bs [] cs) = distances (as.reverse ++ bs) [] cs := by
  induction as generalizing bs with
  | nil => rfl
  | cons a as ih =>
    rw [List.foldl_cons, nextRow_distances, ih, List.reverse_cons, List.append_assoc,
      List.singleton_append]

/-- **The last entry of the table** is the distance of the two texts read backwards. -/
theorem editDistanceOf_eq (as bs : List Char) :
    editDistanceOf as bs = distance as.reverse bs.reverse := by
  have hstart : List.range (bs.length + 1) = distances [] [] bs := by
    rw [distances_nil, List.length_nil, List.range_eq_range']
  rw [editDistanceOf, hstart, foldl_nextRow, getLastD_distances, List.append_nil, List.append_nil]

/-! ## The distance of two texts -/

/-- One text is turned into the other by as many edits as the table says. -/
theorem edits_editDistance (a b : String) : Edits (editDistance a b) a.toList b.toList := by
  rw [editDistance, editDistanceOf_eq]
  simpa using (edits_distance a.toList.reverse b.toList.reverse).reverse

/-- Fewer edits than the table says do not turn one text into the other. -/
theorem Edits.editDistance_le {n : ℕ} {a b : String} (h : Edits n a.toList b.toList) :
    editDistance a b ≤ n := by
  rw [editDistance, editDistanceOf_eq]
  exact h.reverse.distance_le

/-- **The distance of two texts**: the least number of insertions, deletions and
substitutions of one character that turn one into the other. -/
def IsDistance (a b : String) (n : ℕ) : Prop := IsLeast {k | Edits k a.toList b.toList} n

/-- Two texts have one distance, and the table has it. -/
theorem isDistance_iff {a b : String} {n : ℕ} : IsDistance a b n ↔ n = editDistance a b := by
  have hleast : IsDistance a b (editDistance a b) :=
    ⟨edits_editDistance a b, fun _ h => Edits.editDistance_le h⟩
  constructor
  · intro h
    exact h.unique hleast
  · rintro rfl
    exact hleast

/-- **The edit distance of two texts is the least number of edits.** Some sequence of that
many insertions, deletions and substitutions of a single character turns one text into the
other, and no shorter sequence does. -/
theorem editDistance_is_least (a b : String) :
    Edits (editDistance a b) a.toList b.toList ∧
      ∀ n, Edits n a.toList b.toList → editDistance a b ≤ n :=
  ⟨edits_editDistance a b, fun _ h => h.editDistance_le⟩

example : editDistance "kitten" "sitting" = 3 := by decide

end MapStyle.Text
