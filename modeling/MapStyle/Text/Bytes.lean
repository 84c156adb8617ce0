/-!
# Bytes of a text

A text is measured and cut in bytes, those of its characters in UTF-8, and it can be cut between
two characters only.
-/

namespace MapStyle.Text

/-- The number of bytes of a text. -/
def byteLength : List Char → Nat
  | [] => 0
  | c :: cs => c.utf8Size + byteLength cs

/-- **The two parts of a text** before and behind a byte offset, if that is not inside of a
character and not behind the end. -/
def cutAt? : List Char → Nat → Option (List Char × List Char)
  | cs, 0 => some ([], cs)
  | [], _ + 1 => none
  | c :: cs, n + 1 =>
    if c.utf8Size ≤ n + 1 then (cutAt? cs (n + 1 - c.utf8Size)).map (Prod.map (c :: ·) id)
    else none

/-- **The part of a text** between two byte offsets, if both are between characters. -/
def slice? (cs : List Char) (start stop : Nat) : Option (List Char) :=
  if start ≤ stop then do
    let (_, rest) ← cutAt? cs start
    let (part, _) ← cutAt? rest (stop - start)
    return part
  else none

@[simp] theorem byteLength_append (cs ds : List Char) :
    byteLength (cs ++ ds) = byteLength cs + byteLength ds := by
  induction cs with
  | nil => exact (Nat.zero_add _).symm
  | cons c cs ih => rw [List.cons_append, byteLength, byteLength, ih, Nat.add_assoc]

/-- Every character has a byte. -/
theorem length_le_byteLength (cs : List Char) : cs.length ≤ byteLength cs := by
  induction cs with
  | nil => exact Nat.le_refl 0
  | cons c cs ih =>
    have := c.utf8Size_pos
    rw [byteLength, List.length_cons]
    omega

/-- A text whose characters have one byte each is as long in bytes. -/
theorem byteLength_eq_length {cs : List Char} (h : ∀ c ∈ cs, c.utf8Size = 1) :
    byteLength cs = cs.length := by
  induction cs with
  | nil => rfl
  | cons c cs ih =>
    rw [byteLength, h c (List.mem_cons_self ..), ih fun d hd => h d (List.mem_cons_of_mem c hd),
      List.length_cons, Nat.add_comm]

theorem byteLength_eq_zero_iff {cs : List Char} : byteLength cs = 0 ↔ cs = [] := by
  refine ⟨fun h => ?_, fun h => h ▸ rfl⟩
  exact List.eq_nil_of_length_eq_zero (Nat.le_zero.mp (h ▸ length_le_byteLength cs))

/-- **The parts are those that make up the text**, the first one as long as the offset says. -/
theorem cutAt?_eq_some_iff {cs before after : List Char} {n : Nat} :
    cutAt? cs n = some (before, after) ↔ cs = before ++ after ∧ byteLength before = n := by
  have hzero (cs : List Char) {before after : List Char} : cutAt? cs 0 = some (before, after) ↔
      cs = before ++ after ∧ byteLength before = 0 := by
    rw [cutAt?, Option.some_inj, Prod.mk.injEq, byteLength_eq_zero_iff]
    constructor
    · rintro ⟨rfl, rfl⟩
      exact ⟨rfl, rfl⟩
    · rintro ⟨h, rfl⟩
      exact ⟨rfl, h⟩
  induction cs generalizing before n with
  | nil =>
    cases n with
    | zero => exact hzero []
    | succ n =>
      refine iff_of_false (Option.some_ne_none _).symm ?_
      rintro ⟨h, hn⟩
      rw [(List.append_eq_nil_iff.mp h.symm).1] at hn
      exact absurd hn (Nat.succ_ne_zero n).symm
  | cons c cs ih =>
    cases n with
    | zero => exact hzero (c :: cs)
    | succ n =>
      rw [cutAt?]
      constructor
      · intro h
        split at h
        · next hle =>
          obtain ⟨⟨part, rest⟩, hcut, hparts⟩ := Option.map_eq_some_iff.mp h
          obtain ⟨rfl, rfl⟩ := Prod.mk.inj hparts
          obtain ⟨hcs, hlength⟩ := ih.mp hcut
          rw [byteLength, hlength, hcs]
          exact ⟨rfl, by omega⟩
        · exact absurd h (Option.some_ne_none _).symm
      · rintro ⟨h, hn⟩
        match before with
        | [] => exact absurd hn (Nat.succ_ne_zero n).symm
        | b :: before =>
          obtain ⟨rfl, rfl⟩ := List.cons.inj h
          rw [byteLength] at hn
          rw [if_pos (by omega), ih.mpr ⟨rfl, by omega⟩]
          rfl

/-- **A part is what stands between its offsets.** -/
theorem slice?_eq_some_iff {cs part : List Char} {start stop : Nat} :
    slice? cs start stop = some part ↔ ∃ before after, cs = before ++ (part ++ after) ∧
      byteLength before = start ∧ start + byteLength part = stop := by
  rw [slice?]
  constructor
  · intro h
    split at h
    · next hle =>
      obtain ⟨⟨before, rest⟩, hbefore, hrest⟩ := Option.bind_eq_some_iff.mp h
      obtain ⟨⟨_, after⟩, hpart, hsome⟩ := Option.bind_eq_some_iff.mp hrest
      obtain ⟨rfl, rfl⟩ := cutAt?_eq_some_iff.mp hbefore
      obtain ⟨rfl, hlength⟩ := cutAt?_eq_some_iff.mp hpart
      obtain rfl := Option.some.inj hsome
      exact ⟨before, after, rfl, rfl, hlength ▸ Nat.add_sub_cancel' hle⟩
    · exact absurd h (Option.some_ne_none _).symm
  · rintro ⟨before, after, rfl, rfl, rfl⟩
    rw [if_pos (Nat.le_add_right ..), cutAt?_eq_some_iff.mpr ⟨rfl, rfl⟩, Nat.add_sub_cancel_left]
    show (cutAt? (part ++ after) (byteLength part)).bind _ = some part
    rw [cutAt?_eq_some_iff.mpr ⟨rfl, rfl⟩]
    rfl

/-- Two texts that begin with as many bytes begin alike. -/
theorem append_inj_of_byteLength {cs cs' ds ds' : List Char} (h : cs ++ ds = cs' ++ ds')
    (hlength : byteLength cs = byteLength cs') : cs = cs' ∧ ds = ds' := by
  have hcut := cutAt?_eq_some_iff.mpr ⟨h, hlength.symm⟩
  rw [cutAt?_eq_some_iff.mpr ⟨rfl, rfl⟩] at hcut
  exact Prod.mk.inj (Option.some.inj hcut)

end MapStyle.Text
