import MapStyle.Color
import Mathlib.Data.List.Forall2

/-!
# Which texts are colours

A colour is written with three hexadecimal digits, of which each stands for two, or with six, with
or without one `#` in front. The text can be any text: it is measured and cut in bytes, and a
character of several bytes is neither cut in two nor taken for a digit.

Its parts are read as numbers, and in front of a number there may be a plus sign. So there are more
texts that are colours than these: a pair can be a plus sign and a digit (`Text.IsNumeral`), while
a single character cannot be a plus sign. `Color.ofHex?_eq_some_iff` says which colour is read
of which text.
-/

namespace MapStyle

namespace Text

/-! ## Digits and numbers -/

/-- The hexadecimal digits in lower case, each in the place of its value. -/
def lowerDigits : List Char := "0123456789abcdef".toList

/-- The hexadecimal digits in upper case, each in the place of its value. -/
def upperDigits : List Char := "0123456789ABCDEF".toList

/-- The character is the hexadecimal digit of a value, in either case. -/
def IsHexDigit (c : Char) (n : Nat) : Prop := lowerDigits[n]? = some c ∨ upperDigits[n]? = some c

instance (c : Char) (n : Nat) : Decidable (IsHexDigit c n) := inferInstanceAs (Decidable (_ ∨ _))

/-- The number of a row of digits behind another number. -/
def numberBehind (n : Nat) (ds : List Nat) : Nat := ds.foldl (fun n d => 16 * n + d) n

/-- **The text writes a number** in hexadecimal digits. -/
def Writes (cs : List Char) (n : Nat) : Prop :=
  ∃ ds, List.Forall₂ IsHexDigit cs ds ∧ numberBehind 0 ds = n

/-- **The text is a number** in hexadecimal digits, with or without a plus sign in front. -/
def IsNumeral (cs : List Char) (n : Nat) : Prop :=
  ∃ ds, ds ≠ [] ∧ (cs = ds ∨ cs = '+' :: ds) ∧ Writes ds n

/-- What has a value is one of the first 128 characters. -/
theorem toNat_lt_of_hexValue? {c : Char} {n : Nat} (h : hexValue? c = some n) : c.toNat < 128 := by
  have hlast : ∀ d : Char, d.toNat < 128 → c ≤ d → c.toNat < 128 := fun d hd hc =>
    Nat.lt_of_le_of_lt (UInt32.le_iff_toNat_le.mp (Char.le_def.mp hc)) hd
  rw [hexValue?] at h
  split at h
  · next hc => exact hlast _ (by decide) hc.2
  · split at h
    · next hc => exact hlast _ (by decide) hc.2
    · split at h
      · next hc => exact hlast _ (by decide) hc.2
      · exact absurd h (Option.some_ne_none _).symm

/-- Values are read of digits only, and each digit is read as its value. -/
theorem hexValue?_eq_some_iff {c : Char} {n : Nat} : hexValue? c = some n ↔ IsHexDigit c n := by
  have hread : ∀ k < 128, (hexValue? (Char.ofNat k)).all (IsHexDigit (Char.ofNat k) ·) := by decide
  have hlower : ∀ i : Fin lowerDigits.length, hexValue? (lowerDigits.get i) = some i := by decide
  have hupper : ∀ i : Fin upperDigits.length, hexValue? (upperDigits.get i) = some i := by decide
  constructor
  · intro h
    have hc := hread c.toNat (toNat_lt_of_hexValue? h)
    rw [Char.ofNat_toNat, h] at hc
    exact of_decide_eq_true hc
  · rintro (h | h)
    · obtain ⟨hn, rfl⟩ := List.getElem?_eq_some_iff.mp h
      exact hlower ⟨n, hn⟩
    · obtain ⟨hn, rfl⟩ := List.getElem?_eq_some_iff.mp h
      exact hupper ⟨n, hn⟩

theorem IsHexDigit.lt_sixteen {c : Char} {n : Nat} (h : IsHexDigit c n) : n < 16 :=
  h.elim (fun h => (List.getElem?_eq_some_iff.mp h).1) fun h => (List.getElem?_eq_some_iff.mp h).1

theorem IsHexDigit.utf8Size_eq {c : Char} {n : Nat} (h : IsHexDigit c n) : c.utf8Size = 1 := by
  rw [Char.utf8Size_eq_one_iff, UInt32.le_iff_toNat_le]
  exact Nat.le_of_lt_succ (toNat_lt_of_hexValue? (hexValue?_eq_some_iff.mpr h))

theorem IsHexDigit.ne_plus {c : Char} {n : Nat} (h : IsHexDigit c n) : c ≠ '+' := by
  have hplus : hexValue? '+' = none := by decide
  rintro rfl
  exact absurd (hplus.symm.trans (hexValue?_eq_some_iff.mpr h)) (Option.some_ne_none n).symm

/-- Further digits do not make a number smaller. -/
theorem le_numberBehind (n : Nat) (ds : List Nat) : n ≤ numberBehind n ds := by
  induction ds generalizing n with
  | nil => exact Nat.le_refl n
  | cons d ds ih => exact Nat.le_trans (by omega) (ih (16 * n + d))

/-- **Digits are read as the number they write**, if it is below 256. -/
theorem appendHex?_eq_some_iff {n m : UInt8} {cs : List Char} : appendHex? n cs = some m ↔
    ∃ ds, List.Forall₂ IsHexDigit cs ds ∧ numberBehind n.toNat ds = m.toNat := by
  induction cs generalizing n with
  | nil =>
    simp only [appendHex?, Option.some_inj, List.forall₂_nil_left_iff, exists_eq_left]
    exact UInt8.toNat_inj.symm
  | cons c cs ih =>
    rw [appendHex?]
    constructor
    · intro h
      obtain ⟨d, hd, hvalue⟩ := Option.bind_eq_some_iff.mp h
      split at hvalue
      · next hlt =>
        obtain ⟨ds, hds, hnumber⟩ := ih.mp hvalue
        rw [UInt8.toNat_ofNat_of_lt' hlt] at hnumber
        exact ⟨d :: ds, .cons (hexValue?_eq_some_iff.mp hd) hds, hnumber⟩
      · exact absurd hvalue (Option.some_ne_none _).symm
    · rintro ⟨_, hds, hnumber⟩
      cases hds with
      | @cons _ d _ ds hd hds =>
        have hlt : 16 * n.toNat + d < 256 :=
          Nat.lt_of_le_of_lt (le_numberBehind _ ds) (hnumber ▸ m.toNat_lt)
        rw [hexValue?_eq_some_iff.mpr hd]
        show (if 16 * n.toNat + d < 256 then _ else none) = _
        rw [if_pos hlt, ih]
        refine ⟨ds, hds, ?_⟩
        rw [UInt8.toNat_ofNat_of_lt' hlt]
        exact hnumber

/-- A plus sign is no digit. -/
theorem not_writes_plus (cs : List Char) (n : Nat) : ¬Writes ('+' :: cs) n := by
  rintro ⟨ds, hds, -⟩
  obtain ⟨_, _, h, -⟩ := List.forall₂_cons_left_iff.mp hds
  exact h.ne_plus rfl

/-- **A number is read of its digits**, with or without a plus sign in front. -/
theorem hexByte?_eq_some_iff {cs : List Char} {m : UInt8} :
    hexByte? cs = some m ↔ IsNumeral cs m.toNat := by
  rw [hexByte?.eq_def]
  split
  · next =>
    refine iff_of_false (Option.some_ne_none _).symm ?_
    rintro ⟨ds, hds, rfl | h, -⟩
    · exact hds rfl
    · exact List.cons_ne_nil _ _ h.symm
  · next c cs =>
    rw [appendHex?_eq_some_iff]
    constructor
    · exact fun h => ⟨c :: cs, List.cons_ne_nil _ _, .inr rfl, h⟩
    · rintro ⟨ds, -, rfl | h, hwrites⟩
      · exact absurd hwrites (not_writes_plus _ _)
      · rw [(List.cons.inj h).2]
        exact hwrites
  · next hcs hplus =>
    rw [appendHex?_eq_some_iff]
    constructor
    · exact fun h => ⟨cs, hcs, .inl rfl, h⟩
    · rintro ⟨ds, hds, rfl | rfl, hwrites⟩
      · exact hwrites
      · obtain ⟨d, ds, rfl⟩ := List.exists_cons_of_ne_nil hds
        exact (hplus d ds rfl).elim

/-- A digit has one value. -/
theorem IsHexDigit.unique {c : Char} {m n : Nat} (hm : IsHexDigit c m) (hn : IsHexDigit c n) :
    m = n := by
  rw [← hexValue?_eq_some_iff] at hm hn
  exact Option.some.inj (hm.symm.trans hn)

/-- One character is a number if it is a digit. -/
theorem isNumeral_singleton_iff {c : Char} {n : Nat} : IsNumeral [c] n ↔ IsHexDigit c n := by
  constructor
  · rintro ⟨ds, hds, rfl | h, hwrites⟩
    · obtain ⟨_, hdigits, rfl⟩ := hwrites
      obtain ⟨d, _, hd, hnil, rfl⟩ := List.forall₂_cons_left_iff.mp hdigits
      rw [List.forall₂_nil_left_iff.mp hnil]
      simpa only [numberBehind, List.foldl_cons, List.foldl_nil, Nat.mul_zero, Nat.zero_add]
        using hd
    · exact absurd (List.cons.inj h).2.symm hds
  · intro h
    exact ⟨[c], List.cons_ne_nil _ _, .inl rfl, [n], .cons h .nil, Nat.zero_add n⟩

/-- A digit twice writes seventeen times its value. -/
theorem writes_twice_iff {c : Char} {n : Nat} :
    Writes [c, c] n ↔ ∃ d, IsHexDigit c d ∧ n = d * 17 := by
  constructor
  · rintro ⟨_, hdigits, rfl⟩
    obtain ⟨d, _, hd, hlast, rfl⟩ := List.forall₂_cons_left_iff.mp hdigits
    obtain ⟨e, _, he, hnil, rfl⟩ := List.forall₂_cons_left_iff.mp hlast
    obtain rfl := List.forall₂_nil_left_iff.mp hnil
    obtain rfl := hd.unique he
    refine ⟨d, hd, ?_⟩
    rw [numberBehind, List.foldl_cons, List.foldl_cons, List.foldl_nil]
    omega
  · rintro ⟨d, hd, rfl⟩
    refine ⟨[d, d], .cons hd (.cons hd .nil), ?_⟩
    rw [numberBehind, List.foldl_cons, List.foldl_cons, List.foldl_nil]
    omega

/-- Two digits write a number below 256. -/
theorem exists_writes_of_pair {cs : List Char} (hlength : cs.length = 2)
    (h : ∀ c ∈ cs, ∃ d, IsHexDigit c d) : ∃ m : UInt8, Writes cs m.toNat := by
  obtain ⟨a, b, rfl⟩ := List.length_eq_two.mp hlength
  obtain ⟨x, hx⟩ := h a List.mem_cons_self
  obtain ⟨y, hy⟩ := h b (List.mem_cons_of_mem _ List.mem_cons_self)
  have hx16 := hx.lt_sixteen
  have hy16 := hy.lt_sixteen
  refine ⟨(16 * x + y).toUInt8, [x, y], .cons hx (.cons hy .nil), ?_⟩
  rw [numberBehind, List.foldl_cons, List.foldl_cons, List.foldl_nil,
    UInt8.toNat_ofNat_of_lt' (by omega : 16 * x + y < 256)]
  omega

/-- What writes a number consists of digits. -/
theorem Writes.forall_isHexDigit {cs : List Char} {n : Nat} (h : Writes cs n) :
    ∀ c ∈ cs, ∃ d, IsHexDigit c d := by
  obtain ⟨ds, hds, -⟩ := h
  clear n
  induction hds with
  | nil => exact fun _ h => absurd h List.not_mem_nil
  | cons hd _ ih => exact List.forall_mem_cons.mpr ⟨⟨_, hd⟩, ih⟩

/-- The digits of a number have one byte each. -/
theorem Writes.utf8Size_eq {cs : List Char} {n : Nat} (h : Writes cs n) :
    ∀ c ∈ cs, c.utf8Size = 1 := fun c hc =>
  (h.forall_isHexDigit c hc).elim fun _ hd => hd.utf8Size_eq

/-- Without a plus sign, only digits are a number. -/
theorem isNumeral_iff_writes {cs : List Char} (hne : cs ≠ []) (hplus : '+' ∉ cs) {n : Nat} :
    IsNumeral cs n ↔ Writes cs n := by
  constructor
  · rintro ⟨ds, -, rfl | rfl, hwrites⟩
    · exact hwrites
    · exact absurd List.mem_cons_self hplus
  · exact fun h => ⟨cs, hne, .inl rfl, h⟩

/-- The characters of a number have one byte each. -/
theorem IsNumeral.byteLength_eq {cs : List Char} {n : Nat} (h : IsNumeral cs n) :
    byteLength cs = cs.length := by
  refine byteLength_eq_length ?_
  obtain ⟨ds, -, rfl | rfl, hwrites⟩ := h
  · exact hwrites.utf8Size_eq
  · exact List.forall_mem_cons.mpr ⟨rfl, hwrites.utf8Size_eq⟩

end Text

namespace Color

/-! ## The grammar -/

theorem withoutHash_subset (cs : List Char) : withoutHash cs ⊆ cs := by
  rw [withoutHash.eq_def]
  split
  · exact List.subset_cons_self _ _
  · exact List.Subset.refl _

/-- **The three digits of an opaque colour**, each of which stands for two. -/
def IsShort (c : Color) (cs : List Char) : Prop :=
  ∃ r g b, cs = [r, g, b] ∧ Text.Writes [r, r] c.red.toNat ∧ Text.Writes [g, g] c.green.toNat ∧
    Text.Writes [b, b] c.blue.toNat ∧ c.alpha = 1

/-- **The three pairs of an opaque colour**, each of which is a channel in the given sense. -/
def IsLong (isChannel : List Char → Nat → Prop) (c : Color) (cs : List Char) : Prop :=
  ∃ r g b, cs = r ++ (g ++ b) ∧ (r.length = 2 ∧ g.length = 2 ∧ b.length = 2) ∧
    isChannel r c.red.toNat ∧ isChannel g c.green.toNat ∧ isChannel b c.blue.toNat ∧ c.alpha = 1

/-- **A single digit is read as two of them**, and the channel has room for that. -/
theorem shortChannel?_eq_some_iff {c : Char} {m : UInt8} :
    shortChannel? c = some m ↔ Text.Writes [c, c] m.toNat := by
  rw [Text.writes_twice_iff, shortChannel?, Option.map_eq_some_iff]
  constructor
  · rintro ⟨n, hn, rfl⟩
    have hdigit := Text.isNumeral_singleton_iff.mp (Text.hexByte?_eq_some_iff.mp hn)
    have hlt := hdigit.lt_sixteen
    refine ⟨n.toNat, hdigit, ?_⟩
    rw [UInt8.toNat_mul]
    exact Nat.mod_eq_of_lt (by omega : n.toNat * 17 < 256)
  · rintro ⟨d, hd, hm⟩
    have hlt := hd.lt_sixteen
    have hnat : d.toUInt8.toNat = d := UInt8.toNat_ofNat_of_lt' (by omega : d < 256)
    refine ⟨d.toUInt8, Text.hexByte?_eq_some_iff.mpr ?_, UInt8.toNat_inj.mp ?_⟩
    · rw [hnat]
      exact Text.isNumeral_singleton_iff.mpr hd
    · rw [UInt8.toNat_mul, hnat, hm]
      exact Nat.mod_eq_of_lt (by omega : d * 17 < 256)

/-- **Channels are read one by one**, and each character must be one. -/
theorem mapM_shortChannel?_eq_some_iff {cs : List Char} {ms : List UInt8} :
    cs.mapM shortChannel? = some ms ↔
      List.Forall₂ (fun c m => Text.Writes [c, c] m.toNat) cs ms := by
  induction cs generalizing ms with
  | nil => simp only [List.mapM_nil, Option.pure_def, Option.some_inj, List.forall₂_nil_left_iff,
      eq_comm]
  | cons c cs ih =>
    simp only [List.mapM_cons, Option.bind_eq_bind, Option.bind_eq_some_iff,
      shortChannel?_eq_some_iff, ih, Option.pure_def, Option.some_inj, List.forall₂_cons_left_iff]
    constructor
    · rintro ⟨m, hm, ms, hms, rfl⟩
      exact ⟨m, ms, hm, hms, rfl⟩
    · rintro ⟨m, ms, hm, hms, rfl⟩
      exact ⟨m, hm, ms, hms, rfl⟩

/-- **Two bytes are read as the number they are**, where they do not begin or end inside of a
character. -/
theorem channel?_eq_some_iff {cs : List Char} {start : Nat} {m : UInt8} :
    channel? cs start = some m ↔ ∃ before part after, cs = before ++ (part ++ after) ∧
      Text.byteLength before = start ∧ part.length = 2 ∧ Text.IsNumeral part m.toNat := by
  rw [channel?, Option.bind_eq_bind, Option.bind_eq_some_iff]
  constructor
  · rintro ⟨part, hpart, hm⟩
    obtain ⟨before, after, hcs, hbefore, hlength⟩ := Text.slice?_eq_some_iff.mp hpart
    have hnumeral := Text.hexByte?_eq_some_iff.mp hm
    exact ⟨before, part, after, hcs, hbefore,
      hnumeral.byteLength_eq.symm.trans (Nat.add_left_cancel hlength), hnumeral⟩
  · rintro ⟨before, part, after, hcs, hbefore, hlength, hnumeral⟩
    refine ⟨part, Text.slice?_eq_some_iff.mpr ⟨before, after, hcs, hbefore, ?_⟩,
      Text.hexByte?_eq_some_iff.mpr hnumeral⟩
    rw [hnumeral.byteLength_eq, hlength]

/-- The three digits of a colour have a byte each. -/
theorem IsShort.byteLength_eq {c : Color} {cs : List Char} (h : IsShort c cs) :
    Text.byteLength cs = 3 := by
  obtain ⟨r, g, b, rfl, hr, hg, hb, -⟩ := h
  refine Text.byteLength_eq_length (List.forall_mem_cons.mpr ⟨hr.utf8Size_eq r ?_,
    List.forall_mem_cons.mpr ⟨hg.utf8Size_eq g ?_, List.forall_mem_singleton.mpr
      (hb.utf8Size_eq b ?_)⟩⟩)
  all_goals exact List.mem_cons_self

/-- The three pairs of a colour have six bytes. -/
theorem IsLong.byteLength_eq {c : Color} {cs : List Char} (h : IsLong Text.IsNumeral c cs) :
    Text.byteLength cs = 6 := by
  obtain ⟨r, g, b, rfl, ⟨hr2, hg2, hb2⟩, hr, hg, hb, -⟩ := h
  rw [Text.byteLength_append, Text.byteLength_append, hr.byteLength_eq, hg.byteLength_eq,
    hb.byteLength_eq, hr2, hg2, hb2]

/-- **Of three bytes, three digits are read.** -/
theorem ofShort?_eq_some_iff {cs : List Char} (hcs : Text.byteLength cs = 3) {c : Color} :
    ofShort? cs = some c ↔ IsShort c cs := by
  rw [ofShort?, Option.bind_eq_bind, Option.bind_eq_some_iff]
  constructor
  · rintro ⟨ms, hms, hc⟩
    rw [mapM_shortChannel?_eq_some_iff] at hms
    have hlength : cs.length = 3 := by
      rw [← hcs]
      have hdigits := (List.forall₂_and_left _ _).mp
        (hms.imp fun a m hm => ⟨hm.utf8Size_eq a List.mem_cons_self, hm⟩)
      exact (Text.byteLength_eq_length hdigits.1).symm
    obtain ⟨r, g, b, rfl⟩ := List.length_eq_three.mp hlength
    obtain _ | ⟨hr, _ | ⟨hg, _ | ⟨hb, _ | _⟩⟩⟩ := hms
    obtain rfl := Option.some.inj hc
    exact ⟨r, g, b, rfl, hr, hg, hb, rfl⟩
  · rintro ⟨r, g, b, rfl, hr, hg, hb, halpha⟩
    refine ⟨[c.red, c.green, c.blue],
      mapM_shortChannel?_eq_some_iff.mpr (.cons hr (.cons hg (.cons hb .nil))), ?_⟩
    obtain ⟨red, green, blue, alpha⟩ := c
    obtain rfl : alpha = 1 := halpha
    rfl

/-- **Of six bytes, three pairs are read.** -/
theorem ofLong?_eq_some_iff {cs : List Char} (hcs : Text.byteLength cs = 6) {c : Color} :
    ofLong? cs = some c ↔ IsLong Text.IsNumeral c cs := by
  constructor
  · intro h
    obtain ⟨red, hred, h⟩ := Option.bind_eq_some_iff.mp h
    obtain ⟨green, hgreen, h⟩ := Option.bind_eq_some_iff.mp h
    obtain ⟨blue, hblue, hc⟩ := Option.bind_eq_some_iff.mp h
    obtain rfl := Option.some.inj hc
    obtain ⟨front, r, afterRed, hr, hfront, hr2, hred⟩ := channel?_eq_some_iff.mp hred
    obtain ⟨r', g, afterGreen, hg, hr', hg2, hgreen⟩ := channel?_eq_some_iff.mp hgreen
    obtain ⟨rg, b, afterBlue, hb, hrg, hb2, hblue⟩ := channel?_eq_some_iff.mp hblue
    -- the parts lie side by side, and together they are as long as the text
    obtain rfl := Text.byteLength_eq_zero_iff.mp hfront
    rw [List.nil_append] at hr
    obtain ⟨rfl, rfl⟩ := Text.append_inj_of_byteLength (hr.symm.trans hg)
      (hred.byteLength_eq.trans (hr2.trans hr'.symm))
    obtain ⟨rfl, rfl⟩ := Text.append_inj_of_byteLength
      ((List.append_assoc ..).trans (hg.symm.trans hb))
      (by rw [Text.byteLength_append, hr', hgreen.byteLength_eq, hg2, hrg])
    have hnothing : Text.byteLength afterBlue = 0 := by
      rw [hg, Text.byteLength_append, Text.byteLength_append, Text.byteLength_append,
        hgreen.byteLength_eq, hblue.byteLength_eq] at hcs
      omega
    obtain rfl := Text.byteLength_eq_zero_iff.mp hnothing
    rw [List.append_nil] at hg
    exact ⟨r, g, b, hg, ⟨hr2, hg2, hb2⟩, hred, hgreen, hblue, rfl⟩
  · rintro ⟨r, g, b, rfl, ⟨hr2, hg2, hb2⟩, hr, hg, hb, halpha⟩
    have hr' := hr.byteLength_eq.trans hr2
    have hrg : Text.byteLength (r ++ g) = 4 := by
      rw [Text.byteLength_append, hr', hg.byteLength_eq, hg2]
    have hred : channel? (r ++ (g ++ b)) 0 = some c.red :=
      channel?_eq_some_iff.mpr ⟨[], r, g ++ b, rfl, rfl, hr2, hr⟩
    have hgreen : channel? (r ++ (g ++ b)) 2 = some c.green :=
      channel?_eq_some_iff.mpr ⟨r, g, b, rfl, hr', hg2, hg⟩
    have hblue : channel? (r ++ (g ++ b)) 4 = some c.blue := by
      refine channel?_eq_some_iff.mpr ⟨r ++ g, b, [], ?_, hrg, hb2, hb⟩
      rw [List.append_nil, List.append_assoc]
    rw [ofLong?, hred, hgreen, hblue]
    obtain ⟨red, green, blue, alpha⟩ := c
    obtain rfl : alpha = 1 := halpha
    rfl

/-- **Which colour is read of which text**: that of three digits or of three pairs, and a pair is
a number of two digits, or of one behind a plus sign. -/
theorem ofHex?_eq_some_iff {s : String} {c : Color} : ofHex? s = some c ↔
    IsShort c (withoutHash s.toList) ∨ IsLong Text.IsNumeral c (withoutHash s.toList) := by
  rw [ofHex?]
  split
  · next hlength =>
    rw [ofShort?_eq_some_iff hlength, or_iff_left]
    exact fun h => absurd (h.byteLength_eq.symm.trans hlength) (by decide)
  · next hlength =>
    rw [ofLong?_eq_some_iff hlength, or_iff_right]
    exact fun h => absurd (h.byteLength_eq.symm.trans hlength) (by decide)
  · next hshort hlong =>
    refine iff_of_false (Option.some_ne_none _).symm ?_
    exact not_or.mpr ⟨fun h => hshort h.byteLength_eq, fun h => hlong h.byteLength_eq⟩

/-- Without a plus sign, the pairs are two digits each. -/
theorem isLong_isNumeral_iff {c : Color} {cs : List Char} (hplus : '+' ∉ cs) :
    IsLong Text.IsNumeral c cs ↔ IsLong Text.Writes c cs := by
  have hpair {part : List Char} {n : Nat} (hlength : part.length = 2) (hsub : part ⊆ cs) :
      Text.IsNumeral part n ↔ Text.Writes part n := by
    refine Text.isNumeral_iff_writes ?_ fun h => hplus (hsub h)
    rintro rfl
    exact absurd hlength (by decide)
  refine exists_congr fun r => exists_congr fun g => exists_congr fun b =>
    and_congr_right fun hcs => and_congr_right fun ⟨hr2, hg2, hb2⟩ => ?_
  rw [hpair hr2 fun a ha => hcs ▸ List.mem_append_left _ ha,
    hpair hg2 fun a ha => hcs ▸ List.mem_append_right _ (List.mem_append_left _ ha),
    hpair hb2 fun a ha => hcs ▸ List.mem_append_right _ (List.mem_append_right _ ha)]

/-- **Three digits or six** are a colour, and a colour is that. -/
theorem exists_isShort_or_isLong_iff {cs : List Char} :
    (∃ c, IsShort c cs ∨ IsLong Text.Writes c cs) ↔
      (∀ a ∈ cs, ∃ d, Text.IsHexDigit a d) ∧ (cs.length = 3 ∨ cs.length = 6) := by
  constructor
  · rintro ⟨c, ⟨r, g, b, rfl, hr, hg, hb, -⟩ | ⟨r, g, b, rfl, ⟨hr2, hg2, hb2⟩, hr, hg, hb, -⟩⟩
    · have hdigit {a : Char} {n : Nat} (h : Text.Writes [a, a] n) :=
        h.forall_isHexDigit a List.mem_cons_self
      exact ⟨List.forall_mem_cons.mpr ⟨hdigit hr, List.forall_mem_cons.mpr
        ⟨hdigit hg, List.forall_mem_singleton.mpr (hdigit hb)⟩⟩, .inl rfl⟩
    · refine ⟨List.forall_mem_append.mpr ⟨hr.forall_isHexDigit, List.forall_mem_append.mpr
        ⟨hg.forall_isHexDigit, hb.forall_isHexDigit⟩⟩, .inr ?_⟩
      rw [List.length_append, List.length_append, hr2, hg2, hb2]
  · rintro ⟨hdigits, hshort | hlong⟩
    · obtain ⟨r, g, b, rfl⟩ := List.length_eq_three.mp hshort
      have hwrites : ∀ a ∈ [r, g, b], ∃ m : UInt8, Text.Writes [a, a] m.toNat := fun a ha =>
        Text.exists_writes_of_pair rfl
          (List.forall_mem_cons.mpr ⟨hdigits a ha, List.forall_mem_singleton.mpr (hdigits a ha)⟩)
      simp only [List.forall_mem_cons] at hwrites
      obtain ⟨⟨red, hred⟩, ⟨green, hgreen⟩, ⟨blue, hblue⟩, -⟩ := hwrites
      exact ⟨rgb red green blue, .inl ⟨r, g, b, rfl, hred, hgreen, hblue, rfl⟩⟩
    · have hwrites {part : List Char} (hlength : part.length = 2) (hsub : part ⊆ cs) :
          ∃ m : UInt8, Text.Writes part m.toNat :=
        Text.exists_writes_of_pair hlength fun a ha => hdigits a (hsub ha)
      have hr2 : (cs.take 2).length = 2 := by
        rw [List.length_take]
        omega
      have hg2 : ((cs.drop 2).take 2).length = 2 := by
        rw [List.length_take, List.length_drop]
        omega
      have hb2 : ((cs.drop 2).drop 2).length = 2 := by
        rw [List.length_drop, List.length_drop]
        omega
      obtain ⟨red, hred⟩ := hwrites hr2 (List.take_subset 2 cs)
      obtain ⟨green, hgreen⟩ := hwrites hg2 fun a ha =>
        List.drop_subset 2 cs (List.take_subset 2 _ ha)
      obtain ⟨blue, hblue⟩ := hwrites hb2 fun a ha =>
        List.drop_subset 2 cs (List.drop_subset 2 _ ha)
      refine ⟨rgb red green blue, .inr ⟨_, _, _, ?_, ⟨hr2, hg2, hb2⟩, hred, hgreen, hblue, rfl⟩⟩
      rw [List.take_append_drop, List.take_append_drop]

/-- **Which texts are colours.** A text is the colour of its three digits, each of them twice, or
of its three pairs, behind one `#` or not. A pair is a number of two digits, or of one digit
behind a plus sign.

So a text without a plus sign is a colour exactly if it consists of three or of six hexadecimal
digits, behind one `#` or not, and the channels are what these write. -/
theorem hex_grammar (s : String) :
    (∀ c, ofHex? s = some c ↔
      IsShort c (withoutHash s.toList) ∨ IsLong Text.IsNumeral c (withoutHash s.toList)) ∧
    ('+' ∉ s.toList →
      (∀ c, ofHex? s = some c ↔
        IsShort c (withoutHash s.toList) ∨ IsLong Text.Writes c (withoutHash s.toList)) ∧
      ((ofHex? s).isSome ↔ (∀ a ∈ withoutHash s.toList, ∃ d, Text.IsHexDigit a d) ∧
        ((withoutHash s.toList).length = 3 ∨ (withoutHash s.toList).length = 6))) := by
  refine ⟨fun c => ofHex?_eq_some_iff, fun hplus => ?_⟩
  have hdigits : '+' ∉ withoutHash s.toList := fun h => hplus (withoutHash_subset _ h)
  have hread (c : Color) : ofHex? s = some c ↔
      IsShort c (withoutHash s.toList) ∨ IsLong Text.Writes c (withoutHash s.toList) := by
    rw [ofHex?_eq_some_iff, isLong_isNumeral_iff hdigits]
  refine ⟨hread, ?_⟩
  rw [Option.isSome_iff_exists, ← exists_isShort_or_isLong_iff]
  exact exists_congr hread

/-- The text `#f00` is red. -/
theorem short_red_is_color :
    '+' ∉ "#f00".toList ∧ ofHex? "#f00" = some (rgb 255 0 0) ∧ (ofHex? "#f00").isSome := by
  have hplus : '+' ∉ "#f00".toList := by decide
  have hzero : Text.Writes ['0', '0'] 0 :=
    ⟨[0, 0], .cons (by decide) (.cons (by decide) .nil), rfl⟩
  have hred : ofHex? "#f00" = some (rgb 255 0 0) :=
    (((hex_grammar "#f00").2 hplus).1 _).mpr (.inl ⟨'f', '0', '0', by decide,
      ⟨[15, 15], .cons (by decide) (.cons (by decide) .nil), rfl⟩, hzero, hzero, rfl⟩)
  exact ⟨hplus, hred, Option.isSome_iff_exists.mpr ⟨_, hred⟩⟩

/-- **A plus sign is read with a digit.** The text `+1+2+3` is a colour, though it does not consist
of digits; of three characters none can be a plus sign. -/
theorem plus_sign_makes_color :
    ofHex? "+1+2+3" = some (rgb 1 2 3) ∧
      ¬(∀ a ∈ withoutHash "+1+2+3".toList, ∃ d, Text.IsHexDigit a d) ∧ ofHex? "+++" = none := by
  refine ⟨rfl, fun h => ?_, rfl⟩
  obtain ⟨d, hd⟩ := h '+' List.mem_cons_self
  exact hd.ne_plus rfl

end Color

end MapStyle
