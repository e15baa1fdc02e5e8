import AccessRules.Proofs.Canonical.Rows

/-!
# Where two rows differ

1. **Lists** — the first difference is the place in front of which two lists are the same and at
   which they are not, also because one of them ends there (`firstDifference_eq_some_iff`).  So it
   is the length of the longest list in front of both (`longestCommon_of_firstDifference`).

2. **Rows** — octets that are made of rule objects are compared object by object
   (`mismatch?_flatten`), since they are made of them in one way only.  Whatever the octets are, no
   difference is found only if there is none (`mismatch?_eq_none_iff`), and octets that are not the
   same are only compared if both are rows (`mismatch?_of_not_cut`).

`mismatch?_exact` has all of it.
-/

namespace AccessRules.Canonical

/-! ## Lists -/

/-- Lists that differ nowhere are the same. -/
theorem firstDifference_eq_none_iff {index : Nat} {as bs : List Bytes} :
    firstDifference index as bs = none ↔ as = bs := by
  induction as generalizing index bs with
  | nil => cases bs <;> simp [firstDifference]
  | cons a as ih =>
    cases bs with
    | nil => simp [firstDifference]
    | cons b bs =>
      rw [firstDifference]
      by_cases hsame : a = b
      · rw [if_pos hsame, ih, hsame, List.cons.injEq, eq_self, true_and]
      · rw [if_neg hsame]
        exact ⟨nofun, fun heq => absurd (List.cons.inj heq).1 hsame⟩

/-- Lists with different heads have nothing in common. -/
theorem exists_place_iff_of_head?_ne {index place : Nat} {as bs : List Bytes}
    (h : as[0]? ≠ bs[0]?) :
    (∃ n, place = index + n ∧ as.take n = bs.take n ∧ as[n]? ≠ bs[n]?) ↔ index = place := by
  constructor
  · rintro ⟨n, rfl, htake, -⟩
    cases n with
    | zero => rfl
    | succ n =>
      have hhead := congrArg (·[0]?) htake
      rw [List.getElem?_take_of_lt n.succ_pos, List.getElem?_take_of_lt n.succ_pos] at hhead
      exact absurd hhead h
  · rintro rfl
    exact ⟨0, rfl, rfl, h⟩

/-- The first difference is the end of what two lists have in common. -/
theorem firstDifference_eq_some_iff {index place : Nat} {as bs : List Bytes} :
    firstDifference index as bs = some place ↔
      ∃ n, place = index + n ∧ as.take n = bs.take n ∧ as[n]? ≠ bs[n]? := by
  induction as generalizing index bs with
  | nil =>
    cases bs with
    | nil => simp [firstDifference]
    | cons b bs =>
      have hhead : ([] : List Bytes)[0]? ≠ (b :: bs)[0]? := nofun
      rw [exists_place_iff_of_head?_ne hhead]
      exact Option.some_inj
  | cons a as ih =>
    cases bs with
    | nil =>
      have hhead : (a :: as)[0]? ≠ ([] : List Bytes)[0]? := nofun
      rw [exists_place_iff_of_head?_ne hhead]
      exact Option.some_inj
    | cons b bs =>
      rw [firstDifference]
      -- a common head moves the place on by one; different heads are the place
      by_cases hsame : a = b
      · obtain rfl := hsame
        rw [if_pos rfl, ih]
        constructor
        · rintro ⟨n, rfl, htake, hne⟩
          refine ⟨n + 1, by omega, ?_, hne⟩
          rw [List.take_succ_cons, List.take_succ_cons, htake]
        · rintro ⟨n, rfl, htake, hne⟩
          cases n with
          | zero => exact absurd rfl hne
          | succ n =>
            rw [List.take_succ_cons, List.take_succ_cons] at htake
            exact ⟨n, by omega, (List.cons.inj htake).2, hne⟩
      · have hhead : (a :: as)[0]? ≠ (b :: bs)[0]? := fun heq => hsame (Option.some.inj heq)
        rw [if_neg hsame, exists_place_iff_of_head?_ne hhead, Option.some.injEq]

/-- Where a list is cut off, it differs from itself. -/
theorem firstDifference_take {as : List Bytes} {n : Nat} (h : n < as.length) :
    firstDifference 0 as (as.take n) = some n := by
  refine firstDifference_eq_some_iff.mpr ⟨n, (Nat.zero_add n).symm, ?_, ?_⟩
  · rw [List.take_take, Nat.min_self]
  · rw [List.getElem?_take, if_neg (Nat.lt_irrefl n), List.getElem?_eq_getElem h]
    exact nofun

/-- Two lists part in the same place, whichever comes first. -/
theorem firstDifference_comm (index : Nat) (as bs : List Bytes) :
    firstDifference index as bs = firstDifference index bs as := by
  induction as generalizing index bs with
  | nil => cases bs <;> rfl
  | cons a as ih =>
    cases bs with
    | nil => rfl
    | cons b bs =>
      rw [firstDifference, firstDifference, ih]
      by_cases hsame : a = b
      · rw [if_pos hsame, if_pos hsame.symm]
      · rw [if_neg hsame, if_neg (Ne.symm hsame)]

/-- `LongestCommon common as bs` — the list is in front of both lists, and every list in front of
both is in front of it. -/
structure LongestCommon (common as bs : List Bytes) : Prop where
  left : common <+: as
  right : common <+: bs
  longest : ∀ front, front <+: as → front <+: bs → front <+: common

/-- `PartAt n as bs` — the lists both go on at a place and differ there, or one of them ends there
and the other goes on. -/
def PartAt (n : Nat) (as bs : List Bytes) : Prop :=
  (∃ a b, as[n]? = some a ∧ bs[n]? = some b ∧ a ≠ b) ∨
    (as.length = n ∧ n < bs.length) ∨ (bs.length = n ∧ n < as.length)

/-- Lists that are the same in front of a place and not at it part there. -/
theorem partAt_of_take_eq {as bs : List Bytes} {n : Nat} (htake : as.take n = bs.take n)
    (hne : as[n]? ≠ bs[n]?) : n ≤ as.length ∧ PartAt n as bs := by
  have hlength := congrArg List.length htake
  rw [List.length_take, List.length_take] at hlength
  have hgoes : n < as.length ∨ n < bs.length := by
    by_contra hboth
    rw [List.getElem?_eq_none (by omega), List.getElem?_eq_none (by omega)] at hne
    exact hne rfl
  refine ⟨by omega, ?_⟩
  -- one list may end at the place, but not both, as they would be the same there
  rcases Nat.lt_trichotomy n as.length with has | has | has
  · rcases Nat.lt_trichotomy n bs.length with hbs | hbs | hbs
    · rw [List.getElem?_eq_getElem has, List.getElem?_eq_getElem hbs] at hne
      exact Or.inl ⟨as[n], bs[n], List.getElem?_eq_getElem has, List.getElem?_eq_getElem hbs,
        fun heq => hne (congrArg some heq)⟩
    · exact Or.inr (Or.inr ⟨hbs.symm, has⟩)
    · omega
  · exact Or.inr (Or.inl ⟨has.symm, by omega⟩)
  · omega

/-- The first difference is behind the longest list in front of both. -/
theorem longestCommon_of_firstDifference {as bs : List Bytes} {n : Nat}
    (h : firstDifference 0 as bs = some n) :
    LongestCommon (as.take n) as bs ∧ (as.take n).length = n ∧ PartAt n as bs := by
  obtain ⟨n, rfl, htake, hne⟩ := firstDifference_eq_some_iff.mp h
  rw [Nat.zero_add]
  obtain ⟨hle, hpart⟩ := partAt_of_take_eq htake hne
  refine ⟨⟨List.take_prefix n as, ?_, ?_⟩, List.length_take_of_le hle, hpart⟩
  · rw [htake]
    exact List.take_prefix n bs
  · intro front hleft hright
    refine List.prefix_take_iff.mpr ⟨hleft, ?_⟩
    -- a longer list in front of both would make them the same at the place
    by_contra hlonger
    have hlt : n < front.length := by omega
    obtain ⟨as', rfl⟩ := hleft
    obtain ⟨bs', rfl⟩ := hright
    rw [List.getElem?_append_left hlt, List.getElem?_append_left hlt] at hne
    exact hne rfl

/-! ## Rows -/

/-- Rule objects joined are cut into themselves. -/
theorem cut_flatten {pieces : List Bytes} (h : ∀ piece ∈ pieces, IsRuleObject piece) :
    cut pieces.flatten = .ok pieces :=
  cutFrom_eq_ok_iff.mpr ⟨rfl, h⟩

/-- Octets are made of rule objects in one way only. -/
theorem eq_of_flatten_eq {pieces others : List Bytes} (h : ∀ piece ∈ pieces, IsRuleObject piece)
    (h' : ∀ piece ∈ others, IsRuleObject piece) (heq : pieces.flatten = others.flatten) :
    pieces = others := by
  have hcut := cut_flatten h
  rw [heq, cut_flatten h'] at hcut
  exact (Except.ok.inj hcut).symm

/-- Rows are compared object by object. -/
theorem mismatch?_flatten {pieces others : List Bytes} (h : ∀ piece ∈ pieces, IsRuleObject piece)
    (h' : ∀ piece ∈ others, IsRuleObject piece) :
    mismatch? pieces.flatten others.flatten = .ok (firstDifference 0 pieces others) := by
  unfold mismatch?
  by_cases hsame : pieces.flatten = others.flatten
  · rw [if_pos hsame, firstDifference_eq_none_iff.mpr (eq_of_flatten_eq h h' hsame)]
  · rw [if_neg hsame, cut_flatten h, cut_flatten h']
    rfl

/-- No difference is found exactly between octets that are the same. -/
theorem mismatch?_eq_none_iff {expected actual : Bytes} :
    mismatch? expected actual = .ok none ↔ expected = actual := by
  unfold mismatch?
  by_cases hsame : expected = actual
  · rw [if_pos hsame]
    exact iff_of_true rfl hsame
  · rw [if_neg hsame]
    refine ⟨fun h => ?_, fun h => absurd h hsame⟩
    obtain ⟨pieces, hexpected, h⟩ := bind_eq_ok_iff.mp h
    obtain ⟨others, hactual, h⟩ := bind_eq_ok_iff.mp h
    have hpieces : pieces = others := firstDifference_eq_none_iff.mp (Except.ok.inj h)
    rw [(cutFrom_eq_ok_iff.mp hexpected).1, (cutFrom_eq_ok_iff.mp hactual).1, hpieces]

/-- What can be cut is compared piece by piece. -/
theorem mismatch?_of_cut {expected actual : Bytes} {pieces others : List Bytes}
    (h : cut expected = .ok pieces) (h' : cut actual = .ok others) :
    mismatch? expected actual = .ok (firstDifference 0 pieces others) := by
  obtain ⟨rfl, hpieces⟩ := cutFrom_eq_ok_iff.mp h
  obtain ⟨rfl, hothers⟩ := cutFrom_eq_ok_iff.mp h'
  exact mismatch?_flatten hpieces hothers

/-- Octets that are not the same are refused if one of them is no row. -/
theorem mismatch?_of_not_cut {expected actual : Bytes} (hne : expected ≠ actual)
    (h : ¬∃ pieces others, cut expected = .ok pieces ∧ cut actual = .ok others) :
    ∃ error, mismatch? expected actual = .error error ∧
      (cut expected = .error error ∨ cut actual = .error error) := by
  unfold mismatch?
  rw [if_neg hne]
  cases hexpected : cut expected with
  | error error => exact ⟨error, rfl, Or.inl rfl⟩
  | ok pieces =>
    cases hactual : cut actual with
    | error error => exact ⟨error, rfl, Or.inr rfl⟩
    | ok others => exact absurd ⟨pieces, others, hexpected, hactual⟩ h

/-- **The first difference is found exactly.**  Between rows no difference is found if there is
none.  Otherwise what is found is the length of the longest row in front of both, at which both rows
go on with different rules or just one of them goes on, and it is the same the other way round.
Octets that are not the same are refused if one of them is no row. -/
theorem mismatch?_exact :
    (∀ expected actual pieces others, cut expected = .ok pieces → cut actual = .ok others →
      (mismatch? expected actual = .ok none ↔ expected = actual) ∧
      (expected ≠ actual → ∃ n common, mismatch? expected actual = .ok (some n) ∧
        LongestCommon common pieces others ∧ common.length = n ∧
        pieces.take n = others.take n ∧ PartAt n pieces others) ∧
      mismatch? actual expected = mismatch? expected actual) ∧
    ∀ expected actual, expected ≠ actual →
      (¬∃ pieces others, cut expected = .ok pieces ∧ cut actual = .ok others) →
      ∃ error, mismatch? expected actual = .error error ∧
        (cut expected = .error error ∨ cut actual = .error error) ∧
        error.report.notice.category = .coded .malformedStore := by
  refine ⟨fun expected actual pieces others h h' => ⟨mismatch?_eq_none_iff, ?_, ?_⟩, ?_⟩
  · intro hne
    have hfound := mismatch?_of_cut h h'
    -- without a first difference the octets would be the same
    cases hdifference : firstDifference 0 pieces others with
    | none =>
      rw [hdifference] at hfound
      exact absurd (mismatch?_eq_none_iff.mp hfound) hne
    | some n =>
      obtain ⟨hcommon, hlength, hpart⟩ := longestCommon_of_firstDifference hdifference
      obtain ⟨_, hn, htake, -⟩ := firstDifference_eq_some_iff.mp hdifference
      rw [Nat.zero_add] at hn
      rw [hdifference] at hfound
      exact ⟨n, pieces.take n, hfound, hcommon, hlength, hn ▸ htake, hpart⟩
  · rw [mismatch?_of_cut h h', mismatch?_of_cut h' h, firstDifference_comm]
  · intro expected actual hne hnot
    -- the error is that of the first of the two that cannot be cut
    obtain ⟨error, hfound, hcut⟩ := mismatch?_of_not_cut hne hnot
    exact ⟨error, hfound, hcut, error.notice_report.1⟩

/-- Rows whose second objects end in different places part behind what they have in common; and a
row is not compared with octets that end in the middle of an object. -/
theorem mismatch?_exact_of_second :
    (∃ common, mismatch? [0xe2, 0, 0xe2, 1, 0] [0xe2, 0, 0xe2, 0, 0xe2, 0]
        = .ok (some common.length) ∧
      LongestCommon common [[0xe2, 0], [0xe2, 1, 0]] [[0xe2, 0], [0xe2, 0], [0xe2, 0]] ∧
      PartAt common.length [[0xe2, 0], [0xe2, 1, 0]] [[0xe2, 0], [0xe2, 0], [0xe2, 0]]) ∧
    ∃ error, mismatch? [0xe2, 0] [0xe2] = .error error ∧
      error.report.notice.category = .coded .malformedStore := by
  have hempty : IsRuleObject [0xe2, 0] := ⟨[], rfl⟩
  have hzero : IsRuleObject [0xe2, 1, 0] := ⟨[0], rfl⟩
  have hexpected : cut [0xe2, 0, 0xe2, 1, 0] = .ok [[0xe2, 0], [0xe2, 1, 0]] :=
    cutFrom_eq_ok_iff.mpr ⟨rfl, by simp [hempty, hzero]⟩
  have hactual : cut [0xe2, 0, 0xe2, 0, 0xe2, 0] = .ok [[0xe2, 0], [0xe2, 0], [0xe2, 0]] :=
    cutFrom_eq_ok_iff.mpr ⟨rfl, by simp [hempty]⟩
  have hnot : ¬∃ pieces others, cut [0xe2, 0] = .ok pieces ∧ cut [0xe2] = .ok others := by
    rintro ⟨pieces, others, -, h⟩
    rw [cut, cutFrom] at h
    cases h
  obtain ⟨_, common, hfound, hcommon, rfl, -, hpart⟩ :=
    (mismatch?_exact.1 _ _ _ _ hexpected hactual).2.1 (by decide)
  obtain ⟨error, herror, -, hcategory⟩ := mismatch?_exact.2 _ _ (by decide) hnot
  exact ⟨⟨common, hfound, hcommon, hpart⟩, error, herror, hcategory⟩

end AccessRules.Canonical
