import AccessRules.Outcome
import AccessRules.Rule.Input

/-!
# The limits of the format

`Rule.Valid` says which rules keep to the limits, field by field and without any checking function.
Creating a rule succeeds exactly on input that is read as a valid rule (`create_eq_ok_iff`), and
every valid rule is created from itself (`create_of_valid`).  So "returned by `Rule.create`" and
"valid" are the same (`exists_create_iff_valid`).
-/

namespace AccessRules

/-! ## Valid rules -/

/-- A valid filter has a header and a mask of four octets each. -/
def ApduFilter.Valid (filter : ApduFilter) : Prop :=
  filter.header.length = 4 ∧ filter.mask.length = 4

/-- A valid access to commands, if it is filtered, has filters, all of them valid. -/
def ApduAccess.Valid : ApduAccess → Prop
  | .whole _ => True
  | .filtered filters => filters ≠ [] ∧ ∀ filter ∈ filters, filter.Valid

/-- A valid target with an identifier has 1 to 16 octets of it. -/
def Target.Valid : Target → Prop
  | .any => True
  | .aid octets => octets ≠ [] ∧ octets.length ≤ maxAidSize

/-- `reference.Valid` — every field of the reference keeps to its limits. -/
structure Reference.Valid (reference : Reference) : Prop where
  target : reference.target.Valid
  deviceAppId : reference.deviceAppId.length ∈ deviceAppIdSizes
  packageName : ∀ name ∈ reference.packageName, isPackageName name = true

/-- `access.Valid` — the access says something, and every field keeps to its limits. -/
structure Access.Valid (access : Access) : Prop where
  present : access ≠ {}
  apdu : ∀ apdu ∈ access.apdu, apdu.Valid
  permissions : ∀ mask ∈ access.permissions, mask.length = permissionsSize

/-- `rule.Valid` — both halves of the rule are valid. -/
structure Rule.Valid (rule : Rule) : Prop where
  reference : rule.reference.Valid
  access : rule.access.Valid

/-! ## The checks -/

theorem failOn_eq_ok_iff {flaw : Option InputFlaw} {u : Unit} :
    failOn flaw = .ok u ↔ flaw = none := by
  cases flaw with
  | none => exact ⟨fun _ => rfl, fun _ => rfl⟩
  | some flaw => exact ⟨nofun, nofun⟩

/-- Reading gives no target with an identifier of no octets, so only its length is checked. -/
theorem Target.flaw?_eq_none_iff {target : Target} (hread : target ≠ .aid []) :
    target.flaw? = none ↔ target.Valid := by
  cases target with
  | any => exact ⟨fun _ => trivial, fun _ => rfl⟩
  | aid octets =>
    have hoctets : octets ≠ [] := fun h => hread (h ▸ rfl)
    simp only [Target.flaw?, Target.Valid, ite_eq_right_iff]
    constructor
    · intro h
      exact ⟨hoctets, Nat.le_of_not_lt fun hlong => Option.some_ne_none _ (h hlong)⟩
    · intro h hlong
      exact absurd hlong (Nat.not_lt.mpr h.2)

/-- The access to commands has no flaw if there are filters in it that are all whole. -/
theorem ApduAccess.flaw?_eq_none_iff {apdu : ApduAccess} : apdu.flaw? = none ↔ apdu.Valid := by
  cases apdu with
  | whole permission => exact ⟨fun _ => trivial, fun _ => rfl⟩
  | filtered filters =>
    simp only [ApduAccess.flaw?, ApduAccess.Valid, ApduFilter.Valid]
    split
    · rename_i hnil
      constructor
      · intro h
        cases h
      · intro h
        exact absurd hnil h.1
    · rename_i hsome
      split
      · rename_i hall
        refine ⟨fun _ => ⟨hsome, fun filter hmem => ?_⟩, fun _ => rfl⟩
        simpa using List.all_eq_true.mp hall filter hmem
      · rename_i hnot
        constructor
        · intro h
          cases h
        · intro h
          refine absurd (List.all_eq_true.mpr fun filter hmem => ?_) hnot
          simpa using h.2 filter hmem

/-- An access has no flaw if it says something and all that it says is within the limits. -/
theorem Access.flaw?_eq_none_iff {access : Access} : access.flaw? = none ↔ access.Valid := by
  obtain ⟨apdu, nfc, permissions⟩ := access
  rw [Access.flaw?]
  split
  · rename_i hnone
    simp only [Bool.and_eq_true, Option.isNone_iff_eq_none] at hnone
    obtain ⟨⟨rfl, rfl⟩, rfl⟩ := hnone
    exact ⟨nofun, fun h => absurd rfl h.present⟩
  · rename_i hsome
    have hpresent : (⟨apdu, nfc, permissions⟩ : Access) ≠ {} := by
      rintro h
      cases h
      exact hsome rfl
    -- commands are looked at first, and only then the length of the mask
    have hapdu : apdu.bind ApduAccess.flaw? = none ↔ ∀ a ∈ apdu, a.Valid := by
      cases apdu with
      | none => simp
      | some apdu => simp [ApduAccess.flaw?_eq_none_iff]
    simp only
    split
    · rename_i flaw hflaw
      refine ⟨nofun, fun h => ?_⟩
      rw [hapdu.mpr h.apdu] at hflaw
      cases hflaw
    · rename_i hfine
      cases permissions with
      | none => exact ⟨fun _ => ⟨hpresent, hapdu.mp hfine, nofun⟩, fun _ => rfl⟩
      | some mask =>
        simp only [ite_eq_left_iff, reduceCtorEq, imp_false, Decidable.not_not]
        constructor
        · rintro hmask
          exact ⟨hpresent, hapdu.mp hfine, fun mask' h => Option.mem_some.mp h ▸ hmask⟩
        · exact fun h => h.permissions mask rfl

/-! ## Creating a rule -/

/-- No octets name every application, never one without an identifier. -/
theorem Target.ofOctets_ne (octets : Bytes) : Target.ofOctets octets ≠ .aid [] := by
  unfold Target.ofOctets
  split
  · exact nofun
  · rename_i h
    intro heq
    exact h (Target.aid.inj heq)

/-- No target that is read has an empty identifier. -/
theorem TargetInput.read_ne {input : TargetInput} {target : Target}
    (h : input.read = .ok target) : target ≠ .aid [] := by
  cases input with
  | given given =>
    obtain rfl := Except.ok.inj h
    cases given with
    | any => exact nofun
    | aid octets => exact Target.ofOctets_ne octets
  | identifier octets =>
    obtain ⟨aid, -, rfl⟩ := map_eq_ok_iff.mp h
    exact Target.ofOctets_ne aid

/-- A rule is created exactly if what is read from the input is a valid rule. -/
theorem Rule.create_eq_ok_iff {input : RuleInput} {rule : Rule} :
    Rule.create input = .ok rule ↔
      rule.Valid ∧ input.target.read = .ok rule.reference.target ∧
        input.deviceAppId.read = .ok rule.reference.deviceAppId ∧
        rule.reference.packageName = input.packageName ∧ rule.access = input.access := by
  simp only [Rule.create, bind_eq_ok_iff, failOn_eq_ok_iff, exists_and_left, exists_const,
    Except.ok.injEq, Access.flaw?_eq_none_iff, ite_eq_left_iff, reduceCtorEq, imp_false,
    Decidable.not_not]
  constructor
  · rintro ⟨target, htarget, hflaw, deviceAppId, hdevice, hsize, hname, haccess, rfl⟩
    refine ⟨⟨⟨?_, hsize, ?_⟩, haccess⟩, htarget, hdevice, rfl, rfl⟩
    · -- the check lets an empty identifier pass, but none is ever read
      exact (Target.flaw?_eq_none_iff (TargetInput.read_ne htarget)).mp hflaw
    · exact fun name hmem => (Option.all_eq_true _ _).mp hname name hmem
  · obtain ⟨⟨target, deviceAppId, packageName⟩, access⟩ := rule
    rintro ⟨hvalid, htarget, hdevice, rfl, rfl⟩
    refine ⟨target, htarget, ?_, deviceAppId, hdevice, hvalid.reference.deviceAppId, ?_,
      hvalid.access, rfl⟩
    · exact (Target.flaw?_eq_none_iff (TargetInput.read_ne htarget)).mpr hvalid.reference.target
    · exact (Option.all_eq_true _ _).mpr fun name hmem => hvalid.reference.packageName name hmem

/-- A rule as its own input. -/
def Rule.asInput (rule : Rule) : RuleInput :=
  ⟨.given rule.reference.target, .given rule.reference.deviceAppId, rule.reference.packageName,
    rule.access⟩

/-- A valid rule is created from itself. -/
theorem Rule.create_of_valid {rule : Rule} (h : rule.Valid) :
    Rule.create rule.asInput = .ok rule := by
  refine Rule.create_eq_ok_iff.mpr ⟨h, ?_, rfl, rfl, rfl⟩
  have htarget := h.reference.target
  cases hcase : rule.reference.target with
  | any => simp [Rule.asInput, hcase, TargetInput.read, Target.normalize]
  | aid octets =>
    rw [hcase] at htarget
    simp [Rule.asInput, hcase, TargetInput.read, Target.normalize, Target.ofOctets, htarget.1]

/-- The rules that creating returns are the valid ones. -/
theorem Rule.exists_create_iff_valid {rule : Rule} :
    (∃ input, Rule.create input = .ok rule) ↔ rule.Valid :=
  ⟨fun ⟨_, h⟩ => (Rule.create_eq_ok_iff.mp h).1, fun h => ⟨_, Rule.create_of_valid h⟩⟩

end AccessRules
