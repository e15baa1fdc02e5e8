import AccessRules.Proofs.Rule.Limits
import AccessRules.Proofs.Store.Keys
import AccessRules.Store
import Mathlib.Data.List.Nodup

/-!
# Looking rules up

Callers ask for a rule by its reference, and may hand over the target and the device application in
several ways.  `Reference.MeantBy` says which reference they mean by it, without any reading
function: digits are meant in either case, and an identifier without octets means every application.

1. **What is meant** — this is what is read (`readReference_eq_ok_iff`).

2. **What is found** — a store compares keys, but no two references have one key and no two rules of
   a store one reference.  So a rule is found exactly if it is in the store and has the reference
   that is meant (`Store.find_eq_ok_iff`), and exactly where there is none, none is found
   (`Store.find_eq_noRule_iff`, `Store.has_eq_ok_iff`).
-/

namespace AccessRules

/-! ## What is meant -/

/-- `octets.Means meant` — the octets are handed over as such, or as their digits, each of them in
    either case. -/
def Octets.Means : Octets → Bytes → Prop
  | .given octets, meant => octets = meant
  | .text digits, meant => digits.toLower = Hex.encode meant

/-- `target.NamedBy aid` — the identifier names the target: without octets it names every
    application. -/
inductive Target.NamedBy : Target → Bytes → Prop
  | any : Target.any.NamedBy []
  | aid {octets : Bytes} (h : octets ≠ []) : (Target.aid octets).NamedBy octets

/-- `input.Means target` — the target is handed over as such or by its identifier. -/
def TargetInput.Means : TargetInput → Target → Prop
  | .given .any, target => target = .any
  | .given (.aid octets), target => target.NamedBy octets
  | .identifier octets, target => ∃ aid, octets.Means aid ∧ target.NamedBy aid

/-- `reference.MeantBy target deviceAppId packageName` — this is the reference that callers mean
    who hand over these. -/
structure Reference.MeantBy (reference : Reference) (target : TargetInput) (deviceAppId : Octets)
    (packageName : Option String) : Prop where
  target : target.Means reference.target
  deviceAppId : deviceAppId.Means reference.deviceAppId
  packageName : packageName = reference.packageName

/-- Octets are read as what they mean: themselves, or what their digits in either case spell. -/
theorem Octets.read_eq_ok_iff {octets : Octets} {meant : Bytes} :
    octets.read = .ok meant ↔ octets.Means meant := by
  cases octets with
  | given octets => exact ⟨Except.ok.inj, congrArg Except.ok⟩
  | text digits =>
    rw [Octets.Means, ← Hex.decode?_eq_some_iff, Octets.read]
    cases Hex.decode? digits with
    | none => exact ⟨nofun, nofun⟩
    | some found => rw [Except.ok.injEq, Option.some.injEq]

/-- The target that octets name is the one that no octets or all of them stand for. -/
theorem Target.ofOctets_eq_iff {octets : Bytes} {target : Target} :
    Target.ofOctets octets = target ↔ target.NamedBy octets := by
  constructor
  · rintro rfl
    rw [Target.ofOctets]
    split
    · rename_i hnil
      rw [hnil]
      exact .any
    · rename_i hsome
      exact .aid hsome
  · intro h
    cases h with
    | any => rfl
    | aid hsome => rw [Target.ofOctets, if_neg hsome]

/-- A target is read as what is meant by it. -/
theorem TargetInput.read_eq_ok_iff {input : TargetInput} {target : Target} :
    input.read = .ok target ↔ input.Means target := by
  cases input with
  | given given =>
    rw [TargetInput.read, Except.ok.injEq]
    cases given with
    | any => exact eq_comm
    | aid octets => exact Target.ofOctets_eq_iff
  | identifier octets =>
    simp only [TargetInput.read, map_eq_ok_iff, Octets.read_eq_ok_iff, Target.ofOctets_eq_iff]
    rfl

/-- The reference that is read is the one that is meant. -/
theorem readReference_eq_ok_iff {target : TargetInput} {deviceAppId : Octets}
    {packageName : Option String} {reference : Reference} :
    readReference target deviceAppId packageName = .ok reference ↔
      reference.MeantBy target deviceAppId packageName := by
  simp only [readReference, bind_eq_ok_iff, TargetInput.read_eq_ok_iff, Octets.read_eq_ok_iff,
    Except.ok.injEq]
  constructor
  · rintro ⟨target, htarget, deviceAppId, hdevice, rfl⟩
    exact ⟨htarget, hdevice, rfl⟩
  · rintro ⟨htarget, hdevice, rfl⟩
    exact ⟨_, htarget, _, hdevice, rfl⟩

/-! ## What is found -/

namespace Store

variable {store : Store} {target : TargetInput} {deviceAppId : Octets}
  {packageName : Option String} {reference : Reference} {rule : Rule}

/-- The rule found by its key is the one in the store that has the reference. -/
theorem find?_eq_some_iff :
    store.find? reference = some rule ↔ rule ∈ store.rules ∧ rule.reference = reference := by
  constructor
  · intro h
    rw [find?] at h
    have hkey := List.find?_some h
    exact ⟨List.mem_of_find?_eq_some h, Reference.key_injective (of_decide_eq_true hkey)⟩
  · rintro ⟨hmem, rfl⟩
    -- something is found, and no other rule in the store has the key
    have hsome : (store.find? rule.reference).isSome :=
      List.find?_isSome.mpr ⟨rule, hmem, decide_eq_true rfl⟩
    obtain ⟨found, hfound⟩ := Option.isSome_iff_exists.mp hsome
    rw [hfound]
    rw [find?] at hfound
    have hkey := List.find?_some hfound
    have hfoundMem := List.mem_of_find?_eq_some hfound
    rw [List.inj_on_of_nodup_map store.distinct hfoundMem hmem (of_decide_eq_true hkey)]

/-- Nothing is found if no rule in the store has the reference. -/
theorem find?_eq_none_iff :
    store.find? reference = none ↔ reference ∉ store.rules.map Rule.reference := by
  rw [Option.eq_none_iff_forall_ne_some]
  simp only [ne_eq, find?_eq_some_iff, List.mem_map, not_exists]

/-- A reference is in the store if a rule there has it. -/
theorem contains_eq_true_iff :
    store.contains reference = true ↔ reference ∈ store.rules.map Rule.reference := by
  rw [contains, List.any_eq_true, List.mem_map]
  refine exists_congr fun rule => and_congr_right fun _ => ?_
  rw [decide_eq_true_eq]
  exact ⟨fun h => Reference.key_injective h, fun h => congrArg Reference.key h⟩

/-- A rule is found exactly if it is there and its reference is meant. -/
theorem find_eq_ok_iff :
    store.find target deviceAppId packageName = .ok rule ↔
      rule ∈ store.rules ∧ rule.reference.MeantBy target deviceAppId packageName := by
  simp only [find, bind_eq_ok_iff, mapError_eq_ok_iff, readReference_eq_ok_iff]
  constructor
  · rintro ⟨reference, hmeant, h⟩
    split at h
    · rename_i found hfound
      obtain rfl := Except.ok.inj h
      obtain ⟨hmem, rfl⟩ := find?_eq_some_iff.mp hfound
      exact ⟨hmem, hmeant⟩
    · cases h
  · rintro ⟨hmem, hmeant⟩
    refine ⟨rule.reference, hmeant, ?_⟩
    rw [find?_eq_some_iff.mpr ⟨hmem, rfl⟩]

/-- None is found exactly if no rule has the reference that is meant. -/
theorem find_eq_noRule_iff :
    store.find target deviceAppId packageName = .error (.noRule reference) ↔
      reference ∉ store.rules.map Rule.reference ∧
        reference.MeantBy target deviceAppId packageName := by
  rw [← find?_eq_none_iff, ← readReference_eq_ok_iff, find]
  -- what cannot be read fails with another error
  cases readReference target deviceAppId packageName with
  | error flaw =>
    constructor
    · intro h
      cases h
    · rintro ⟨-, h⟩
      cases h
  | ok found =>
    have hfind : ∀ next : Reference → Except LookupError Rule,
        (Except.ok found : Except InputFlaw Reference).mapError LookupError.input >>= next =
          next found := fun next => rfl
    rw [hfind, Except.ok.injEq]
    cases hfound : store.find? found with
    | some rule =>
      constructor
      · intro h
        cases h
      · rintro ⟨hnone, rfl⟩
        rw [hfound] at hnone
        cases hnone
    | none =>
      constructor
      · intro h
        cases h
        exact ⟨hfound, rfl⟩
      · rintro ⟨-, rfl⟩
        rfl

/-- Asking whether there is a rule tells whether the reference that is meant is that of a rule. -/
theorem has_eq_ok_iff {found : Bool} :
    store.has target deviceAppId packageName = .ok found ↔
      ∃ reference : Reference, reference.MeantBy target deviceAppId packageName ∧
        (found = true ↔ reference ∈ store.rules.map Rule.reference) := by
  simp only [has, map_eq_ok_iff, readReference_eq_ok_iff]
  refine exists_congr fun reference => and_congr_right fun _ => ?_
  rw [← contains_eq_true_iff, Bool.eq_iff_iff]
  exact ⟨fun h => h.symm, fun h => h.symm⟩

end Store

end AccessRules
