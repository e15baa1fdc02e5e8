import AccessRules.Proofs.Hex
import AccessRules.Rule.Basic

/-!
# Keys tell references apart

A store compares rules by their keys, which are texts made of the target, the device application and
the package name with slashes in between.  A package name may hold any character, slashes included,
yet no two references have one key (`Reference.key_injective`):

1. **Slashes** — a text is cut at its first slash in one way (`eq_and_eq_of_append_cons_eq`), and
   there is no slash among digits.

2. **Keys** — so the target and the device application end at the first and at the second slash, and
   the package name is all the rest.
-/

namespace AccessRules

/-! ## Slashes -/

/-- A text is cut at its first separator in one way. -/
theorem eq_and_eq_of_append_cons_eq {α : Type} {separator : α} {a b x y : List α}
    (ha : separator ∉ a) (hb : separator ∉ b) (h : a ++ separator :: x = b ++ separator :: y) :
    a = b ∧ x = y := by
  -- an empty part in front of a separator is the same as any other without one
  induction a generalizing b with
  | nil =>
    cases b with
    | nil => exact ⟨rfl, (List.cons.inj h).2⟩
    | cons c b =>
      obtain ⟨rfl, -⟩ := List.cons.inj h
      exact absurd List.mem_cons_self hb
  | cons c a ih =>
    cases b with
    | nil =>
      obtain ⟨rfl, -⟩ := List.cons.inj h
      exact absurd List.mem_cons_self ha
    | cons d b =>
      obtain ⟨rfl, htail⟩ := List.cons.inj h
      obtain ⟨rfl, rfl⟩ := ih (fun hmem => ha (List.mem_cons_of_mem _ hmem))
        (fun hmem => hb (List.mem_cons_of_mem _ hmem)) htail
      exact ⟨rfl, rfl⟩

theorem not_mem_encode (octets : Bytes) : '/' ∉ (Hex.encode octets).toList :=
  fun h => (Hex.ne_of_mem_encode h).1 rfl

/-- The target part of a key ends at the first slash. -/
theorem Target.not_mem_key (target : Target) : '/' ∉ target.key.toList := by
  cases target with
  | any => decide
  | aid octets => exact not_mem_encode octets

/-- Targets are known again from their part of the key. -/
theorem Target.key_injective {target other : Target} (h : target.key = other.key) :
    target = other := by
  -- an asterisk is no digit, so the key of every application is that of no identifier
  have hstar : ∀ octets, "*" ≠ Hex.encode octets := by
    intro octets heq
    have hmem : '*' ∈ (Hex.encode octets).toList := heq ▸ by decide
    exact (Hex.ne_of_mem_encode hmem).2.1 rfl
  cases target with
  | any =>
    cases other with
    | any => rfl
    | aid octets => exact absurd h (hstar octets)
  | aid octets =>
    cases other with
    | any => exact absurd h.symm (hstar octets)
    | aid others => rw [Hex.encode_injective h]

/-! ## Keys -/

/-- What stands behind the first slash of a key. -/
def Reference.keyTail (reference : Reference) : List Char :=
  match reference.packageName with
  | none => (Hex.encode reference.deviceAppId).toList
  | some name => (Hex.encode reference.deviceAppId).toList ++ '/' :: name.toList

/-- A key is the target, a slash, and what is behind it. -/
theorem Reference.toList_key (reference : Reference) :
    reference.key.toList = reference.target.key.toList ++ '/' :: reference.keyTail := by
  obtain ⟨target, deviceAppId, packageName⟩ := reference
  cases packageName <;> simp [Reference.key, Reference.keyTail]

/-- What is behind the first slash tells the device application and the package name, as there is
another slash in it just if there is a name. -/
theorem Reference.keyTail_injective {reference other : Reference}
    (h : reference.keyTail = other.keyTail) :
    reference.deviceAppId = other.deviceAppId ∧ reference.packageName = other.packageName := by
  obtain ⟨target, deviceAppId, packageName⟩ := reference
  obtain ⟨target', deviceAppId', packageName'⟩ := other
  cases packageName with
  | none =>
    cases packageName' with
    | none => exact ⟨Hex.encode_injective (String.toList_inj.mp h), rfl⟩
    | some name' =>
      -- with a name on one side only, the slash in front of it would be a digit
      have hmem : '/' ∈ (Hex.encode deviceAppId).toList := by
        rw [show (Hex.encode deviceAppId).toList = _ from h]
        exact List.mem_append_right _ List.mem_cons_self
      exact absurd hmem (not_mem_encode deviceAppId)
  | some name =>
    cases packageName' with
    | none =>
      have hmem : '/' ∈ (Hex.encode deviceAppId').toList := by
        rw [← show _ = (Hex.encode deviceAppId').toList from h]
        exact List.mem_append_right _ List.mem_cons_self
      exact absurd hmem (not_mem_encode deviceAppId')
    | some name' =>
      obtain ⟨hdevice, hname⟩ :=
        eq_and_eq_of_append_cons_eq (not_mem_encode deviceAppId) (not_mem_encode deviceAppId') h
      exact ⟨Hex.encode_injective (String.toList_inj.mp hdevice),
        congrArg some (String.toList_inj.mp hname)⟩

/-- No two references have one key. -/
theorem Reference.key_injective {reference other : Reference} (h : reference.key = other.key) :
    reference = other := by
  have hlist : reference.key.toList = other.key.toList := congrArg String.toList h
  rw [Reference.toList_key, Reference.toList_key] at hlist
  obtain ⟨htarget, htail⟩ := eq_and_eq_of_append_cons_eq reference.target.not_mem_key
    other.target.not_mem_key hlist
  obtain ⟨hdevice, hname⟩ := Reference.keyTail_injective htail
  obtain ⟨target, deviceAppId, packageName⟩ := reference
  obtain ⟨target', deviceAppId', packageName'⟩ := other
  obtain rfl := Target.key_injective (String.toList_inj.mp htarget)
  obtain rfl : deviceAppId = deviceAppId' := hdevice
  obtain rfl : packageName = packageName' := hname
  rfl

/-- Rules have one key exactly if they are about the same. -/
theorem Rule.key_eq_iff {rule other : Rule} :
    rule.key = other.key ↔ rule.reference = other.reference :=
  ⟨Reference.key_injective, congrArg Reference.key⟩

/-- Rules with distinct references have distinct keys, and the other way round. -/
theorem nodup_map_key_iff {rules : List Rule} :
    (rules.map Rule.key).Nodup ↔ (rules.map Rule.reference).Nodup := by
  unfold List.Nodup
  rw [List.pairwise_map, List.pairwise_map]
  constructor
  · exact List.Pairwise.imp fun hne heq => hne (Rule.key_eq_iff.mpr heq)
  · exact List.Pairwise.imp fun hne heq => hne (Rule.key_eq_iff.mp heq)

end AccessRules
