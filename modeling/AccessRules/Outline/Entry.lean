import AccessRules.Bytes
import AccessRules.Report

/-!
# The outline of nested data objects

An outline lists data objects in the order in which they begin, each before its children and one
level above them. It is drawn up without any of the checks of the strict decoder: lengths may be
loose, values may be cut off, and tags and lengths of any size count around in 32 bits with a sign.
A length can therefore be negative, and lead back to octets that have been read before.
-/

namespace AccessRules.Outline

/-! ## Flaws -/

/-- Why octets have no outline. -/
inductive Flaw
  /-- A data object begins where there are no octets. -/
  | noData (offset : Int)
  | openTag
  | indefiniteLength
  | openLength
  /-- Reading comes back to where it has been and never ends. -/
  | endless
  deriving DecidableEq, Repr

/-- The wording of a flaw. -/
def Flaw.message : Flaw → String
  | .noData offset => s!"No data at offset {offset}"
  | .openTag => "Unexpected end of data while parsing multi-byte tag"
  | .indefiniteLength => "Indefinite length not supported"
  | .openLength => "Unexpected end of data while parsing length"
  | .endless => "Data objects repeat without end"

/-- The report of a flaw. -/
def Flaw.report (flaw : Flaw) : Report := Report.plain flaw.message

/-! ## Numbers that count around -/

/-- The number of octets, most significant first, counting around in 32 bits with a sign. -/
def wrapped (octets : Bytes) : Int := Int.bmod (ofBigEndian octets) 0x100000000

/-! ## Tags and lengths -/

/-- The octets through the first without its high bit, and the rest. -/
def readTagEnd : Bytes → Except Flaw (Bytes × Bytes)
  | [] => .error .openTag
  | octet :: rest =>
    if octet.toNat < 0x80 then .ok ([octet], rest)
    else do
      let (more, rest) ← readTagEnd rest
      .ok (octet :: more, rest)

/-- The tag in front, which begins at `offset`, and the rest. -/
def readTag (offset : Int) : Bytes → Except Flaw (Bytes × Bytes)
  | [] => .error (.noData offset)
  | first :: rest =>
    if first.toNat % 32 = 31 then do
      let (more, rest) ← readTagEnd rest
      .ok (first :: more, rest)
    else .ok ([first], rest)

/-- The length in front, which begins at `offset`, with its octets and the rest. -/
def readLength (offset : Int) : Bytes → Except Flaw (Int × Bytes × Bytes)
  | [] => .error (.noData offset)
  | first :: rest =>
    if first.toNat < 0x80 then .ok (first.toNat, [first], rest)
    else if first.toNat = 0x80 then .error .indefiniteLength
    else
      let count := first.toNat - 0x80
      let octets := rest.take count
      if octets.length < count then .error .openLength
      else .ok (wrapped octets, first :: octets, rest.drop count)

/-- Whether the first octet of a tag says that the value holds data objects. -/
def isConstructed (tag : Bytes) : Bool :=
  match tag with
  | [] => false
  | first :: _ => first.toNat / 32 % 2 = 1

/-- What stands in front of a value. -/
structure Head where
  tag : Int
  constructed : Bool
  length : Int
  /-- How many octets the tag and the length take. -/
  size : Nat
  deriving DecidableEq, Repr

/-- The head in front, which begins at `offset`. -/
def readHead (offset : Int) (octets : Bytes) : Except Flaw Head := do
  let (tag, rest) ← readTag offset octets
  let (length, lengthOctets, _) ← readLength (offset + tag.length) rest
  .ok ⟨wrapped tag, isConstructed tag, length, tag.length + lengthOctets.length⟩

/-! ## Values -/

/-- `slice octets start stop` is the octets from `start` on and before `stop`, where a negative
`stop` counts from the end. -/
def slice (octets : Bytes) (start : Nat) (stop : Int) : Bytes :=
  let stop := if stop < 0 then stop + octets.length else stop
  (octets.drop start).take (stop - start).toNat

/-! ## Entries -/

/-- One data object of an outline. -/
structure Entry where
  depth : Nat
  tag : Int
  /-- The value, which is left empty if it holds data objects. -/
  value : Bytes
  /-- Whether there are entries for data objects inside. -/
  isParent : Bool
  deriving DecidableEq, Repr

/-- A tag that is read takes an octet at least. -/
theorem length_readTag {offset : Int} {octets tag rest : Bytes}
    (h : readTag offset octets = .ok (tag, rest)) : 0 < tag.length ∧ octets ≠ [] := by
  cases octets with
  | nil => simp [readTag] at h
  | cons first octets =>
    rw [readTag] at h
    split at h
    · cases hr : readTagEnd octets with
      | error flaw => simp [hr, bind, Except.bind] at h
      | ok found =>
        simp only [hr, bind, Except.bind, Except.ok.injEq, Prod.mk.injEq] at h
        simp [← h.1]
    · simp only [Except.ok.injEq, Prod.mk.injEq] at h
      simp [← h.1]

/-- A head that is read takes an octet at least. -/
theorem readHead_pos {offset : Int} {octets : Bytes} {head : Head}
    (h : readHead offset octets = .ok head) : 0 < head.size ∧ octets ≠ [] := by
  unfold readHead at h
  cases ht : readTag offset octets with
  | error flaw => simp [ht, bind, Except.bind] at h
  | ok found =>
    obtain ⟨tag, rest⟩ := found
    have positive := length_readTag ht
    cases hl : readLength (offset + tag.length) rest with
    | error flaw => simp [ht, hl, bind, Except.bind] at h
    | ok found =>
      simp only [ht, hl, bind, Except.bind, Except.ok.injEq] at h
      exact ⟨by rw [← h]; simp only; omega, positive.2⟩

/-- What lies behind the start is shorter than the whole. -/
theorem length_slice_lt {octets : Bytes} {start : Nat} {stop : Int} (positive : 0 < start)
    (nonempty : octets ≠ []) : (slice octets start stop).length < octets.length := by
  have := List.length_pos_iff.2 nonempty
  simp only [slice, List.length_take, List.length_drop]
  omega

end AccessRules.Outline
