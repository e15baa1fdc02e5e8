import AccessRules.Proofs.Script.Printing

/-!
# Reading a script

`readable` gives the operations on the lines in front of the first one that is none.  A script that
is read has no such line (`readable_of_parseLines`); of any other script the lines in front are read
and the line is the one whose flaw is reported (`parse_error_cases`).

Lines are numbered from one, so a line is found again in the text by its number
(`mem_numberFrom_iff`, `mem_lines_iff`).  The text of some operations is read as these
operations, each on a line of its own (`parse_ofOperations`), and so it is behind any text that is
read (`parse_append_ofOperations`).
-/

namespace AccessRules.Script

/-! ## Numbers of lines -/

/-- An item is numbered by its place in the list. -/
theorem mem_numberFrom_iff {α : Type} {start number : Nat} {items : List α} {item : α} :
    ⟨number, item⟩ ∈ numberFrom start items ↔
      start ≤ number ∧ items[number - start]? = some item := by
  induction items generalizing start with
  | nil => simp [numberFrom]
  | cons first items ih =>
    rw [numberFrom, List.mem_cons, ih, Numbered.mk.injEq]
    constructor
    · rintro (⟨rfl, rfl⟩ | ⟨hle, hitem⟩)
      · rw [Nat.sub_self]
        exact ⟨Nat.le_refl _, rfl⟩
      · have hplace : number - start = number - (start + 1) + 1 := by omega
        rw [hplace]
        exact ⟨by omega, hitem⟩
    · rintro ⟨hle, hitem⟩
      -- the item is the first one or it stands behind that
      rcases Nat.eq_or_lt_of_le hle with rfl | hlt
      · rw [Nat.sub_self] at hitem
        exact .inl ⟨rfl, (Option.some.inj hitem).symm⟩
      · have hplace : number - start = number - (start + 1) + 1 := by omega
        rw [hplace] at hitem
        exact .inr ⟨hlt, hitem⟩

/-- As many items stand in front of a numbered one as have a smaller number. -/
theorem number_of_numberFrom_eq {α : Type} {start number : Nat} {items : List α} {item : α}
    {before after : List (Numbered α)}
    (h : numberFrom start items = before ++ ⟨number, item⟩ :: after) :
    number = start + before.length := by
  induction items generalizing start before with
  | nil =>
    have hempty := List.append_eq_nil_iff.mp h.symm
    cases hempty.2
  | cons first items ih =>
    rw [numberFrom] at h
    cases before with
    | nil =>
      cases h
      rfl
    | cons numbered before =>
      have hrest := ih (List.cons.inj h).2
      rw [List.length_cons]
      omega

/-! ## Lines that can be read -/

/-- The operations on the lines in front of the first one that is none. -/
def readable : List (Numbered String) → List (Numbered Operation)
  | [] => []
  | ⟨number, text⟩ :: rest =>
    match Operation.parse? text with
    | .error _ => []
    | .ok none => readable rest
    | .ok (some operation) => ⟨number, operation⟩ :: readable rest

section Cons

variable {number : Nat} {text : String} {rest : List (Numbered String)}

theorem readable_cons_of_error {flaw : Flaw} (h : Operation.parse? text = .error flaw) :
    readable (⟨number, text⟩ :: rest) = [] := by
  rw [readable, h]

theorem readable_cons_of_none (h : Operation.parse? text = .ok none) :
    readable (⟨number, text⟩ :: rest) = readable rest := by
  rw [readable, h]

theorem readable_cons_of_some {operation : Operation}
    (h : Operation.parse? text = .ok (some operation)) :
    readable (⟨number, text⟩ :: rest) = ⟨number, operation⟩ :: readable rest := by
  rw [readable, h]

theorem parseLines_cons_of_error {flaw : Flaw} (h : Operation.parse? text = .error flaw) :
    parseLines (⟨number, text⟩ :: rest) = .error ⟨number, flaw⟩ := by
  rw [parseLines, h]
  rfl

theorem parseLines_cons_of_none (h : Operation.parse? text = .ok none) :
    parseLines (⟨number, text⟩ :: rest) = parseLines rest := by
  rw [parseLines, h]
  rfl

theorem parseLines_cons_of_some {operation : Operation}
    (h : Operation.parse? text = .ok (some operation)) :
    parseLines (⟨number, text⟩ :: rest) =
      (parseLines rest).map (⟨number, operation⟩ :: ·) := by
  rw [parseLines, h]
  show (parseLines rest >>= _) = _
  cases parseLines rest <;> rfl

end Cons

/-- Where all lines can be read, the operations on them are what is read. -/
theorem readable_of_parseLines {ls : List (Numbered String)}
    {operations : List (Numbered Operation)} (h : parseLines ls = .ok operations) :
    readable ls = operations := by
  induction ls generalizing operations with
  | nil => exact Except.ok.inj h
  | cons numbered ls ih =>
    obtain ⟨number, text⟩ := numbered
    cases hparse : Operation.parse? text with
    | error flaw =>
      rw [parseLines_cons_of_error hparse] at h
      cases h
    | ok found =>
      cases found with
      | none =>
        rw [parseLines_cons_of_none hparse] at h
        rw [readable_cons_of_none hparse]
        exact ih h
      | some operation =>
        rw [parseLines_cons_of_some hparse] at h
        obtain ⟨rest, hrest, rfl⟩ := map_eq_ok_iff.mp h
        rw [readable_cons_of_some hparse, ih hrest]

/-- Where a line is no operation, the lines in front of the first such line are read. -/
theorem parseLines_error_cases {ls : List (Numbered String)} {number : Nat} {flaw : Flaw}
    (h : parseLines ls = .error ⟨number, flaw⟩) :
    ∃ before text after, ls = before ++ ⟨number, text⟩ :: after ∧
      Operation.parse? text = .error flaw ∧ parseLines before = .ok (readable ls) := by
  induction ls with
  | nil => cases h
  | cons numbered ls ih =>
    obtain ⟨first, text⟩ := numbered
    cases hparse : Operation.parse? text with
    | error other =>
      rw [parseLines_cons_of_error hparse] at h
      cases h
      -- this line is the first that cannot be read, and nothing was read before
      refine ⟨[], text, ls, rfl, hparse, ?_⟩
      rw [readable_cons_of_error hparse]
      rfl
    | ok found =>
      cases found with
      | none =>
        rw [parseLines_cons_of_none hparse] at h
        obtain ⟨before, bad, after, rfl, hbad, hbefore⟩ := ih h
        refine ⟨⟨first, text⟩ :: before, bad, after, rfl, hbad, ?_⟩
        rw [parseLines_cons_of_none hparse, readable_cons_of_none hparse]
        exact hbefore
      | some operation =>
        rw [parseLines_cons_of_some hparse] at h
        -- the operation is read, so what fails is behind it
        cases hrest : parseLines ls with
        | ok operations =>
          rw [hrest] at h
          cases h
        | error error =>
          rw [hrest] at h
          obtain rfl : error = ⟨number, flaw⟩ := Except.error.inj h
          obtain ⟨before, bad, after, rfl, hbad, hbefore⟩ := ih hrest
          refine ⟨⟨first, text⟩ :: before, bad, after, rfl, hbad, ?_⟩
          rw [parseLines_cons_of_some hparse, readable_cons_of_some hparse, hbefore]
          rfl

/-! ## A script and its lines -/

/-- A readable operation stands on the line that it is numbered by. -/
theorem mem_readable {ls : List (Numbered String)} {number : Nat} {operation : Operation}
    (h : ⟨number, operation⟩ ∈ readable ls) :
    ∃ text, ⟨number, text⟩ ∈ ls ∧ Operation.parse? text = .ok (some operation) := by
  induction ls with
  | nil => cases h
  | cons numbered ls ih =>
    obtain ⟨first, text⟩ := numbered
    cases hparse : Operation.parse? text with
    | error flaw =>
      rw [readable_cons_of_error hparse] at h
      cases h
    | ok found =>
      cases found with
      | none =>
        rw [readable_cons_of_none hparse] at h
        obtain ⟨line, hmem, hline⟩ := ih h
        exact ⟨line, List.mem_cons_of_mem _ hmem, hline⟩
      | some other =>
        rw [readable_cons_of_some hparse] at h
        rcases List.mem_cons.mp h with heq | hmem
        · cases heq
          exact ⟨text, List.mem_cons_self, hparse⟩
        · obtain ⟨line, hmem, hline⟩ := ih hmem
          exact ⟨line, List.mem_cons_of_mem _ hmem, hline⟩

/-- The lines of a script are counted from one. -/
theorem mem_lines_iff {script text : String} {number : Nat} :
    ⟨number, text⟩ ∈ lines script ↔
      1 ≤ number ∧ (Text.lines script)[number - 1]? = some text :=
  mem_numberFrom_iff

/-- The lines in front of a line are those with a smaller number. -/
theorem eq_take_of_lines_eq {script text : String} {number : Nat}
    {before after : List (Numbered String)}
    (h : lines script = before ++ ⟨number, text⟩ :: after) :
    before = (lines script).take (number - 1) := by
  have hnumber := number_of_numberFrom_eq h
  have hlength : number - 1 = before.length := by omega
  rw [h, hlength, List.take_left]

/-- The line that keeps a script from being read has the first flaw: the lines in front of it are
    read as the operations that can be read. -/
theorem parse_error_cases {script : String} {number : Nat} {flaw : Flaw}
    (h : parse script = .error ⟨number, flaw⟩) :
    1 ≤ number ∧
      (∃ text, (Text.lines script)[number - 1]? = some text ∧
        Operation.parse? text = .error flaw) ∧
      parseLines ((lines script).take (number - 1)) = .ok (readable (lines script)) := by
  obtain ⟨before, text, after, hlines, hflaw, hbefore⟩ := parseLines_error_cases h
  have hmem : ⟨number, text⟩ ∈ lines script := by
    rw [hlines]
    exact List.mem_append_right _ List.mem_cons_self
  obtain ⟨hpos, htext⟩ := mem_lines_iff.mp hmem
  rw [← eq_take_of_lines_eq hlines]
  exact ⟨hpos, ⟨text, htext, hflaw⟩, hbefore⟩

/-! ## The text of operations -/

/-- Operations on lines of their own, and an empty line behind them, are read. -/
theorem parseLines_print {operations : List Operation}
    (h : ∀ operation ∈ operations, operation.Printable) (start : Nat) :
    parseLines (numberFrom start (operations.map Operation.print ++ [""])) =
      .ok (numberFrom start operations) := by
  induction operations generalizing start with
  | nil => exact parseLines_cons_of_none Operation.parse?_empty
  | cons operation operations ih =>
    have hparse := Operation.parse?_print (h operation List.mem_cons_self)
    have hrest := ih (fun other hmem => h other (List.mem_cons_of_mem _ hmem)) (start + 1)
    rw [List.map_cons, List.cons_append, numberFrom, parseLines_cons_of_some hparse, hrest]
    rfl

/-- The text of some operations is read as these operations, line by line. -/
theorem parse_ofOperations {operations : List Operation}
    (h : ∀ operation ∈ operations, operation.Printable) :
    parse (ofOperations operations) = .ok (numberFrom 1 operations) := by
  rw [parse, lines_ofOperations h]
  exact parseLines_print h 1

/-! ## Texts put together -/

/-- Items behind others go on with their numbers. -/
theorem numberFrom_append {α : Type} (start : Nat) (front back : List α) :
    numberFrom start (front ++ back) =
      numberFrom start front ++ numberFrom (start + front.length) back := by
  induction front generalizing start with
  | nil => rfl
  | cons item front ih =>
    rw [List.cons_append, numberFrom, numberFrom, ih, List.length_cons, Nat.add_right_comm,
      Nat.add_assoc, List.cons_append]

/-- Of a line only its words are read. -/
theorem parse?_congr {line other : String} (h : Text.words line = Text.words other) :
    Operation.parse? line = Operation.parse? other := by
  rw [Operation.parse?, Operation.parse?, h]

/-- Of lines only their words are read. -/
theorem parseLines_congr {ls others : List String}
    (h : ls.map Text.words = others.map Text.words) (start : Nat) :
    parseLines (numberFrom start ls) = parseLines (numberFrom start others) := by
  induction ls generalizing others start with
  | nil =>
    obtain rfl := List.map_eq_nil_iff.mp h.symm
    rfl
  | cons line ls ih =>
    obtain ⟨other, others, rfl, hline, hrest⟩ := List.map_eq_cons_iff.mp h.symm
    rw [numberFrom, numberFrom, parseLines, parseLines, parse?_congr hline.symm,
      ih hrest.symm (start + 1)]

/-- Lines are read one after the other. -/
theorem parseLines_append (front back : List (Numbered String)) :
    parseLines (front ++ back) =
      parseLines front >>= fun done => (parseLines back).map (done ++ ·) := by
  induction front with
  | nil => exact (congrFun Except.map_id (parseLines back)).symm
  | cons numbered front ih =>
    obtain ⟨number, text⟩ := numbered
    rw [List.cons_append]
    cases hparse : Operation.parse? text with
    | error flaw =>
      rw [parseLines_cons_of_error hparse, parseLines_cons_of_error hparse]
      rfl
    | ok found =>
      cases found with
      | none => rw [parseLines_cons_of_none hparse, parseLines_cons_of_none hparse, ih]
      | some operation =>
        rw [parseLines_cons_of_some hparse, parseLines_cons_of_some hparse, ih]
        cases parseLines front with
        | error flaw => rfl
        | ok done => cases parseLines back <;> rfl

/-- Operations on lines of their own are read behind any text, if the text is. -/
theorem parse_append_ofOperations (text : String) {operations : List Operation}
    (h : ∀ operation ∈ operations, operation.Printable) :
    parse (text ++ "\n" ++ ofOperations operations) =
      (parse text).map (· ++ numberFrom (1 + (Text.lines text).length) operations) := by
  have hlines : Text.lines (ofOperations operations) = operations.map Operation.print ++ [""] := by
    rw [ofOperations_eq_join, Text.lines_join (isLine_of_mem_print h)]
  rw [parse, lines, parseLines_congr (Text.map_words_lines_append _ _), hlines, numberFrom_append,
    parseLines_append, parseLines_print h]
  show parse text >>= _ = _
  cases parse text <;> rfl

end AccessRules.Script
