import AccessRules.Proofs.Command.Agreement

/-!
# The notation of encoded rules

`encode` prints the encodings of rules as digits and `decode` reads digits:

1. **Notation** — digits that are written for octets have no blank and no colon, so they are read as
   these octets.  For no octets there is a word in place of digits, which is no digits
   (`readDigits_octetsWord`).

2. **Back and forth** — so what is encoded is decoded to a script that is encoded in the same way,
   unless there are no rules; then it is not decoded at all (`encode_again`).
-/

namespace AccessRules.Command

/-! ## Notation -/

/-- No digit is dropped as a blank or a colon. -/
theorem isDigit_digitChar : ∀ n : Fin 16,
    (!(Text.isBlank (Nat.digitChar n) || Nat.digitChar n = ':')) = true := by decide

/-- The digits of octets are read as they are. -/
theorem readDigits_encode (octets : Bytes) : readDigits (Hex.encode octets) = some octets := by
  have hkept : ∀ c ∈ (Hex.encode octets).toList, (!(Text.isBlank c || c = ':')) = true := by
    intro c hc
    obtain ⟨n, rfl⟩ := Hex.exists_of_mem_encode hc
    exact isDigit_digitChar n
  rw [readDigits, List.filter_eq_self.mpr hkept, String.ofList_toList, Hex.decode?_encode]

/-- Octets are read from the word that is printed for them, if there are any. -/
theorem readDigits_octetsWord (octets : Bytes) :
    readDigits (Script.octetsWord octets) = if octets = [] then none else some octets := by
  unfold Script.octetsWord
  split
  · decide
  · exact readDigits_encode octets

/-! ## Back and forth -/

/-- In digits, without the messages of the replay, the encoding of a script is one line. -/
theorem encode_quietly {context : Context} (htext : context.isJson = false)
    (hquiet : context.verbose = false) {script : String} {progress : Replay.Progress}
    {state : Replay.State Unit} {octets : Bytes} (hreplay : replay script = (.ok progress, state))
    (hencode : Canonical.encode state.store.rules = .ok octets) :
    encode context script = done [Script.octetsWord octets] := by
  have hprinted := @encode_of_replay context _ _ _ _ hreplay hencode
  simp only [replayLog, htext, hquiet, Bool.false_eq_true, if_false, List.nil_append] at hprinted
  exact hprinted

/-- **What is encoded is decoded, and encoded again in the same way**, also if the script is taken
    with the line feed that is printed behind it, unless there are no rules: what is printed for no
    rules is not decoded. -/
theorem encode_again {encoding decoding : Context} {readFile : ReadFile} {path script : String}
    {more : List String} (htext : encoding.isJson = false) (hquiet : encoding.verbose = false)
    (hdecoding : decoding.isJson = false) (hfile : readFile path = .ok script)
    (hexit : (run encoding readFile "encode" (path :: more)).exit = .ok 0) :
    ∃ progress made text, replay script = (.ok progress, made) ∧
      run encoding readFile "encode" (path :: more) = done [text] ∧
      (made.store.size = 0 → text = "empty" ∧ ∀ files,
        run decoding files "decode" [text] = refuse "Invalid hex input") ∧
      (made.store.size ≠ 0 → ∃ printed,
        (∀ files, run decoding files "decode" [text] = done [printed]) ∧
        ((∀ label ∈ decoding.target, label ≠ "" ∧ ∀ c ∈ label.toList, Text.isBlank c = false) →
          ∀ (again : Context) (files : ReadFile) (place : String) (others : List String),
            again.isJson = false → again.verbose = false → place ≠ "" →
            files place = .ok printed ∨ files place = .ok (printed ++ "\n") →
              run again files "encode" (place :: others) = done [text])) := by
  have hpath := path_ne_of_exit hexit
  rw [run_encode hpath hfile] at hexit ⊢
  obtain ⟨progress, made, octets, hreplay, hencode⟩ := exit_encode_iff.mp hexit
  have hvalid := sound_replay script
  rw [hreplay] at hvalid
  have hdecode : ∀ files, run decoding files "decode" [Script.octetsWord octets] =
      decode decoding (Script.octetsWord octets) := by
    intro files
    rw [run_decode (List.cons_ne_nil _ _), String.join_cons, String.join_nil, String.append_empty]
  have hread := readDigits_octetsWord octets
  refine ⟨progress, made, _, hreplay, encode_quietly htext hquiet hreplay hencode,
    fun hzero => ?_, fun hsome => ?_⟩
  · have hrules : made.store.rules = [] := List.eq_nil_of_length_eq_zero hzero
    rw [hrules] at hencode
    obtain rfl := Except.ok.inj hencode
    refine ⟨rfl, fun files => ?_⟩
    -- the word for no rules is no row of digits
    rw [hdecode, decode, hread]
    rfl
  · -- a store with rules has octets, which are printed as digits
    have hoctets : octets ≠ [] := by
      rintro rfl
      have hword := octetsWord_of_encode hencode
      rw [if_neg hsome] at hword
      exact absurd hword (by decide)
    rw [if_neg hoctets] at hread
    have hprinted := @decode_of_store decoding _ _ _ hread
      (Canonical.decodeStore_of_encode hvalid hencode)
    simp only [hdecoding, Bool.false_eq_true, if_false] at hprinted
    refine ⟨_, fun files => (hdecode files).trans hprinted, ?_⟩
    intro htarget again files place others hagain hsilent hplace hwritten
    -- with or without a line feed behind it, the script makes the store that was encoded
    have hencoded : ∀ script', script' = Text.trimEnd
          (Script.print decoding.target false made.store.rules) ∨
        script' = Text.trimEnd (Script.print decoding.target false made.store.rules) ++ "\n" →
          encode again script' = done [Script.octetsWord octets] := fun script' hscript =>
      encode_quietly hagain hsilent
        (replay_of_printed (isWord_of_target htarget) hvalid hscript) hencode
    rcases hwritten with hwritten | hwritten
    · rw [run_encode hplace hwritten]
      exact hencoded _ (.inl rfl)
    · rw [run_encode hplace hwritten]
      exact hencoded _ (.inr rfl)

/-- A script that stores a rule in place of another: its encoding is that of the script which is
    printed for it. -/
theorem encode_again_of_replaced_rule :
    let script := "select-target A\nstore-rule --aid A0 --device-app-id empty --nfc-never\n" ++
      "store-rule --nfc-always --device-app-id empty --aid a0"
    let digits := "e20ce1054f01a0c100e303d10101"
    run {} (fun _ => .ok script) "encode" ["file"] = done [digits] ∧
      ∃ printed, run {} (fun _ => .ok "") "decode" [digits] = done [printed] ∧
        run {} (fun _ => .ok (printed ++ "\n")) "encode" ["copy"] = done [digits] := by
  intro script digits
  have hparse : Script.parse script = .ok
      [⟨1, .selectTarget "A"⟩, ⟨2, .storeRule ⟨⟨.aid [0xa0], [], none⟩, { nfc := some .never }⟩⟩,
        ⟨3, .storeRule ⟨⟨.aid [0xa0], [], none⟩, { nfc := some .always }⟩⟩] := by decide +kernel
  have hreplay : replay script = (.ok ⟨3, some ⟨"A", none⟩⟩,
      ⟨⟨[⟨⟨.aid [0xa0], [], none⟩, { nfc := some .always }⟩], List.pairwise_singleton _ _⟩, (),
        []⟩) :=
    (Replay.runFrom_run_of_parse hparse start).trans rfl
  have hrun := @run_encode {} (fun _ => .ok script) "file" script [] (by decide) rfl
  have hexit : (run {} (fun _ => .ok script) "encode" ["file"]).exit = .ok 0 := by
    rw [hrun, exit_encode_iff]
    exact ⟨_, _, _, hreplay, rfl⟩
  obtain ⟨progress, made, text, hmade, hencoded, -, hagain⟩ :=
    @encode_again {} {} (fun _ => .ok script) "file" script [] rfl rfl rfl rfl hexit
  rw [hreplay] at hmade
  cases hmade
  have hdigits : encode {} script = done [digits] :=
    (encode_quietly rfl rfl hreplay rfl).trans (congrArg (fun text => done [text]) (by decide))
  obtain rfl := List.singleton_inj.mp
    (congrArg Outcome.outputs (hdigits.symm.trans (hrun.symm.trans hencoded)))
  obtain ⟨printed, hdecoded, hcopied⟩ := hagain (by decide)
  exact ⟨hencoded, printed, hdecoded _,
    hcopied nofun {} (fun _ => .ok (printed ++ "\n")) "copy" [] rfl rfl (by decide) (.inr rfl)⟩

/-- What is printed for a script that leaves no rules is not decoded. -/
theorem decode_empty_refused :
    run {} (fun _ => .ok "select-target A\ndelete-all\n") "encode" ["file"] = done ["empty"] ∧
      run {} (fun _ => .ok "") "decode" ["empty"] = refuse "Invalid hex input" := by
  have hparse : Script.parse "select-target A\ndelete-all\n" =
      .ok [⟨1, .selectTarget "A"⟩, ⟨2, .deleteAll⟩] := by decide +kernel
  have hreplay : replay "select-target A\ndelete-all\n" =
      (.ok ⟨2, some ⟨"A", none⟩⟩, ⟨Store.empty, (), []⟩) :=
    (Replay.runFrom_run_of_parse hparse start).trans rfl
  constructor
  · rw [@run_encode {} (fun _ => .ok "select-target A\ndelete-all\n") "file" _ [] (by decide) rfl]
    exact encode_quietly rfl rfl hreplay rfl
  · have hread : readDigits (String.join ["empty"]) = none := by decide
    rw [run_decode (List.cons_ne_nil _ _), decode, hread]

end AccessRules.Command
