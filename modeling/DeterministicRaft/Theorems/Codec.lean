import DeterministicRaft.Scheme

/-!
# The commands in the log

Fields are joined without escaping. What a field holds can turn a command into a NOOP, never into another command, and no string is
both a configuration and a command.
-/

namespace DeterministicRaft

namespace Command

/-- The command can be read back: its operation is known, and no field holds a separator. -/
def Encodable (c : Command) : Prop :=
  (c.op = PUT ∨ c.op = GET ∨ c.op = CAS) ∧ ':' ∉ c.op.toList ∧ ':' ∉ c.key.toList ∧ ':' ∉ c.value.toList ∧ ':' ∉ c.expected.toList

/-- No numeral holds a separator. -/
theorem separator_notMem_int (i : Int) : ':' ∉ (toString i).toList := by
  intro hi
  rcases mem_toString_int hi with h | h
  · exact absurd h (by decide)
  · exact absurd h (by decide)

/-- A string that has not six parts is a NOOP. -/
theorem decode_of_length {s : String} (h : (pySplit s ':').length ≠ 6) : decode s = noop := by
  unfold decode
  split
  · rename_i heq
    rw [heq] at h
    exact absurd rfl h
  · rfl

/-- There are five separators between the fields, and those in them. -/
theorem count_encode (c : Command) : c.encode.toList.count ':' =
    5 + c.op.toList.count ':' + c.key.toList.count ':' + c.value.toList.count ':' + c.expected.toList.count ':' := by
  have hsep : ":".toList.count ':' = 1 := by decide
  unfold encode
  rw [toList_pyJoin]
  simp only [List.flatMap_cons, List.flatMap_nil, List.append_nil, List.count_append, hsep,
    List.count_eq_zero_of_not_mem (separator_notMem_int _)]
  omega

/-- A field with a separator makes a NOOP. -/
theorem decode_encode_of_mem {c : Command}
    (h : ':' ∈ c.op.toList ∨ ':' ∈ c.key.toList ∨ ':' ∈ c.value.toList ∨ ':' ∈ c.expected.toList) : decode c.encode = noop := by
  refine decode_of_length ?_
  rw [pySplit, List.length_map, length_splitChars, count_encode]
  simp only [← List.count_pos_iff] at h
  omega

/-- An unknown operation makes a NOOP. -/
theorem decode_encode_of_op {c : Command} (hop : ¬(c.op = PUT ∨ c.op = GET ∨ c.op = CAS)) (ho : ':' ∉ c.op.toList)
    (hk : ':' ∉ c.key.toList) (hv : ':' ∉ c.value.toList) (he : ':' ∉ c.expected.toList) : decode c.encode = noop := by
  have hs : pySplit c.encode ':' = [toString c.clientId, toString c.reqId, c.op, c.key, c.value, c.expected] := by
    refine pySplit_pyJoin ':' _ _ ?_
    simp only [List.forall_mem_cons]
    exact ⟨separator_notMem_int _, separator_notMem_int _, ho, hk, hv, he, fun _ h => absurd h List.not_mem_nil⟩
  simp only [decode, hs, pyInt_toString, if_neg hop]

/-- What cannot be read back is a NOOP. -/
theorem decode_encode_of_not {c : Command} (h : ¬c.Encodable) : decode c.encode = noop := by
  by_cases hmem : ':' ∈ c.op.toList ∨ ':' ∈ c.key.toList ∨ ':' ∈ c.value.toList ∨ ':' ∈ c.expected.toList
  · exact decode_encode_of_mem hmem
  · simp only [not_or] at hmem
    obtain ⟨ho, hk, hv, he⟩ := hmem
    exact decode_encode_of_op (fun hop => h ⟨hop, ho, hk, hv, he⟩) ho hk hv he

end Command

/-- What is read as a configuration starts like one. -/
theorem prefix_of_decodeConfig {s : String} {voters : List NodeId} (h : decodeConfig s = some voters) :
    CONFIG_PREFIX.toList <+: s.toList := by
  unfold decodeConfig at h
  split at h
  · assumption
  · cases h

/-- A command is read back as itself, if its operation is known and no field holds a separator, and as the NOOP otherwise. No string
is read as a configuration and as a structured command. A configuration with a voter is read back sorted. -/
theorem codec_no_confusion :
    (∀ c : Command, (c.Encodable → Command.decode c.encode = c) ∧ (¬c.Encodable → Command.decode c.encode = .noop)) ∧
    (∀ s voters, decodeConfig s = some voters → (Command.decode s).isStructured = false ∧ Command.decode s = .noop) ∧
    ∀ vs : List NodeId, vs ≠ [] → decodeConfig (encodeConfig vs) = some (vs.insertionSort (· ≤ ·)) := by
  refine ⟨fun c => ⟨fun h => ?_, Command.decode_encode_of_not⟩, fun s voters h => ?_, fun vs hvs => decodeConfig_encodeConfig hvs⟩
  · obtain ⟨hop, -, hk, hv, he⟩ := h
    exact Command.decode_encode c hop hk hv he
  · rw [Command.decode_of_prefix (prefix_of_decodeConfig h)]
    exact ⟨rfl, rfl⟩

end DeterministicRaft
